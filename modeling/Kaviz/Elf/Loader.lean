import Kaviz.Heap.Alloc

/-! # The ELF loader

`elf_load` of `kernel/elf.c`. Program headers are kept in kernel memory and read
back from there each time the source mentions them. The file system is not part
of the kernel sources: `Vfs` is the interface `elf_load` uses of it. `none`
means that the function does not return, because of a page fault.
-/

namespace Kaviz.Elf

open Bytes Memory Paging Heap

/-- The file system calls, on the `struct vfs_file` of one open file. -/
structure Vfs (φ : Type) where
  /-- `vfs_open` for reading; `none` is failure. -/
  openFile : String → Option φ
  /-- `vfs_read`: the bytes put into the buffer, as many as `*bytes_read`
  says; `none` is failure. -/
  read : φ → Nat → Option (List UInt8) × φ
  /-- `vfs_seek`. -/
  seek : φ → Int → Int → Bool × φ
  /-- `vfs_close`. -/
  close : φ → φ

structure LoadState (σ φ : Type) where
  mem : MemState σ
  file : φ
  /-- `proc->entry_point`, when it has been set. -/
  entry : Option Nat

/-- Conversion of an unsigned value to `int32_t`. -/
def toInt32 (n : Nat) : Int := Int.bmod n (2 ^ 32)

def ptLoad : Nat := 1

def userBase : Nat := 0x100000000

section

variable {σ φ : Type} (V : Vfs φ) (M : Machine σ)

/-! ## Memory functions of the C library -/

def storeBytes (s : MemState σ) (a : Nat) : List UInt8 → Option (MemState σ)
  | [] => some s
  | b :: bs => do
      let s ← s.store8 M (a % 2 ^ 64) b
      storeBytes s (a + 1) bs

def memcpy (s : MemState σ) (dst src : Nat) : Nat → Option (MemState σ)
  | 0 => some s
  | n + 1 => do
      let b ← M.load s.mach (src % 2 ^ 64)
      let s ← s.store8 M (dst % 2 ^ 64) b
      memcpy s (dst + 1) (src + 1) n

/-- `memset(dst, 0, n)`. -/
def memzero (s : MemState σ) (dst : Nat) : Nat → Option (MemState σ)
  | 0 => some s
  | n + 1 => do
      let s ← s.store8 M (dst % 2 ^ 64) 0
      memzero s (dst + 1) n

/-! ## Program headers -/

def pType (x : σ) (phdr : Nat) : Option Nat := loadLE M x phdr 4
def pFlags (x : σ) (phdr : Nat) : Option Nat := loadLE M x (phdr + 4) 4
def pOffset (x : σ) (phdr : Nat) : Option Nat := loadLE M x (phdr + 8) 8
def pVaddr (x : σ) (phdr : Nat) : Option Nat := loadLE M x (phdr + 16) 8
def pFilesz (x : σ) (phdr : Nat) : Option Nat := loadLE M x (phdr + 32) 8
def pMemsz (x : σ) (phdr : Nat) : Option Nat := loadLE M x (phdr + 40) 8

/-- Flags of a page of a segment: `PF_W` makes it writable, and addresses from
4 GiB on are taken for user space. -/
def segmentFlags (flags virtAddr : Nat) : Nat :=
  pagePresent ||| (if flags / 2 % 2 = 1 then pageWritable else 0) |||
    (if virtAddr ≥ userBase then pageUser else 0)

def numPages (vaddr memsz : Nat) : Nat :=
  (pageAlign ((vaddr + memsz + 4096 - 1) % 2 ^ 64) + 2 ^ 64 - pageAlign vaddr) % 2 ^ 64 / 4096

/-- The page loop of a segment, from page `i` on (`n` pages left). -/
def mapSegment (phdr startPage : Nat) : Nat → Nat → MemState σ → Option (Bool × MemState σ)
  | _, 0, s => some (true, s)
  | i, n + 1, s => do
      let flags ← pFlags M s.mach phdr
      let virtAddr := (startPage + 4096 * i) % 2 ^ 64
      match s.mapFresh M virtAddr (segmentFlags flags virtAddr) with
      | (true, s) => mapSegment phdr startPage (i + 1) n s
      | (false, s) => some (false, s)

/-! ## Loading -/

/-- `kfree(phdrs); vfs_close(&file); return 0;` -/
def giveUp (phdrs : Nat) (st : LoadState σ φ) : Option (Bool × LoadState σ φ) := do
  let mem ← kfree M st.mem phdrs
  return (false, { st with mem := mem, file := V.close st.file })

/-- Read the file part of a segment through a temporary buffer. -/
def copySegment (phdrs phdr : Nat) (st : LoadState σ φ) : Option (Bool × LoadState σ φ) := do
  let filesz ← pFilesz M st.mem.mach phdr
  if filesz = 0 then return (true, st)
  else
    let (buffer, mem) ← kmalloc M st.mem filesz
    if buffer = 0 then giveUp V M phdrs { st with mem := mem }
    else
      let count ← pFilesz M mem.mach phdr
      match V.read st.file (count % 2 ^ 32) with
      | (none, file) => do
          let mem ← kfree M mem buffer
          giveUp V M phdrs { st with mem := mem, file := file }
      | (some bytes, file) => do
          let mem ← storeBytes M mem buffer bytes
          let filesz ← pFilesz M mem.mach phdr
          if bytes.length ≠ filesz then
            let mem ← kfree M mem buffer
            giveUp V M phdrs { st with mem := mem, file := file }
          else
            let vaddr ← pVaddr M mem.mach phdr
            let mem ← memcpy M mem vaddr buffer filesz
            let mem ← kfree M mem buffer
            return (true, { st with mem := mem, file := file })

def clearBss (phdr : Nat) (s : MemState σ) : Option (MemState σ) := do
  let memsz ← pMemsz M s.mach phdr
  let filesz ← pFilesz M s.mach phdr
  if memsz > filesz then
    let vaddr ← pVaddr M s.mach phdr
    memzero M s (vaddr + filesz) (memsz - filesz)
  else return s

/-- The body of the loop over program headers; `false` is a `return 0`. -/
def loadSegment (phdrs phdr : Nat) (st : LoadState σ φ) : Option (Bool × LoadState σ φ) := do
  let type ← pType M st.mem.mach phdr
  if type ≠ ptLoad then return (true, st)
  else
    let vaddr ← pVaddr M st.mem.mach phdr
    let memsz ← pMemsz M st.mem.mach phdr
    match ← mapSegment M phdr (pageAlign vaddr) 0 (numPages vaddr memsz) st.mem with
    | (false, mem) => giveUp V M phdrs { st with mem := mem }
    | (true, mem) =>
        let offset ← pOffset M mem.mach phdr
        match V.seek st.file (toInt32 offset) 0 with
        | (false, file) => giveUp V M phdrs { st with mem := mem, file := file }
        | (true, file) =>
            match ← copySegment V M phdrs phdr { st with mem := mem, file := file } with
            | (false, st) => return (false, st)
            | (true, st) => do
                let mem ← clearBss M phdr st.mem
                return (true, { st with mem := mem })

/-- Program headers `i`, `i + 1`, … (`n` of them). -/
def loadSegments (phdrs : Nat) : Nat → Nat → LoadState σ φ → Option (Bool × LoadState σ φ)
  | _, 0, st => some (true, st)
  | i, n + 1, st => do
      match ← loadSegment V M phdrs (phdrs + 56 * i) st with
      | (true, st) => loadSegments phdrs (i + 1) n st
      | (false, st) => return (false, st)

/-- Fields of `Elf64_Ehdr` the loader uses. -/
structure Ehdr where
  ident : Nat → UInt8
  type : Nat
  entry : Nat
  phoff : Nat
  phentsize : Nat
  phnum : Nat

def Ehdr.ofBytes (bytes : List UInt8) : Ehdr :=
  let m : Mem := fun i => bytes.getD i 0
  ⟨m, readLE m 16 2, readLE m 24 8, readLE m 32 8, readLE m 54 2, readLE m 56 2⟩

/-- The header checks of `elf_load`: magic numbers, 64-bit class, `ET_EXEC`. -/
def Ehdr.Accepted (e : Ehdr) : Prop :=
  e.ident 0 = 0x7f ∧ e.ident 1 = 0x45 ∧ e.ident 2 = 0x4c ∧ e.ident 3 = 0x46 ∧ e.ident 4 = 2 ∧
    e.type = 2

instance (e : Ehdr) : Decidable e.Accepted := inferInstanceAs (Decidable (_ ∧ _))

/-- `elf_load` behind the header checks. -/
def loadProgram (e : Ehdr) (st : LoadState σ φ) : Option (Bool × LoadState σ φ) :=
  let st := { st with entry := some e.entry }
  if e.phnum = 0 then some (false, { st with file := V.close st.file })
  else
    match V.seek st.file (toInt32 e.phoff) 0 with
    | (false, file) => some (false, { st with file := V.close file })
    | (true, file) => do
        let phSize := e.phnum * e.phentsize % 2 ^ 32
        let (phdrs, mem) ← kmalloc M st.mem phSize
        if phdrs = 0 then return (false, { st with mem := mem, file := V.close file })
        else
          match V.read file phSize with
          | (none, file) => giveUp V M phdrs { st with mem := mem, file := file }
          | (some bytes, file) => do
              let mem ← storeBytes M mem phdrs bytes
              if bytes.length ≠ phSize then giveUp V M phdrs { st with mem := mem, file := file }
              else
                match ← loadSegments V M phdrs 0 e.phnum { st with mem := mem, file := file } with
                | (false, st) => return (false, st)
                | (true, st) => do
                    let mem ← kfree M st.mem phdrs
                    return (true, { st with mem := mem, file := V.close st.file })

/-- `elf_load`; the flag is the result. A file that cannot be opened leaves
everything as it is. -/
def elfLoad (filename : String) (s : MemState σ) : Option (Bool × MemState σ × Option Nat) :=
  match V.openFile filename with
  | none => some (false, s, none)
  | some file =>
      match V.read file 64 with
      | (none, _) => some (false, s, none)
      | (some bytes, file) =>
          if bytes.length ≠ 64 then some (false, s, none)
          else if ¬ (Ehdr.ofBytes bytes).Accepted then some (false, s, none)
          else do
            let (ok, st) ← loadProgram V M (Ehdr.ofBytes bytes) ⟨s, file, none⟩
            return (ok, st.mem, st.entry)

end

end Kaviz.Elf
