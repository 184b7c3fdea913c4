import Kaviz.Lib.Calls
import Kaviz.Lib.Ledger
import Kaviz.Elf.Loader

/-! # Resources of the ELF loader

`elf_load` once more, as a program that records the calls it makes. What the
file system, the heap and the page tables answer, and what is read back from
memory, comes from a world the program knows nothing about. On every way out the
file is closed and what was allocated is freed.
-/

namespace Kaviz.Elf

open Calls Ledger Paging

inductive LoadCall
  | vfsOpen (ok : Bool)
  | vfsRead (count : Nat) (ok : Bool)
  | vfsSeek (offset whence : Int) (ok : Bool)
  | vfsClose
  | kmalloc (size pointer : Nat)
  | kfree (pointer : Nat)
  | allocPhysicalPage (page : Nat)
  | mapPage (virtualAddr physicalAddr flags : Nat) (ret : Int)
  deriving DecidableEq

/-- What `elf_load` calls and the memory it works on; `none` is a page fault. -/
structure Services (ω : Type) where
  vfsOpen : String → ω → Option (Bool × ω)
  /-- `vfs_read`: the bytes put into the buffer, as many as `*bytes_read` says;
  `none` is failure. -/
  vfsRead : Nat → ω → Option (Option (List UInt8) × ω)
  vfsSeek : Int → Int → ω → Option (Bool × ω)
  vfsClose : ω → Option (Unit × ω)
  kmalloc : Nat → ω → Option (Nat × ω)
  kfree : Nat → ω → Option (Unit × ω)
  allocPhysicalPage : ω → Option (Nat × ω)
  mapPage : Nat → Nat → Nat → ω → Option (Int × ω)
  /-- Read a little-endian word of so many bytes. -/
  load : Nat → Nat → ω → Option (Nat × ω)
  /-- Put bytes into memory. -/
  store : Nat → List UInt8 → ω → Option (Unit × ω)
  memcpy : Nat → Nat → Nat → ω → Option (Unit × ω)
  /-- `memset(dst, 0, n)`. -/
  memzero : Nat → Nat → ω → Option (Unit × ω)
  /-- `proc->entry_point = entry`. -/
  setEntry : Nat → ω → Option (Unit × ω)

namespace Services

variable {ω : Type} (S : Services ω)

/-- `kfree(phdrs); vfs_close(&file); return 0;` -/
def giveUp (phdrs : Nat) : Prog LoadCall ω Bool := do
  call (fun _ => .kfree phdrs) (S.kfree phdrs)
  call (fun _ => .vfsClose) S.vfsClose
  return false

/-- `vfs_close(&file); return 0;` -/
def closeOnly : Prog LoadCall ω Bool := do
  call (fun _ => .vfsClose) S.vfsClose
  return false

def mapSegment (phdr startPage : Nat) : Nat → Nat → Prog LoadCall ω Bool
  | _, 0 => return true
  | i, n + 1 => do
      let page ← call .allocPhysicalPage S.allocPhysicalPage
      if page = 0 then return false
      else
        let virtAddr := (startPage + 4096 * i) % 2 ^ 64
        let flags ← silent (S.load (phdr + 4) 4)
        let ret ← call (.mapPage virtAddr page (segmentFlags flags virtAddr))
          (S.mapPage virtAddr page (segmentFlags flags virtAddr))
        if ret ≠ 0 then return false else mapSegment phdr startPage (i + 1) n

/-- Read the file part of a segment through a temporary buffer; `false` is a `return 0`. -/
def copySegment (phdrs phdr : Nat) : Prog LoadCall ω Bool := do
  let filesz ← silent (S.load (phdr + 32) 8)
  if filesz = 0 then return true
  else
    let buffer ← call (.kmalloc filesz) (S.kmalloc filesz)
    if buffer = 0 then S.giveUp phdrs
    else
      let count ← silent (S.load (phdr + 32) 8)
      let answer ← call (fun answer => .vfsRead (count % 2 ^ 32) answer.isSome)
        (S.vfsRead (count % 2 ^ 32))
      match answer with
      | none => do
          call (fun _ => .kfree buffer) (S.kfree buffer)
          S.giveUp phdrs
      | some bytes => do
          silent (S.store buffer bytes)
          let filesz ← silent (S.load (phdr + 32) 8)
          if bytes.length ≠ filesz then
            call (fun _ => .kfree buffer) (S.kfree buffer)
            S.giveUp phdrs
          else
            let vaddr ← silent (S.load (phdr + 16) 8)
            silent (S.memcpy vaddr buffer filesz)
            call (fun _ => .kfree buffer) (S.kfree buffer)
            return true

def clearBss (phdr : Nat) : Prog LoadCall ω Bool := do
  let memsz ← silent (S.load (phdr + 40) 8)
  let filesz ← silent (S.load (phdr + 32) 8)
  if memsz > filesz then
    let vaddr ← silent (S.load (phdr + 16) 8)
    silent (S.memzero (vaddr + filesz) (memsz - filesz))
    return true
  else return true

/-- The body of the loop over program headers; `false` is a `return 0`. -/
def loadSegment (phdrs phdr : Nat) : Prog LoadCall ω Bool := do
  let type ← silent (S.load phdr 4)
  if type ≠ ptLoad then return true
  else
    let vaddr ← silent (S.load (phdr + 16) 8)
    let memsz ← silent (S.load (phdr + 40) 8)
    if ← S.mapSegment phdr (pageAlign vaddr) 0 (numPages vaddr memsz) then
      let offset ← silent (S.load (phdr + 8) 8)
      let ok ← call (.vfsSeek (toInt32 offset) 0) (S.vfsSeek (toInt32 offset) 0)
      if ok then
        if ← S.copySegment phdrs phdr then S.clearBss phdr else return false
      else S.giveUp phdrs
    else S.giveUp phdrs

def loadSegments (phdrs : Nat) : Nat → Nat → Prog LoadCall ω Bool
  | _, 0 => return true
  | i, n + 1 => do
      if ← S.loadSegment phdrs (phdrs + 56 * i) then loadSegments phdrs (i + 1) n
      else return false

def loadProgram (e : Ehdr) : Prog LoadCall ω Bool := do
  silent (S.setEntry e.entry)
  if e.phnum = 0 then S.closeOnly
  else
    let ok ← call (.vfsSeek (toInt32 e.phoff) 0) (S.vfsSeek (toInt32 e.phoff) 0)
    if ok then
      let phSize := e.phnum * e.phentsize % 2 ^ 32
      let phdrs ← call (.kmalloc phSize) (S.kmalloc phSize)
      if phdrs = 0 then S.closeOnly
      else
        let answer ← call (fun answer => .vfsRead phSize answer.isSome) (S.vfsRead phSize)
        match answer with
        | none => S.giveUp phdrs
        | some bytes => do
            silent (S.store phdrs bytes)
            if bytes.length ≠ phSize then S.giveUp phdrs
            else
              if ← S.loadSegments phdrs 0 e.phnum then
                call (fun _ => .kfree phdrs) (S.kfree phdrs)
                call (fun _ => .vfsClose) S.vfsClose
                return true
              else return false
    else S.closeOnly

/-- `elf_load` behind the read of the ELF header. -/
def checkHeader : Option (List UInt8) → Prog LoadCall ω Bool
  | none => S.closeOnly
  | some bytes =>
      if bytes.length ≠ 64 then S.closeOnly
      else if ¬ (Ehdr.ofBytes bytes).Accepted then S.closeOnly
      else S.loadProgram (Ehdr.ofBytes bytes)

def elfLoad (filename : String) : Prog LoadCall ω Bool := do
  let ok ← call .vfsOpen (S.vfsOpen filename)
  if ok then
    let answer ← call (fun answer => .vfsRead 64 answer.isSome) (S.vfsRead 64)
    S.checkHeader answer
  else return false

end Services

/-! ## What the calls hold -/

/-- The allocations and deallocations among the calls. -/
def heapEntry : LoadCall → Option (Entry Nat)
  | .kmalloc _ p => if p = 0 then none else some (.acquire p)
  | .kfree p => if p = 0 then none else some (.release p)
  | _ => none

def fileOpen : List LoadCall → Bool
  | [] => false
  | .vfsOpen true :: _ => true
  | .vfsClose :: _ => false
  | _ :: cs => fileOpen cs

/-- Reads, seeks and closes come only while the file is open. -/
def FileUse : List LoadCall → Prop
  | [] => True
  | .vfsRead _ _ :: cs => fileOpen cs = true ∧ FileUse cs
  | .vfsSeek _ _ _ :: cs => fileOpen cs = true ∧ FileUse cs
  | .vfsClose :: cs => fileOpen cs = true ∧ FileUse cs
  | _ :: cs => FileUse cs

/-- The calls have left these allocations live and the file open or not. -/
structure Holding (cs : List LoadCall) (pointers : List Nat) (opened : Bool) : Prop where
  disciplined : Disciplined (cs.filterMap heapEntry)
  live_eq : live (cs.filterMap heapEntry) = pointers
  fileUse : FileUse cs
  open_eq : fileOpen cs = opened
  closes : cs.count .vfsClose + opened.toNat = cs.count (.vfsOpen true)
  opens_le : cs.count (.vfsOpen true) ≤ 1

namespace Holding

variable {cs : List LoadCall} {pointers : List Nat} {opened : Bool}

theorem openFile (ok : Bool) : Holding [.vfsOpen ok] [] ok := by
  cases ok with
  | false => exact ⟨trivial, rfl, trivial, rfl, rfl, Nat.zero_le 1⟩
  | true => exact ⟨trivial, rfl, trivial, rfl, rfl, Nat.le_refl 1⟩

theorem read (h : Holding cs pointers true) (count : Nat) (ok : Bool) :
    Holding (.vfsRead count ok :: cs) pointers true :=
  ⟨h.disciplined, h.live_eq, ⟨h.open_eq, h.fileUse⟩, h.open_eq, h.closes, h.opens_le⟩

theorem seek (h : Holding cs pointers true) (offset whence : Int) (ok : Bool) :
    Holding (.vfsSeek offset whence ok :: cs) pointers true :=
  ⟨h.disciplined, h.live_eq, ⟨h.open_eq, h.fileUse⟩, h.open_eq, h.closes, h.opens_le⟩

theorem close (h : Holding cs pointers true) : Holding (.vfsClose :: cs) pointers false := by
  refine ⟨h.disciplined, h.live_eq, ⟨h.open_eq, h.fileUse⟩, rfl, ?_, h.opens_le⟩
  rw [List.count_cons_self]
  exact h.closes

theorem allocPage (h : Holding cs pointers opened) (page : Nat) :
    Holding (.allocPhysicalPage page :: cs) pointers opened :=
  ⟨h.disciplined, h.live_eq, h.fileUse, h.open_eq, h.closes, h.opens_le⟩

theorem mapPage (h : Holding cs pointers opened) (v p f : Nat) (ret : Int) :
    Holding (.mapPage v p f ret :: cs) pointers opened :=
  ⟨h.disciplined, h.live_eq, h.fileUse, h.open_eq, h.closes, h.opens_le⟩

theorem kmallocFailed (h : Holding cs pointers opened) (size : Nat) :
    Holding (.kmalloc size 0 :: cs) pointers opened :=
  ⟨h.disciplined, h.live_eq, h.fileUse, h.open_eq, h.closes, h.opens_le⟩

theorem kmalloc (h : Holding cs pointers opened) (size : Nat) {p : Nat} (hp : p ≠ 0) :
    Holding (.kmalloc size p :: cs) (p :: pointers) opened := by
  have hentry : heapEntry (.kmalloc size p) = some (.acquire p) := if_neg hp
  refine ⟨?_, ?_, h.fileUse, h.open_eq, h.closes, h.opens_le⟩
  · rw [List.filterMap_cons_some hentry]
    exact h.disciplined
  · rw [List.filterMap_cons_some hentry, live, h.live_eq]

theorem kfree {p : Nat} (h : Holding cs (p :: pointers) opened) (hp : p ≠ 0) :
    Holding (.kfree p :: cs) pointers opened := by
  have hentry : heapEntry (.kfree p) = some (.release p) := if_neg hp
  refine ⟨?_, ?_, h.fileUse, h.open_eq, h.closes, h.opens_le⟩
  · rw [List.filterMap_cons_some hentry]
    refine ⟨?_, h.disciplined⟩
    rw [h.live_eq]
    exact List.mem_cons_self
  · rw [List.filterMap_cons_some hentry, live, h.live_eq, List.erase_cons_head]

end Holding

/-! ## Every way out -/

/-- Inside the loop over program headers: going on holds the table and the open
file, a `return 0` has given both back. -/
def LoopHolding (phdrs : Nat) : Bool → List LoadCall → Prop
  | true, cs => Holding cs [phdrs] true
  | false, cs => Holding cs [] false

section

variable {ω : Type} {S : Services ω} {cs : List LoadCall} {phdrs : Nat}

theorem closeOnly_ensures (h : Holding cs [] true) :
    Ensures cs S.closeOnly fun _ cs' => Holding cs' [] false := by
  refine Ensures.call_bind ?_
  intro _
  exact Ensures.pure h.close

theorem giveUp_ensures (hp : phdrs ≠ 0) (h : Holding cs [phdrs] true) :
    Ensures cs (S.giveUp phdrs) fun ok cs' => ok = false ∧ Holding cs' [] false := by
  refine Ensures.call_bind ?_
  intro _
  refine Ensures.call_bind ?_
  intro _
  exact Ensures.pure ⟨rfl, (h.kfree hp).close⟩

theorem giveUp_leaves (hp : phdrs ≠ 0) (h : Holding cs [phdrs] true) :
    Ensures cs (S.giveUp phdrs) (LoopHolding phdrs) := by
  refine (giveUp_ensures hp h).mono ?_
  intro ok cs' hend
  rw [hend.1]
  exact hend.2

theorem mapSegment_ensures (h : Holding cs [phdrs] true) (phdr startPage i n : Nat) :
    Ensures cs (S.mapSegment phdr startPage i n) fun _ cs' => Holding cs' [phdrs] true := by
  induction n generalizing cs i with
  | zero => exact Ensures.pure h
  | succ n ih =>
      refine Ensures.call_bind ?_
      intro page
      by_cases hnull : page = 0
      · rw [if_pos hnull]
        exact Ensures.pure (h.allocPage page)
      · rw [if_neg hnull]
        refine Ensures.silent_bind ?_
        intro flags
        refine Ensures.call_bind ?_
        intro ret
        have hmapped := (h.allocPage page).mapPage ((startPage + 4096 * i) % 2 ^ 64) page
          (segmentFlags flags ((startPage + 4096 * i) % 2 ^ 64)) ret
        by_cases hret : ret ≠ 0
        · rw [if_pos hret]
          exact Ensures.pure hmapped
        · rw [if_neg hret]
          exact ih hmapped (i + 1)

theorem copySegment_ensures (hp : phdrs ≠ 0) (h : Holding cs [phdrs] true) (phdr : Nat) :
    Ensures cs (S.copySegment phdrs phdr) (LoopHolding phdrs) := by
  refine Ensures.silent_bind ?_
  intro filesz
  by_cases hempty : filesz = 0
  · rw [if_pos hempty]
    exact Ensures.pure h
  · rw [if_neg hempty]
    refine Ensures.call_bind ?_
    intro buffer
    by_cases hnull : buffer = 0
    · subst hnull
      exact giveUp_leaves hp (h.kmallocFailed filesz)
    · rw [if_neg hnull]
      have hbuffer := h.kmalloc filesz hnull
      refine Ensures.silent_bind ?_
      intro count
      refine Ensures.call_bind ?_
      intro answer
      have hread := hbuffer.read (count % 2 ^ 32) answer.isSome
      cases answer with
      | none =>
          refine Ensures.call_bind ?_
          intro _
          exact giveUp_leaves hp (hread.kfree hnull)
      | some bytes =>
          refine Ensures.silent_bind ?_
          intro _
          refine Ensures.silent_bind ?_
          intro filesz'
          by_cases hshort : bytes.length ≠ filesz'
          · rw [if_pos hshort]
            refine Ensures.call_bind ?_
            intro _
            exact giveUp_leaves hp (hread.kfree hnull)
          · rw [if_neg hshort]
            refine Ensures.silent_bind ?_
            intro vaddr
            refine Ensures.silent_bind ?_
            intro _
            refine Ensures.call_bind ?_
            intro _
            exact Ensures.pure (hread.kfree hnull)

theorem clearBss_ensures (h : Holding cs [phdrs] true) (phdr : Nat) :
    Ensures cs (S.clearBss phdr) (LoopHolding phdrs) := by
  refine Ensures.silent_bind ?_
  intro memsz
  refine Ensures.silent_bind ?_
  intro filesz
  by_cases hbss : memsz > filesz
  · rw [if_pos hbss]
    refine Ensures.silent_bind ?_
    intro vaddr
    refine Ensures.silent_bind ?_
    intro _
    exact Ensures.pure h
  · rw [if_neg hbss]
    exact Ensures.pure h

theorem loadSegment_ensures (hp : phdrs ≠ 0) (h : Holding cs [phdrs] true) (phdr : Nat) :
    Ensures cs (S.loadSegment phdrs phdr) (LoopHolding phdrs) := by
  refine Ensures.silent_bind ?_
  intro type
  by_cases hload : type ≠ ptLoad
  · rw [if_pos hload]
    exact Ensures.pure h
  · rw [if_neg hload]
    refine Ensures.silent_bind ?_
    intro vaddr
    refine Ensures.silent_bind ?_
    intro memsz
    refine (mapSegment_ensures h phdr (pageAlign vaddr) 0 (numPages vaddr memsz)).bind ?_
    intro mapped cs₁ h₁
    cases mapped with
    | false => exact giveUp_leaves hp h₁
    | true =>
        refine Ensures.silent_bind ?_
        intro offset
        refine Ensures.call_bind ?_
        intro ok
        have hseek := h₁.seek (toInt32 offset) 0 ok
        cases ok with
        | false => exact giveUp_leaves hp hseek
        | true =>
            refine (copySegment_ensures hp hseek phdr).bind ?_
            intro copied cs₂ h₂
            cases copied with
            | false => exact Ensures.pure h₂
            | true => exact clearBss_ensures h₂ phdr

theorem loadSegments_ensures (hp : phdrs ≠ 0) (h : Holding cs [phdrs] true) (i n : Nat) :
    Ensures cs (S.loadSegments phdrs i n) (LoopHolding phdrs) := by
  induction n generalizing cs i with
  | zero => exact Ensures.pure h
  | succ n ih =>
      refine (loadSegment_ensures hp h (phdrs + 56 * i)).bind ?_
      intro go cs₁ h₁
      cases go with
      | false => exact Ensures.pure h₁
      | true => exact ih h₁ (i + 1)

theorem loadProgram_ensures (h : Holding cs [] true) (e : Ehdr) :
    Ensures cs (S.loadProgram e) fun _ cs' => Holding cs' [] false := by
  refine Ensures.silent_bind ?_
  intro _
  by_cases hnone : e.phnum = 0
  · rw [if_pos hnone]
    exact closeOnly_ensures h
  · rw [if_neg hnone]
    refine Ensures.call_bind ?_
    intro ok
    have hseek := h.seek (toInt32 e.phoff) 0 ok
    cases ok with
    | false => exact closeOnly_ensures hseek
    | true =>
        refine Ensures.call_bind ?_
        intro phdrs
        by_cases hnull : phdrs = 0
        · subst hnull
          exact closeOnly_ensures (hseek.kmallocFailed _)
        · rw [if_neg hnull]
          refine Ensures.call_bind ?_
          intro answer
          have hread := (hseek.kmalloc (e.phnum * e.phentsize % 2 ^ 32) hnull).read
            (e.phnum * e.phentsize % 2 ^ 32) answer.isSome
          cases answer with
          | none => exact (giveUp_ensures hnull hread).mono fun _ _ hend => hend.2
          | some bytes =>
              refine Ensures.silent_bind ?_
              intro _
              by_cases hshort : bytes.length ≠ e.phnum * e.phentsize % 2 ^ 32
              · rw [if_pos hshort]
                exact (giveUp_ensures hnull hread).mono fun _ _ hend => hend.2
              · rw [if_neg hshort]
                refine (loadSegments_ensures hnull hread 0 e.phnum).bind ?_
                intro go cs₁ h₁
                cases go with
                | false => exact Ensures.pure h₁
                | true =>
                    refine Ensures.call_bind ?_
                    intro _
                    refine Ensures.call_bind ?_
                    intro _
                    exact Ensures.pure (Holding.kfree h₁ hnull).close

theorem elfLoad_ensures (S : Services ω) (filename : String) :
    Ensures [] (S.elfLoad filename) fun _ cs' => Holding cs' [] false := by
  refine Ensures.call_bind ?_
  intro ok
  have hopen := Holding.openFile ok
  cases ok with
  | false => exact Ensures.pure hopen
  | true =>
      refine Ensures.call_bind ?_
      intro answer
      have hread := hopen.read 64 answer.isSome
      cases answer with
      | none => exact closeOnly_ensures hread
      | some bytes =>
          rw [Services.checkHeader]
          by_cases hshort : bytes.length ≠ 64
          · rw [if_pos hshort]
            exact closeOnly_ensures hread
          · rw [if_neg hshort]
            by_cases hbad : ¬ (Ehdr.ofBytes bytes).Accepted
            · rw [if_pos hbad]
              exact closeOnly_ensures hread
            · rw [if_neg hbad]
              exact loadProgram_ensures hread (Ehdr.ofBytes bytes)

/-- Whatever the file, the heap and the page tables answer, when `elf_load`
returns, the live allocations are those from before the call, nothing was freed
more often than it was allocated at any time, the file was closed once if it
was opened, and it was used only while open. -/
theorem elf_load_never_leaks (S : Services ω) (filename : String) (w w' : ω) (ok : Bool)
    (cs : List LoadCall) (before : List (Entry Nat))
    (h : S.elfLoad filename ([], w) = some (ok, cs, w')) :
    live (cs.filterMap heapEntry ++ before) = live before ∧
      (∀ later earlier, cs = later ++ earlier → ReleasedOnce (earlier.filterMap heapEntry)) ∧
      cs.count .vfsClose = (if .vfsOpen true ∈ cs then 1 else 0) ∧ FileUse cs := by
  have hend := elfLoad_ensures S filename w ok cs w' h
  refine ⟨?_, ?_, ?_, hend.fileUse⟩
  · rw [hend.disciplined.live_append, hend.live_eq, List.nil_append]
  · intro later earlier hsplit
    have hall := hend.disciplined
    rw [hsplit, List.filterMap_append] at hall
    exact hall.suffix.releasedOnce
  · have hcloses := hend.closes
    have hle := hend.opens_le
    by_cases hopened : LoadCall.vfsOpen true ∈ cs
    · have hpos := List.count_pos_iff.mpr hopened
      rw [if_pos hopened]
      simp only [Bool.toNat_false] at hcloses
      omega
    · rw [if_neg hopened]
      rw [List.count_eq_zero_of_not_mem hopened] at hcloses
      exact hcloses

end

/-- Services that let everything succeed: an executable with one loadable segment
of four bytes in the file; the world counts the allocations. -/
def willingServices : Services Nat where
  vfsOpen _ w := some (true, w)
  vfsRead n w :=
    if n = 64 then
      some (some ((List.range 64).map fun i =>
        if i = 0 then 0x7f else if i = 1 then 0x45 else if i = 2 then 0x4c else if i = 3 then 0x46
        else if i = 4 then 2 else if i = 16 then 2 else if i = 54 then 56 else if i = 56 then 1 else 0), w)
    else some (some (List.replicate n 0), w)
  vfsSeek _ _ w := some (true, w)
  vfsClose w := some ((), w)
  kmalloc _ w := some (0x1000 * w, w + 1)
  kfree _ w := some ((), w)
  allocPhysicalPage w := some (0x200000, w)
  mapPage _ _ _ w := some (0, w)
  load a _ w :=
    some (if a = 0x1000 then 1 else if a = 0x1010 then 0x400000 else if a = 0x1020 then 4
      else if a = 0x1028 then 8 else 0, w)
  store _ _ w := some ((), w)
  memcpy _ _ _ w := some ((), w)
  memzero _ _ w := some ((), w)
  setEntry _ w := some ((), w)

theorem willingServices_calls :
    (willingServices.elfLoad "test" ([], 1)).map (fun r => (r.1, r.2.1)) = some (true,
      [.vfsClose, .kfree 0x1000, .kfree 0x2000, .vfsRead 4 true, .kmalloc 4 0x2000, .vfsSeek 0 0 true,
        .mapPage 0x400000 0x200000 1 0, .allocPhysicalPage 0x200000, .vfsRead 56 true,
        .kmalloc 56 0x1000, .vfsSeek 0 0 true, .vfsRead 64 true, .vfsOpen true]) := by
  decide +kernel

theorem elf_load_never_leaks_loaded :
    ∃ cs w', willingServices.elfLoad "test" ([], 1) = some (true, cs, w') ∧
      live (cs.filterMap heapEntry ++ [.acquire 0x9000]) = [0x9000] ∧ cs.count .vfsClose = 1 := by
  obtain ⟨⟨ok, cs, w'⟩, hrun, hcalls⟩ := Option.map_eq_some_iff.mp willingServices_calls
  obtain ⟨rfl, hcs⟩ := Prod.mk.inj hcalls
  obtain ⟨hlive, -, hclose, -⟩ :=
    elf_load_never_leaks willingServices "test" 1 w' true cs [.acquire 0x9000] hrun
  have hopen : LoadCall.vfsOpen true ∈ cs := by
    rw [show cs = _ from hcs]
    decide
  exact ⟨cs, w', hrun, hlive, by rw [hclose, if_pos hopen]⟩

end Kaviz.Elf
