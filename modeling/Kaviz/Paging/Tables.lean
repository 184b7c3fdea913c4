import Kaviz.Lib.Bytes

/-! # Four-level page tables

`map_page`, `unmap_page` and `set_page_flags` of `kernel/memory.c`, with the
bootstrap pool they take new tables from. Tables are edited through pointers
equal to their physical addresses, so the state holds the physical bytes of the
tables directly. The translation buffer is kept as the set of leaf entries it
may hold, since every edit is followed by a flush.
-/

namespace Kaviz.Paging

open Bytes

def pagePresent : Nat := 0x01
def pageWritable : Nat := 0x02
def pageUser : Nat := 0x04
def pageGlobal : Nat := 0x100

/-- `addr & ~(PAGE_SIZE - 1)`, also written `& ~0xFFF` on entries. -/
def pageAlign (a : Nat) : Nat := a / 4096 * 4096

def pml4Index (vaddr : Nat) : Nat := vaddr / 2 ^ 39 % 512
def pdptIndex (vaddr : Nat) : Nat := vaddr / 2 ^ 30 % 512
def pdIndex (vaddr : Nat) : Nat := vaddr / 2 ^ 21 % 512
def ptIndex (vaddr : Nat) : Nat := vaddr / 2 ^ 12 % 512

/-- Bits 12..47 of an address. -/
def pageNumber (vaddr : Nat) : Nat := vaddr / 4096 % 2 ^ 36

abbrev Present (entry : Nat) : Prop := entry % 2 = 1

structure PageTables where
  /-- Physical memory, as far as it holds page tables. -/
  mem : Mem
  /-- `vmm.pml4`. -/
  pml4 : Nat
  /-- Address of `bootstrap_memory_pool`. -/
  poolBase : Nat
  /-- `bootstrap_memory_used`. -/
  poolUsed : Nat
  /-- Leaf entries held by the translation buffer, by page number. -/
  tlb : Nat → Option Nat

/-- `sizeof(bootstrap_memory_pool)`. -/
def poolSize : Nat := 4096 * 16

namespace PageTables

def entry (t : PageTables) (table i : Nat) : Nat := readLE t.mem (table + 8 * i) 8

def setEntry (t : PageTables) (table i e : Nat) : PageTables :=
  { t with mem := writeLE t.mem (table + 8 * i) 8 e }

/-- `bootstrap_alloc`; `none` is `NULL`. -/
def bootstrapAlloc (t : PageTables) (size : Nat) : Option Nat × PageTables :=
  let size := (size + 3) % 2 ^ 32 / 4 * 4
  if (t.poolUsed + size) % 2 ^ 32 > poolSize then (none, t)
  else (some (t.poolBase + t.poolUsed), { t with poolUsed := (t.poolUsed + size) % 2 ^ 32 })

/-- `for (i = 0; i < n; i++) table[i] = 0;` -/
def zeroEntries (t : PageTables) (table : Nat) : Nat → PageTables
  | 0 => t
  | n + 1 => (zeroEntries t table n).setEntry table n 0

/-- Reloading CR3 drops every translation that is not global. -/
def flushTlb (t : PageTables) : PageTables :=
  { t with tlb := fun n => (t.tlb n).filter fun e => e / pageGlobal % 2 = 1 }

/-- `invlpg` drops the translation of one page. -/
def flushTlbSingle (t : PageTables) (addr : Nat) : PageTables :=
  { t with tlb := fun n => if n = pageNumber addr then none else t.tlb n }

/-- One level of `map_page`: the table behind entry `i`, taken from the pool,
cleared and linked when the entry is not present. `none` is the path returning
`-1`, on which nothing has been changed at this level. -/
def nextTable (t : PageTables) (table i : Nat) : Option (Nat × PageTables) :=
  if Present (t.entry table i) then some (pageAlign (t.entry table i), t)
  else
    match t.bootstrapAlloc (8 * 512) with
    | (none, _) => none
    | (some new, t₁) =>
        let t₂ := t₁.zeroEntries new 512
        let t₃ := t₂.setEntry table i (new ||| pagePresent ||| pageWritable)
        some (new, t₃.flushTlb)

/-- `map_page`. Tables linked before a failure stay linked. -/
def mapPage (t : PageTables) (virtualAddr physicalAddr flags : Nat) : Int × PageTables :=
  let v := pageAlign virtualAddr
  let p := pageAlign physicalAddr
  match t.nextTable t.pml4 (pml4Index v) with
  | none => (-1, t)
  | some (pdpt, t₁) =>
      match t₁.nextTable pdpt (pdptIndex v) with
      | none => (-1, t₁)
      | some (pd, t₂) =>
          match t₂.nextTable pd (pdIndex v) with
          | none => (-1, t₂)
          | some (pt, t₃) =>
              (0, (t₃.setEntry pt (ptIndex v) (p ||| flags ||| pagePresent)).flushTlbSingle v)

/-- The table behind a present entry: `(page_entry_t*)(table[i] & ~0xFFF)`. -/
def childTable (t : PageTables) (table i : Nat) : Option Nat :=
  if Present (t.entry table i) then some (pageAlign (t.entry table i)) else none

/-- The three presence checks `unmap_page` and `set_page_flags` start with. -/
def findTable (t : PageTables) (v : Nat) : Option Nat := do
  let pdpt ← t.childTable t.pml4 (pml4Index v)
  let pd ← t.childTable pdpt (pdptIndex v)
  t.childTable pd (pdIndex v)

/-- Replace the leaf entry of a mapped page, or fail without a change. -/
def editLeaf (t : PageTables) (virtualAddr : Nat) (edit : Nat → Nat) : Int × PageTables :=
  let v := pageAlign virtualAddr
  match t.findTable v with
  | none => (-1, t)
  | some pt =>
      if Present (t.entry pt (ptIndex v)) then
        (0, (t.setEntry pt (ptIndex v) (edit (t.entry pt (ptIndex v)))).flushTlbSingle v)
      else (-1, t)

def unmapPage (t : PageTables) (virtualAddr : Nat) : Int × PageTables :=
  t.editLeaf virtualAddr fun _ => 0

def setPageFlags (t : PageTables) (virtualAddr flags : Nat) : Int × PageTables :=
  t.editLeaf virtualAddr fun e => pageAlign e ||| flags ||| pagePresent

end PageTables

end Kaviz.Paging
