import Kaviz.Memory.State

/-! # The kernel heap

`kmalloc` and `kfree` of `kernel/memory.c`. Block headers live in mapped memory
and are read and written byte by byte: `size` at offset 0, `next` at offset 8
and the 32-bit `free` at offset 16 of a 24-byte `struct heap_block`. A result of
`none` means the C function does not return, because of a page fault or an
endless list walk.
-/

namespace Kaviz.Heap

open Bytes Memory

variable {σ : Type} (M : Machine σ)

/-! ## Block headers -/

def blockSize (x : σ) (block : Nat) : Option Nat := loadLE M x block 8
def blockNext (x : σ) (block : Nat) : Option Nat := loadLE M x (block + 8) 8
def blockFree (x : σ) (block : Nat) : Option Nat := loadLE M x (block + 16) 4

def setBlockSize (s : MemState σ) (block v : Nat) : Option (MemState σ) := s.storeLE M block 8 v
def setBlockNext (s : MemState σ) (block v : Nat) : Option (MemState σ) :=
  s.storeLE M (block + 8) 8 v
def setBlockFree (s : MemState σ) (block v : Nat) : Option (MemState σ) :=
  s.storeLE M (block + 16) 4 v

/-! ## List walks

A walk that visits more blocks than there are addresses has come back to a block
it has already left, and never ends. -/

def walkFuel : Nat := 2 ^ 64

/-- The best-fit search of `kmalloc`; a zero `best` is `NULL`. -/
def findBest (x : σ) (size : Nat) : Nat → Nat → Nat → Option Nat
  | 0, _, _ => none
  | fuel + 1, current, best =>
      if current = 0 then some best
      else do
        let free ← blockFree M x current
        let csize ← blockSize M x current
        let best ←
          if free ≠ 0 ∧ csize ≥ size then
            if best = 0 then some current
            else do
              let bsize ← blockSize M x best
              some (if csize < bsize then current else best)
          else some best
        let next ← blockNext M x current
        findBest x size fuel next best

/-- `while (current->next) current = current->next;` -/
def findLast (x : σ) : Nat → Nat → Option Nat
  | 0, _ => none
  | fuel + 1, current => do
      let next ← blockNext M x current
      if next = 0 then some current else findLast x fuel next

/-- `while (current && current->next != block) current = current->next;` -/
def findPrev (x : σ) (block : Nat) : Nat → Nat → Option Nat
  | 0, _ => none
  | fuel + 1, current =>
      if current = 0 then some 0
      else do
        let next ← blockNext M x current
        if next = block then some current else findPrev x block fuel next

/-! ## `kmalloc` -/

/-- `PAGE_PRESENT | PAGE_WRITABLE`. -/
def heapFlags : Nat := 0x03

/-- `block->size = size; block->next = NULL; block->free = 1;` -/
def newFreeBlock (s : MemState σ) (block size : Nat) : Option (MemState σ) := do
  let s ← setBlockSize M s block size
  let s ← setBlockNext M s block 0
  setBlockFree M s block 1

/-- Creation of the 4 MiB heap on first use; `false` is the `NULL` return. -/
def initHeap (s : MemState σ) : Option (Bool × MemState σ) :=
  if s.heapFirstBlock ≠ 0 then some (true, s)
  else
    match s.mapPages M heapFlags s.heapStart 0 1024 with
    | (false, s) => some (false, s)
    | (true, s) => do
        let s ← newFreeBlock M { s with heapFirstBlock := s.heapStart } s.heapStart
          (4 * 1024 * 1024 - 24)
        return (true, { s with heapEnd := (s.heapStart + 4 * 1024 * 1024) % 2 ^ 64 })

/-- Number of pages an extension for `size` bytes maps. -/
def pagesNeeded (size : Nat) : Nat := ((24 + size) % 2 ^ 64 + 4096 - 1) % 2 ^ 64 / 4096

/-- Extension of the heap; `none` is the `NULL` return. -/
def extendHeap (s : MemState σ) (size : Nat) : Option (Option Nat × MemState σ) :=
  match s.mapPages M heapFlags s.heapEnd 0 (pagesNeeded size) with
  | (false, s) => some (none, s)
  | (true, s) => do
      let block := s.heapEnd
      let s ← newFreeBlock M s block ((4096 * pagesNeeded size + 2 ^ 64 - 24) % 2 ^ 64)
      let last ← findLast M s.mach walkFuel s.heapFirstBlock
      let s ← setBlockNext M s last block
      return (some block, { s with heapEnd := (s.heapEnd + 4096 * pagesNeeded size) % 2 ^ 64 })

/-- Use the whole block, or split it when more than 16 bytes would remain. -/
def takeBlock (s : MemState σ) (best size : Nat) : Option (Nat × MemState σ) := do
  let bsize ← blockSize M s.mach best
  if bsize ≤ (size + 24 + 16) % 2 ^ 64 then
    let s ← setBlockFree M s best 0
    return (best + 24, s)
  else
    let new := (best + 24 + size) % 2 ^ 64
    let s ← setBlockSize M s new ((bsize + 2 * 2 ^ 64 - size - 24) % 2 ^ 64)
    let next ← blockNext M s.mach best
    let s ← setBlockNext M s new next
    let s ← setBlockFree M s new 1
    let s ← setBlockSize M s best size
    let s ← setBlockNext M s best new
    let s ← setBlockFree M s best 0
    return (best + 24, s)

/-- `(size + 3) & ~3`. -/
def roundSize (size : Nat) : Nat := (size + 3) % 2 ^ 64 / 4 * 4

def kmalloc (s : MemState σ) (size : Nat) : Option (Nat × MemState σ) := do
  let size := roundSize size
  match ← initHeap M s with
  | (false, s) => return (0, s)
  | (true, s) =>
      let best ← findBest M s.mach size walkFuel s.heapFirstBlock 0
      if best = 0 then
        match ← extendHeap M s size with
        | (none, s) => return (0, s)
        | (some block, s) => takeBlock M s block size
      else takeBlock M s best size

/-! ## `kfree` -/

/-- Absorb the next block if it is free. -/
def mergeNext (s : MemState σ) (block : Nat) : Option (MemState σ) := do
  let next ← blockNext M s.mach block
  if next = 0 then return s
  else
    let free ← blockFree M s.mach next
    if free = 0 then return s
    else
      let bsize ← blockSize M s.mach block
      let nsize ← blockSize M s.mach next
      let s ← setBlockSize M s block ((bsize + (24 + nsize)) % 2 ^ 64)
      let after ← blockNext M s.mach next
      setBlockNext M s block after

/-- Let the previous block absorb this one if it is free. -/
def mergePrev (s : MemState σ) (block : Nat) : Option (MemState σ) := do
  let prev ← findPrev M s.mach block walkFuel s.heapFirstBlock
  if prev = 0 then return s
  else
    let free ← blockFree M s.mach prev
    if free = 0 then return s
    else
      let psize ← blockSize M s.mach prev
      let bsize ← blockSize M s.mach block
      let s ← setBlockSize M s prev ((psize + (24 + bsize)) % 2 ^ 64)
      let after ← blockNext M s.mach block
      setBlockNext M s prev after

def kfree (s : MemState σ) (ptr : Nat) : Option (MemState σ) :=
  if ptr = 0 then some s
  else do
    let block := (ptr + 2 ^ 64 - 24) % 2 ^ 64
    let s ← setBlockFree M s block 1
    let s ← mergeNext M s block
    mergePrev M s block

end Kaviz.Heap
