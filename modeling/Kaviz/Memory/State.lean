import Kaviz.Memory.Machine
import Kaviz.Paging.Tables

/-! # State of the memory manager

The variables of `kernel/memory.c` that live outside the heap, on top of a
machine: the frame counter, the `vmm` record and the head of the block list.
Every byte store and every `map_page` call is recorded in order, newest first,
so that frame conditions can speak about writes and not only about values.
-/

namespace Kaviz.Memory

open Bytes Paging

/-- A step of kernel code that other owners of memory could notice. -/
inductive Event
  | store (addr : Nat)
  | map (virtualAddr physicalAddr flags : Nat) (ret : Int)
  deriving DecidableEq

structure MemState (σ : Type) where
  mach : σ
  /-- `next_free_page`. -/
  nextFreePage : Nat
  /-- `heap_first_block`; zero is `NULL`. -/
  heapFirstBlock : Nat
  /-- `vmm.heap_start`. -/
  heapStart : Nat
  /-- `vmm.heap_end`. -/
  heapEnd : Nat
  /-- `vmm.heap_max`. -/
  heapMax : Nat
  trace : List Event

/-- `vmm.heap_start` as `init_vmm` sets it. -/
def kernelBase : Nat := 0xFFFF800000000000

/-- `vmm.heap_max` as `init_vmm` sets it. -/
def heapLimit : Nat := 0xFFFF8000FFFFFFFF

namespace MemState

variable {σ : Type} (M : Machine σ)

/-- `init_vmm`, on memory whose block list has not been created. -/
def initVmm (mach : σ) : MemState σ where
  mach := mach
  nextFreePage := 0x200000
  heapFirstBlock := 0
  heapStart := kernelBase
  heapEnd := kernelBase
  heapMax := heapLimit
  trace := []

def allocPhysicalPage (s : MemState σ) : Nat × MemState σ :=
  let page := pageAlign ((s.nextFreePage + 4096 - 1) % 2 ^ 64)
  (page, { s with nextFreePage := (page + 4096) % 2 ^ 64 })

def mapPage (s : MemState σ) (v p f : Nat) : Int × MemState σ :=
  let r := M.mapPage s.mach v p f
  (r.1, { s with mach := r.2, trace := .map v p f r.1 :: s.trace })

def store8 (s : MemState σ) (a : Nat) (b : UInt8) : Option (MemState σ) :=
  (M.store s.mach a b).map fun mach => { s with mach := mach, trace := .store a :: s.trace }

def storeLE (s : MemState σ) (a : Nat) : Nat → Nat → Option (MemState σ)
  | 0, _ => some s
  | n + 1, v => do
      let s ← s.store8 M a (UInt8.ofNat v)
      storeLE s (a + 1) n (v / 256)

/-- Take a frame and map it, as every mapping loop of the kernel does. The
result is `false` when the frame is `NULL` or `map_page` fails. -/
def mapFresh (s : MemState σ) (v f : Nat) : Bool × MemState σ :=
  let (page, s) := s.allocPhysicalPage
  if page = 0 then (false, s)
  else
    let (r, s) := s.mapPage M v page f
    (r = 0, s)

/-- Map pages `i`, `i + 1`, … (`n` of them) counted from `base` with the same
flags, stopping at the first failure. -/
def mapPages (f base : Nat) : Nat → Nat → MemState σ → Bool × MemState σ
  | _, 0, s => (true, s)
  | i, n + 1, s =>
      match s.mapFresh M ((base + 4096 * i) % 2 ^ 64) f with
      | (true, s) => mapPages f base (i + 1) n s
      | (false, s) => (false, s)

end MemState

theorem alloc_eq {σ : Type} (s : MemState σ) (ha : s.nextFreePage % 4096 = 0)
    (hb : s.nextFreePage < 2 ^ 64) :
    s.allocPhysicalPage =
      (s.nextFreePage, { s with nextFreePage := (s.nextFreePage + 4096) % 2 ^ 64 }) := by
  have hpage : pageAlign ((s.nextFreePage + 4096 - 1) % 2 ^ 64) = s.nextFreePage := by
    unfold pageAlign
    omega
  simp only [MemState.allocPhysicalPage, hpage]

theorem alloc_lt {σ : Type} (s : MemState σ) : s.allocPhysicalPage.1 < 2 ^ 64 := by
  simp only [MemState.allocPhysicalPage, pageAlign]
  omega

theorem alloc_mach {σ : Type} (s : MemState σ) : s.allocPhysicalPage.2.mach = s.mach := by
  simp only [MemState.allocPhysicalPage]

theorem alloc_trace {σ : Type} (s : MemState σ) : s.allocPhysicalPage.2.trace = s.trace := by
  simp only [MemState.allocPhysicalPage]

/-- A page is refused for want of a frame, or left to `map_page`. -/
theorem mapFresh_eq {σ : Type} (M : Machine σ) (s : MemState σ) (v f : Nat) : s.mapFresh M v f =
    if s.allocPhysicalPage.1 = 0 then (false, s.allocPhysicalPage.2)
    else (decide ((M.mapPage s.mach v s.allocPhysicalPage.1 f).1 = 0), { s.allocPhysicalPage.2 with
      mach := (M.mapPage s.mach v s.allocPhysicalPage.1 f).2
      trace := .map v s.allocPhysicalPage.1 f (M.mapPage s.mach v s.allocPhysicalPage.1 f).1 ::
        s.trace }) := rfl

end Kaviz.Memory
