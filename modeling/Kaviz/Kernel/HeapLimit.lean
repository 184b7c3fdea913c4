import Kaviz.Heap.Refinement
import Kaviz.Kernel.Creation
import Kaviz.Paging.Slot

/-! # The end of the heap

`kmalloc` never reads `heap_max`. What bounds the heap is the bootstrap pool:
every heap page needs a page table, all tables of the heap's root slot come from
the pool, and sixteen tables cover at most 32 MiB. Nothing is assumed about the
block list, about the pointers passed to `kfree`, or about the tables behind the
other root slots.
-/

namespace Kaviz.Kernel

open Memory Paging Heap Traces

inductive HeapCall
  | kmalloc (size : Nat)
  | kfree (ptr : Nat)

def HeapCall.step (s : PagedState) : HeapCall → Option PagedState
  | .kmalloc size => (Heap.kmalloc paged s size).map Prod.snd
  | .kfree ptr => Heap.kfree paged s ptr

def heapSlot : Nat := pml4Index kernelBase

/-- The sums `kmalloc` forms from `heap_start` and `heap_end`: the end of a new heap,
and the address behind every run of pages mapped at the end of the heap. -/
def SumsFit (s : PagedState) : Prop :=
  s.heapStart + 4 * 1024 * 1024 < 2 ^ 64 ∧
    ∀ s₁, initHeap paged s = some (true, s₁) → ∀ n,
      (s₁.mapPages paged heapFlags s₁.heapEnd 0 n).1 = true → s₁.heapEnd + 4096 * n < 2 ^ 64

structure HeapBounded (s : PagedState) : Prop where
  below : s.heapEnd ≤ s.heapMax
  mapped : ∀ a, s.heapStart ≤ a → a < s.heapEnd → (s.mach.resolve tableMapper a).isSome
  sums : SumsFit s

/-! ## Pages of the heap -/

/-- The pages from `heap_start` up to `last` are mapped, with tables from the pool. -/
structure Covered (s : PagedState) (last : Nat) : Prop where
  aligned : last % 4096 = 0
  base : kernelBase ≤ last
  shadow : ∃ u, PageTables.Shadows heapSlot s.mach.tables u ∧
    ∀ n, 2 ^ 35 ≤ n → n < 2 ^ 35 + (last - kernelBase) / 4096 → (u.translate n).isSome

section Pages

variable {s s' : PagedState} {last v : Nat}

theorem kernelBase_eq : kernelBase = 4096 * (2 ^ 52 - 2 ^ 35) := by decide

theorem heapSlot_eq : heapSlot = 256 := by decide

/-- Addresses the pool could cover. -/
def PoolRange (v : Nat) : Prop := kernelBase ≤ v ∧ v ≤ kernelBase + 2 ^ 25

theorem PoolRange.pageNumber (h : PoolRange v) :
    Paging.pageNumber v = 2 ^ 35 + (v - kernelBase) / 4096 := by
  have hbase := kernelBase_eq
  obtain ⟨hlo, hhi⟩ := h
  unfold Paging.pageNumber
  omega

theorem PoolRange.slot (h : PoolRange v) : pml4Index (pageAlign v) = heapSlot := by
  have hbase := kernelBase_eq
  obtain ⟨hlo, hhi⟩ := h
  rw [heapSlot_eq]
  unfold pml4Index pageAlign
  omega

theorem Covered.range (h : Covered s last) : PoolRange last := by
  obtain ⟨u, hu, hmap⟩ := h.shadow
  have hupper : u.FromPool UpperHalf := by
    rintro path table ⟨i, rest, rfl, -⟩
    exact hu.pool _ table (List.cons_ne_nil _ _)
  obtain ⟨k, hk, hnone⟩ := PageTables.upper_half_bounded hu.wf hupper (Nat.le_refl (2 ^ 35))
    (by decide) (by decide)
  refine ⟨h.base, ?_⟩
  by_contra hfar
  have hbase := kernelBase_eq
  have hal := h.aligned
  have hsome := hmap (2 ^ 35 + 512 * k) (by omega) (by omega)
  unfold PageTables.translate at hsome
  rw [hnone] at hsome
  simp at hsome

theorem Covered.shrink {last' : Nat} (h : Covered s last) (hal : last' % 4096 = 0)
    (hlo : kernelBase ≤ last') (hhi : last' ≤ last) : Covered s last' := by
  obtain ⟨u, hu, hmap⟩ := h.shadow
  exact ⟨hal, hlo, u, hu, fun n hn hlt => hmap n hn (by omega)⟩

/-- Mapping a heap page keeps the pages there are and adds the next one. -/
theorem Covered.mapFresh (h : Covered s last) (hv : PoolRange v) :
    Covered (s.mapFresh paged v heapFlags).2 last ∧
      (v = last → (s.mapFresh paged v heapFlags).1 = true →
        Covered (s.mapFresh paged v heapFlags).2 (last + 4096)) := by
  obtain ⟨u, hu, hmap⟩ := h.shadow
  have htables := mapFresh_tables s v heapFlags
  have hflag := mapFresh_flag s v heapFlags
  by_cases hnull : s.allocPhysicalPage.1 = 0
  · rw [if_pos hnull] at htables hflag
    refine ⟨⟨h.aligned, h.base, u, htables ▸ hu, hmap⟩, fun _ hdone => ?_⟩
    rw [hflag.1] at hdone
    cases hdone
  · rw [if_neg hnull] at htables hflag
    have hframe := alloc_lt s
    generalize s.allocPhysicalPage.1 = p at *
    have hflags : heapFlags < 4096 := by decide
    obtain ⟨hret, hu'⟩ := hu.mapPage hv.slot hframe hflags
    rw [← htables] at hu'
    obtain ⟨-, hspec⟩ := PageTables.mapPage_spec (v := v) hu.wf hframe hflags
    -- A translated page stays translated, whatever `map_page` answered.
    have hkeep : ∀ n, (u.translate n).isSome → ((u.mapPage v p heapFlags).2.translate n).isSome := by
      intro n hn
      rcases hspec with ⟨-, htr⟩ | ⟨-, htr⟩
      · rw [htr, PageMap.update]
        split
        · rfl
        · exact hn
      · rw [htr]
        exact hn
    have hold : ∀ n, 2 ^ 35 ≤ n → n < 2 ^ 35 + (last - kernelBase) / 4096 →
        ((u.mapPage v p heapFlags).2.translate n).isSome :=
      fun n hn hlt => hkeep n (hmap n hn hlt)
    refine ⟨⟨h.aligned, h.base, _, hu', hold⟩, ?_⟩
    rintro rfl hdone
    have hzero : (u.mapPage v p heapFlags).1 = 0 := by
      rw [hflag, hret] at hdone
      exact of_decide_eq_true hdone
    have hal := h.aligned
    have hbase := kernelBase_eq
    have hlo := h.base
    refine ⟨by omega, by omega, _, hu', fun n hn hlt => ?_⟩
    rcases hspec with ⟨-, htr⟩ | ⟨hfail, -⟩
    · by_cases hpage : n = pageNumber v
      · rw [htr, PageMap.update, if_pos hpage]
        rfl
      · rw [hv.pageNumber] at hpage
        exact hold n hn (by omega)
    · rw [hzero] at hfail
      cases hfail

theorem Covered.mapPages {base i n : Nat} (h : Covered s last) (hat : Covered s (base + 4096 * i)) :
    Covered (s.mapPages paged heapFlags base i n).2 last ∧
      ((s.mapPages paged heapFlags base i n).1 = true →
        Covered (s.mapPages paged heapFlags base i n).2 (base + 4096 * (i + n))) := by
  induction n generalizing s i with
  | zero =>
      refine ⟨h, fun _ => ?_⟩
      rw [Nat.add_zero]
      exact hat
  | succ n ih =>
      have hrange := hat.range
      have haddr : (base + 4096 * i) % 2 ^ 64 = base + 4096 * i := by
        have hbase := kernelBase_eq
        have hhi := hrange.2
        omega
      have hlast := (h.mapFresh hrange).1
      have hnext := (hat.mapFresh hrange).2 rfl
      rw [show base + 4096 * i + 4096 = base + 4096 * (i + 1) by omega] at hnext
      rw [MemState.mapPages, haddr]
      cases hfresh : s.mapFresh paged (base + 4096 * i) heapFlags with
      | mk done s₁ =>
          rw [hfresh] at hlast hnext
          cases done with
          | false => exact ⟨hlast, fun hdone => by cases hdone⟩
          | true =>
              have hpages := ih hlast (i := i + 1) (hnext rfl)
              rw [Nat.add_assoc, Nat.add_comm 1 n] at hpages
              exact hpages

theorem Covered.loop {base n : Nat} (h : Covered s last) (hat : Covered s base) :
    Covered (s.mapPages paged heapFlags base 0 n).2 last ∧
      ((s.mapPages paged heapFlags base 0 n).1 = true →
        Covered (s.mapPages paged heapFlags base 0 n).2 (base + 4096 * n)) := by
  have hzero : Covered s (base + 4096 * 0) := by rwa [Nat.mul_zero, Nat.add_zero]
  have hpages := h.mapPages (n := n) hzero
  rwa [Nat.zero_add] at hpages

theorem Covered.congr (h : Covered s last) (htables : s'.mach.tables = s.mach.tables) :
    Covered s' last :=
  ⟨h.aligned, h.base, htables ▸ h.shadow⟩

theorem stored_tables (h : Stored paged s s') : s'.mach.tables = s.mach.tables := by
  induction h with
  | refl => rfl
  | store _ hs ih => exact (store8_tables hs).1.trans ih

end Pages

/-! ## Calls -/

structure HeapInv (s : PagedState) : Prop where
  start : s.heapStart = kernelBase
  max : s.heapMax = heapLimit
  covered : Covered s s.heapEnd

section Calls

variable {s s' : PagedState}

theorem HeapInv.stored (h : HeapInv s) (hs : Stored paged s s') : HeapInv s' := by
  have hvars := hs.vars
  refine ⟨?_, ?_, ?_⟩
  · rw [hvars]
    exact h.start
  · rw [hvars]
    exact h.max
  · have hend : s'.heapEnd = s.heapEnd := by rw [hvars]
    rw [hend]
    exact h.covered.congr (stored_tables hs)

theorem HeapInv.grown {base n : Nat} (h : HeapInv s) (hat : Covered s base)
    (hs : Grown paged s base n s') : HeapInv s' := by
  obtain ⟨first, last, hlast, hstored⟩ := hs
  have hvars := mapPages_vars (M := paged) s heapFlags base 0 n
  obtain ⟨hkeep, hmore⟩ := h.covered.loop (n := n) hat
  refine HeapInv.stored ⟨?_, ?_, ?_⟩ hstored
  · show (s.mapPages paged heapFlags base 0 n).2.heapStart = kernelBase
    rw [hvars]
    exact h.start
  · show (s.mapPages paged heapFlags base 0 n).2.heapMax = heapLimit
    rw [hvars]
    exact h.max
  · show Covered _ last
    rcases hlast with rfl | ⟨hdone, rfl⟩
    · exact hkeep.congr rfl
    · have hnew := hmore hdone
      have hhi := hnew.range.2
      have hbase := kernelBase_eq
      rw [Nat.mod_eq_of_lt (by omega)]
      exact hnew.congr rfl

theorem HeapInv.atStart (h : HeapInv s) : Covered s s.heapStart := by
  rw [h.start]
  exact h.covered.shrink (by decide) (Nat.le_refl _) h.covered.base

theorem HeapInv.initHeap {done : Bool} (h : HeapInv s) (hs : initHeap paged s = some (done, s')) :
    HeapInv s' := by
  rcases initHeap_cases hs with rfl | ⟨-, hgrown⟩
  · exact h
  · exact h.grown h.atStart hgrown

theorem HeapInv.step {call : HeapCall} (h : HeapInv s) (hs : call.step s = some s') :
    HeapInv s' := by
  cases call with
  | kfree ptr => exact h.stored (kfree_stored hs)
  | kmalloc size =>
      obtain ⟨⟨r, s''⟩, hrun, rfl⟩ := Option.map_eq_some_iff.mp hs
      obtain ⟨s₁, s₂, hinit, hext, hstored⟩ := kmalloc_cases hrun
      have h₁ : HeapInv s₁ := by
        rcases hinit with rfl | ⟨-, hgrown⟩
        · exact h
        · exact h.grown h.atStart hgrown
      have h₂ : HeapInv s₂ := by
        rcases hext with rfl | ⟨-, hgrown⟩
        · exact h₁
        · exact h₁.grown h₁.covered hgrown
      exact h₂.stored hstored

theorem HeapInv.sumsFit (h : HeapInv s) : SumsFit s := by
  have hbase := kernelBase_eq
  refine ⟨?_, ?_⟩
  · rw [h.start]
    omega
  · intro s₁ hinit n hdone
    have h₁ := h.initHeap hinit
    have hhi := ((h₁.covered.loop h₁.covered).2 hdone).range.2
    omega

theorem HeapInv.bounded (h : HeapInv s) : HeapBounded s := by
  have hrange := h.covered.range
  refine ⟨?_, ?_, h.sumsFit⟩
  · have hroom : kernelBase + 2 ^ 25 ≤ heapLimit := by decide
    rw [h.max]
    exact Nat.le_trans hrange.2 hroom
  · intro a hlo hhi
    rw [h.start] at hlo
    obtain ⟨u, hu, hmap⟩ := h.covered.shadow
    have ha : PoolRange a := ⟨hlo, Nat.le_trans (Nat.le_of_lt hhi) hrange.2⟩
    have hpage := ha.pageNumber
    have hal := h.covered.aligned
    have hbase := kernelBase_eq
    have hsome := hmap (pageNumber a) (by omega) (by omega)
    obtain ⟨x, hx⟩ := Option.isSome_iff_exists.mp hsome
    have hslot : pageNumber a / 2 ^ 27 % 512 = heapSlot := by
      rw [heapSlot_eq]
      have := ha.2
      omega
    have htr : tableMapper.translate s.mach.tables (pageNumber a) = some x := hu.translate hslot hx
    have hcanon : Canonical a := by
      have := ha.2
      unfold Canonical
      omega
    rw [PhysState.resolve, if_pos hcanon, htr]
    rfl

theorem heapInv_initVmm {mach : PhysState PageTables} (h : mach.tables.SlotEmpty heapSlot) :
    HeapInv (MemState.initVmm mach) := by
  refine ⟨rfl, rfl, (by decide : kernelBase % 4096 = 0), Nat.le_refl kernelBase, _, h.shadows,
    fun n hn hlt => ?_⟩
  change n < 2 ^ 35 + (kernelBase - kernelBase) / 4096 at hlt
  omega

/-- The heap stays below its limit, mapped, and without overflow in its sums, in
every state a run of `kmalloc` and `kfree` reaches. -/
theorem heap_stays_below_limit {mach : PhysState PageTables} {ts : List (Step PagedState HeapCall)}
    (hboot : mach.tables.SlotEmpty heapSlot)
    (hrun : Trace HeapCall.step (MemState.initVmm mach) ts s) : HeapBounded s :=
  (hrun.inv (heapInv_initVmm hboot) fun h hs => h.step hs).bounded

end Calls

theorem bootMach_slotEmpty : bootMach.tables.SlotEmpty heapSlot where
  rootAligned := rfl
  absent := by
    rw [show bootMach.tables = bootTree from rfl, bootTree_entry (by decide)]
    decide
  rootOutside := Or.inl (by decide)
  poolAligned := rfl
  poolBound := by decide
  poolUnused := rfl

theorem first_kmalloc (size : Nat) (hsize : size ≤ 2 ^ 63) :
    ∃ s, (HeapCall.kmalloc size).step (MemState.initVmm bootMach) = some s := by
  have hunmapped : ∀ n, tableMapper.translate bootMach.tables n = none := bootTree_translate
  have hok : PhysOk tableMapper kernelTables_lawful bootMach := by
    refine ⟨⟨bootMach_wellFormed, bootMach_fromPool⟩, ?_, ?_⟩
    · intro n p f h
      rw [hunmapped] at h
      cases h
    · intro n m p f g h
      rw [hunmapped] at h
      cases h
  have hempty : Represents (physical_lawful kernelTables_lawful none) (MemState.initVmm bootMach) [] :=
    ⟨hok, rfl, rfl, rfl, (by decide : kernelBase % 4096 = 0),
      (by decide : kernelBase ≤ heapLimit + 1), trivial,
      fun x hlo hhi => absurd hlo (Nat.not_le_of_lt hhi)⟩
  have hframes : FramesOk (physical_lawful kernelTables_lawful none) (MemState.initVmm bootMach) := by
    refine ⟨(by decide : 0x200000 % 4096 = 0), (by decide : 0x200000 < 2 ^ 64), ?_⟩
    intro _ p _ _ hp
    refine ⟨hp, ?_, by simp⟩
    rintro ⟨n, f, h⟩
    rw [show (MemState.initVmm bootMach).mach = bootMach from rfl, hunmapped] at h
    cases h
  obtain ⟨r, s, hrun, -⟩ := kmalloc_spec hempty hframes (physical_stops none) (le_sizeLimit hsize)
  exact ⟨s, by simp only [HeapCall.step, hrun, Option.map_some]⟩

theorem heap_stays_below_limit_first : ∃ ts s,
    Trace HeapCall.step (MemState.initVmm bootMach) ts s ∧
      ts.map (·.op) = [.kmalloc 100, .kfree 0] ∧ HeapBounded s := by
  obtain ⟨s, hfirst⟩ := first_kmalloc 100 (by decide)
  have hfree : (HeapCall.kfree 0).step s = some s := rfl
  have hrun : Trace HeapCall.step (MemState.initVmm bootMach) _ s :=
    .cons hfirst (.cons hfree (.nil s))
  exact ⟨_, s, hrun, rfl, heap_stays_below_limit bootMach_slotEmpty hrun⟩

end Kaviz.Kernel
