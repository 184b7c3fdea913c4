import Kaviz.Kernel.Calls

/-! # What the heap code does to the memory manager

Whatever the heap contains, `kmalloc` and `kfree` touch the memory manager in
two ways only: byte stores, and mapping loops at the end of the heap. Nothing is
assumed about the block list here; a corrupt one may send the stores anywhere.
-/

namespace Kaviz.Kernel

open Memory Paging Heap

variable {σ : Type} (M : Machine σ)

/-- `s'` is `s` after some byte stores. -/
inductive Stored : MemState σ → MemState σ → Prop
  | refl (s : MemState σ) : Stored s s
  | store {s s' s'' : MemState σ} {a : Nat} {b : UInt8} (h : Stored s s')
      (hs : s'.store8 M a b = some s'') : Stored s s''

/-- `s'` is `s` after a mapping loop for `n` heap pages at `base`, and stores. The
end of the heap moves only if the whole loop succeeds. -/
def Grown (s : MemState σ) (base n : Nat) (s' : MemState σ) : Prop :=
  ∃ first last, (last = s.heapEnd ∨
      ((s.mapPages M heapFlags base 0 n).1 = true ∧ last = (base + 4096 * n) % 2 ^ 64)) ∧
    Stored M { (s.mapPages M heapFlags base 0 n).2 with
      heapFirstBlock := first, heapEnd := last } s'

variable {M} {s s' s'' : MemState σ}

theorem Stored.trans (h : Stored M s s') (h' : Stored M s' s'') : Stored M s s'' := by
  induction h' with
  | refl => exact h
  | store _ hs ih => exact .store ih hs

theorem Stored.with_vars (h : Stored M s s') (first last : Nat) :
    Stored M { s with heapFirstBlock := first, heapEnd := last }
      { s' with heapFirstBlock := first, heapEnd := last } := by
  induction h with
  | refl => exact .refl _
  | store _ hs ih =>
      obtain ⟨x, hx, rfl⟩ := Option.map_eq_some_iff.mp hs
      exact .store ih (Option.map_eq_some_iff.mpr ⟨x, hx, rfl⟩)

theorem Stored.vars (h : Stored M s s') :
    s' = { s with mach := s'.mach, trace := s'.trace } := by
  induction h with
  | refl => rfl
  | store _ hs ih =>
      obtain ⟨x, hx, rfl⟩ := Option.map_eq_some_iff.mp hs
      rw [ih]

theorem stored_storeLE {a n v : Nat} (h : s.storeLE M a n v = some s') : Stored M s s' := by
  induction n generalizing s a v with
  | zero =>
      cases h
      exact .refl _
  | succ n ih =>
      obtain ⟨s₁, hs, h⟩ := Option.bind_eq_some_iff.mp h
      exact (Stored.store (.refl s) hs).trans (ih h)

theorem stored_newFreeBlock {block size : Nat} (h : newFreeBlock M s block size = some s') :
    Stored M s s' := by
  obtain ⟨s₁, h₁, h⟩ := Option.bind_eq_some_iff.mp h
  obtain ⟨s₂, h₂, h⟩ := Option.bind_eq_some_iff.mp h
  exact (stored_storeLE h₁).trans ((stored_storeLE h₂).trans (stored_storeLE h))

theorem stored_takeBlock {best size r : Nat} (h : takeBlock M s best size = some (r, s')) :
    Stored M s s' := by
  obtain ⟨bsize, -, h⟩ := Option.bind_eq_some_iff.mp h
  split at h
  · obtain ⟨s₁, h₁, h⟩ := Option.bind_eq_some_iff.mp h
    cases h
    exact stored_storeLE h₁
  · obtain ⟨s₁, h₁, h⟩ := Option.bind_eq_some_iff.mp h
    obtain ⟨next, -, h⟩ := Option.bind_eq_some_iff.mp h
    obtain ⟨s₂, h₂, h⟩ := Option.bind_eq_some_iff.mp h
    obtain ⟨s₃, h₃, h⟩ := Option.bind_eq_some_iff.mp h
    obtain ⟨s₄, h₄, h⟩ := Option.bind_eq_some_iff.mp h
    obtain ⟨s₅, h₅, h⟩ := Option.bind_eq_some_iff.mp h
    obtain ⟨s₆, h₆, h⟩ := Option.bind_eq_some_iff.mp h
    cases h
    exact (stored_storeLE h₁).trans ((stored_storeLE h₂).trans ((stored_storeLE h₃).trans
      ((stored_storeLE h₄).trans ((stored_storeLE h₅).trans (stored_storeLE h₆)))))

theorem stored_mergeNext {block : Nat} (h : mergeNext M s block = some s') : Stored M s s' := by
  obtain ⟨next, -, h⟩ := Option.bind_eq_some_iff.mp h
  split at h
  · cases h
    exact .refl s
  · obtain ⟨free, -, h⟩ := Option.bind_eq_some_iff.mp h
    split at h
    · cases h
      exact .refl s
    · obtain ⟨bsize, -, h⟩ := Option.bind_eq_some_iff.mp h
      obtain ⟨nsize, -, h⟩ := Option.bind_eq_some_iff.mp h
      obtain ⟨s₁, h₁, h⟩ := Option.bind_eq_some_iff.mp h
      obtain ⟨after, -, h⟩ := Option.bind_eq_some_iff.mp h
      exact (stored_storeLE h₁).trans (stored_storeLE h)

theorem stored_mergePrev {block : Nat} (h : mergePrev M s block = some s') : Stored M s s' := by
  obtain ⟨prev, -, h⟩ := Option.bind_eq_some_iff.mp h
  split at h
  · cases h
    exact .refl s
  · obtain ⟨free, -, h⟩ := Option.bind_eq_some_iff.mp h
    split at h
    · cases h
      exact .refl s
    · obtain ⟨psize, -, h⟩ := Option.bind_eq_some_iff.mp h
      obtain ⟨bsize, -, h⟩ := Option.bind_eq_some_iff.mp h
      obtain ⟨s₁, h₁, h⟩ := Option.bind_eq_some_iff.mp h
      obtain ⟨after, -, h⟩ := Option.bind_eq_some_iff.mp h
      exact (stored_storeLE h₁).trans (stored_storeLE h)

theorem kfree_stored {ptr : Nat} (h : kfree M s ptr = some s') : Stored M s s' := by
  unfold kfree at h
  split at h
  · cases h
    exact .refl s
  · obtain ⟨s₁, h₁, h⟩ := Option.bind_eq_some_iff.mp h
    obtain ⟨s₂, h₂, h⟩ := Option.bind_eq_some_iff.mp h
    exact (stored_storeLE h₁).trans ((stored_mergeNext h₂).trans (stored_mergePrev h))

/-! ## Growth of the heap -/

theorem mapFresh_vars (s : MemState σ) (v f : Nat) : (s.mapFresh M v f).2 = { s with
    mach := (s.mapFresh M v f).2.mach
    nextFreePage := (s.mapFresh M v f).2.nextFreePage
    trace := (s.mapFresh M v f).2.trace } := by
  unfold MemState.mapFresh
  dsimp only [MemState.allocPhysicalPage]
  split <;> rfl

theorem mapPages_vars (s : MemState σ) (f base i n : Nat) : (s.mapPages M f base i n).2 = { s with
    mach := (s.mapPages M f base i n).2.mach
    nextFreePage := (s.mapPages M f base i n).2.nextFreePage
    trace := (s.mapPages M f base i n).2.trace } := by
  induction n generalizing s i with
  | zero => rfl
  | succ n ih =>
      have hone := mapFresh_vars (M := M) s ((base + 4096 * i) % 2 ^ 64) f
      rw [MemState.mapPages]
      cases hfresh : s.mapFresh M ((base + 4096 * i) % 2 ^ 64) f with
      | mk done s₁ =>
          rw [hfresh] at hone
          cases done with
          | false => exact hone
          | true =>
              dsimp only at hone ⊢
              rw [ih, hone]

theorem initHeap_cases {done : Bool} (h : initHeap M s = some (done, s')) :
    s' = s ∨ (s.heapFirstBlock = 0 ∧ Grown M s s.heapStart 1024 s') := by
  unfold initHeap at h
  split at h
  · cases h
    exact Or.inl rfl
  next hzero =>
    refine Or.inr ⟨not_not.mp hzero, ?_⟩
    have hvars := mapPages_vars (M := M) s heapFlags s.heapStart 0 1024
    cases hloop : s.mapPages M heapFlags s.heapStart 0 1024 with
    | mk done' s₁ =>
        rw [hloop] at h hvars
        unfold Grown
        rw [hloop]
        dsimp only at hvars ⊢
        cases done' with
        | false =>
            cases h
            exact ⟨s'.heapFirstBlock, s'.heapEnd, Or.inl (by rw [hvars]), .refl _⟩
        | true =>
            obtain ⟨s₂, h₂, h⟩ := Option.bind_eq_some_iff.mp h
            cases h
            have hstored := stored_newFreeBlock h₂
            have hstart : s₂.heapStart = s.heapStart := by rw [hstored.vars, hvars]
            have hfirst : s₂.heapFirstBlock = s₁.heapStart := by rw [hstored.vars]
            have htarget : { s₂ with heapEnd := (s₂.heapStart + 4 * 1024 * 1024) % 2 ^ 64 } =
                { s₂ with
                  heapFirstBlock := s₁.heapStart
                  heapEnd := (s.heapStart + 4096 * 1024) % 2 ^ 64 } := by
              rw [← hfirst, hstart]
            refine ⟨s₁.heapStart, _, Or.inr ⟨rfl, rfl⟩, ?_⟩
            rw [htarget]
            exact hstored.with_vars _ _

theorem extendHeap_grown {size : Nat} {block : Option Nat}
    (h : extendHeap M s size = some (block, s')) : Grown M s s.heapEnd (pagesNeeded size) s' := by
  unfold extendHeap at h
  have hvars := mapPages_vars (M := M) s heapFlags s.heapEnd 0 (pagesNeeded size)
  cases hloop : s.mapPages M heapFlags s.heapEnd 0 (pagesNeeded size) with
  | mk done s₁ =>
      rw [hloop] at h hvars
      unfold Grown
      rw [hloop]
      dsimp only at hvars ⊢
      cases done with
      | false =>
          cases h
          exact ⟨s'.heapFirstBlock, s'.heapEnd, Or.inl (by rw [hvars]), .refl _⟩
      | true =>
          obtain ⟨s₂, h₂, h⟩ := Option.bind_eq_some_iff.mp h
          obtain ⟨last, -, h⟩ := Option.bind_eq_some_iff.mp h
          obtain ⟨s₃, h₃, h⟩ := Option.bind_eq_some_iff.mp h
          cases h
          have hstored := (stored_newFreeBlock h₂).trans (stored_storeLE h₃)
          have hend : s₃.heapEnd = s.heapEnd := by rw [hstored.vars, hvars]
          have hfirst : s₃.heapFirstBlock = s₁.heapFirstBlock := by rw [hstored.vars]
          have htarget : { s₃ with heapEnd := (s₃.heapEnd + 4096 * pagesNeeded size) % 2 ^ 64 } =
              { s₃ with
                heapFirstBlock := s₁.heapFirstBlock
                heapEnd := (s.heapEnd + 4096 * pagesNeeded size) % 2 ^ 64 } := by
            rw [← hfirst, hend]
          refine ⟨s₁.heapFirstBlock, _, Or.inr ⟨rfl, rfl⟩, ?_⟩
          rw [htarget]
          exact hstored.with_vars _ _

theorem initHeap_first (h : initHeap M s = some (true, s')) (hstart : s.heapStart ≠ 0) :
    s'.heapFirstBlock ≠ 0 := by
  unfold initHeap at h
  split at h
  next hsome =>
    cases h
    exact hsome
  next =>
    have hvars := mapPages_vars (M := M) s heapFlags s.heapStart 0 1024
    cases hloop : s.mapPages M heapFlags s.heapStart 0 1024 with
    | mk done s₁ =>
        rw [hloop] at h hvars
        dsimp only at hvars
        cases done with
        | false => cases h
        | true =>
            obtain ⟨s₂, h₂, h⟩ := Option.bind_eq_some_iff.mp h
            cases h
            have hfirst : s₂.heapFirstBlock = s₁.heapStart := by rw [(stored_newFreeBlock h₂).vars]
            have hkeep : s₁.heapStart = s.heapStart := by rw [hvars]
            show s₂.heapFirstBlock ≠ 0
            rw [hfirst, hkeep]
            exact hstart

theorem extendHeap_first {size : Nat} {block : Option Nat}
    (h : extendHeap M s size = some (block, s')) : s'.heapFirstBlock = s.heapFirstBlock := by
  unfold extendHeap at h
  have hvars := mapPages_vars (M := M) s heapFlags s.heapEnd 0 (pagesNeeded size)
  cases hloop : s.mapPages M heapFlags s.heapEnd 0 (pagesNeeded size) with
  | mk done s₁ =>
      rw [hloop] at h hvars
      dsimp only at hvars
      cases done with
      | false =>
          cases h
          rw [hvars]
      | true =>
          obtain ⟨s₂, h₂, h⟩ := Option.bind_eq_some_iff.mp h
          obtain ⟨last, -, h⟩ := Option.bind_eq_some_iff.mp h
          obtain ⟨s₃, h₃, h⟩ := Option.bind_eq_some_iff.mp h
          cases h
          show s₃.heapFirstBlock = s.heapFirstBlock
          rw [((stored_newFreeBlock h₂).trans (stored_storeLE h₃)).vars, hvars]

/-- The branches of `kmalloc`: creation of the heap, at most one extension, and stores. -/
theorem kmalloc_branches {size r : Nat} (h : kmalloc M s size = some (r, s')) :
    ∃ done s₁, initHeap M s = some (done, s₁) ∧ ((done = false ∧ s' = s₁) ∨
      (done = true ∧ ∃ s₂, (s₂ = s₁ ∨
        (findBest M s₁.mach (roundSize size) walkFuel s₁.heapFirstBlock 0 = some 0 ∧
          Grown M s₁ s₁.heapEnd (pagesNeeded (roundSize size)) s₂)) ∧ Stored M s₂ s')) := by
  obtain ⟨⟨done, s₁⟩, hinit, h⟩ := Option.bind_eq_some_iff.mp h
  refine ⟨done, s₁, hinit, ?_⟩
  cases done with
  | false =>
      cases h
      exact Or.inl ⟨rfl, rfl⟩
  | true =>
      refine Or.inr ⟨rfl, ?_⟩
      obtain ⟨best, hbest, h⟩ := Option.bind_eq_some_iff.mp h
      split at h
      next hzero =>
        subst hzero
        obtain ⟨⟨block, s₂⟩, hext, h⟩ := Option.bind_eq_some_iff.mp h
        refine ⟨s₂, Or.inr ⟨hbest, extendHeap_grown hext⟩, ?_⟩
        cases block with
        | none =>
            cases h
            exact .refl _
        | some block => exact stored_takeBlock h
      next => exact ⟨s₁, Or.inl rfl, stored_takeBlock h⟩

/-- `kmalloc`: at most the creation of the heap, one extension, and stores. -/
theorem kmalloc_cases {size r : Nat} (h : kmalloc M s size = some (r, s')) :
    ∃ s₁ s₂, (s₁ = s ∨ (s.heapFirstBlock = 0 ∧ Grown M s s.heapStart 1024 s₁)) ∧
      (s₂ = s₁ ∨ (findBest M s₁.mach (roundSize size) walkFuel s₁.heapFirstBlock 0 = some 0 ∧
        Grown M s₁ s₁.heapEnd (pagesNeeded (roundSize size)) s₂)) ∧ Stored M s₂ s' := by
  obtain ⟨done, s₁, hinit, ⟨-, rfl⟩ | ⟨-, s₂, hext, hstored⟩⟩ := kmalloc_branches h
  · exact ⟨s', s', initHeap_cases hinit, Or.inl rfl, .refl _⟩
  · exact ⟨s₁, s₂, initHeap_cases hinit, hext, hstored⟩

theorem Grown.vars {base n : Nat} (h : Grown M s base n s') : s'.heapStart = s.heapStart ∧
    (s'.heapEnd = s.heapEnd ∨ ((s.mapPages M heapFlags base 0 n).1 = true ∧
      s'.heapEnd = (base + 4096 * n) % 2 ^ 64)) := by
  obtain ⟨first, last, hlast, hstored⟩ := h
  have hvars := mapPages_vars (M := M) s heapFlags base 0 n
  constructor
  · rw [hstored.vars, hvars]
  · rw [hstored.vars]
    exact hlast

/-- A block list that is still missing after `kmalloc` was missing before, and the
heap has not grown. -/
theorem kmalloc_unopened {size r : Nat} (h : kmalloc M s size = some (r, s'))
    (hstart : s.heapStart ≠ 0) (hnone : s'.heapFirstBlock = 0) :
    s.heapFirstBlock = 0 ∧ s'.heapEnd = s.heapEnd := by
  obtain ⟨⟨done, s₁⟩, hinit, h⟩ := Option.bind_eq_some_iff.mp h
  cases done with
  | false =>
      cases h
      unfold initHeap at hinit
      split at hinit
      · cases hinit
      next hzero =>
        have hvars := mapPages_vars (M := M) s heapFlags s.heapStart 0 1024
        cases hloop : s.mapPages M heapFlags s.heapStart 0 1024 with
        | mk done s₂ =>
            rw [hloop] at hinit hvars
            dsimp only at hvars
            cases done with
            | false =>
                cases hinit
                exact ⟨not_not.mp hzero, by rw [hvars]⟩
            | true =>
                obtain ⟨s₃, -, hinit⟩ := Option.bind_eq_some_iff.mp hinit
                cases hinit
  | true =>
      -- With a block list in place, every way out keeps it.
      exfalso
      have hfirst : s'.heapFirstBlock = s₁.heapFirstBlock := by
        obtain ⟨best, -, h⟩ := Option.bind_eq_some_iff.mp h
        split at h
        · obtain ⟨⟨block, s₂⟩, hext, h⟩ := Option.bind_eq_some_iff.mp h
          have hkeep : s₂.heapFirstBlock = s₁.heapFirstBlock := extendHeap_first hext
          cases block with
          | none =>
              cases h
              exact hkeep
          | some block => rw [(stored_takeBlock h).vars, hkeep]
        · rw [(stored_takeBlock h).vars]
      exact initHeap_first hinit hstart (hfirst.symm.trans hnone)

/-! ## Invariants of the memory manager -/

/-- `Q` survives stores and fresh mappings of the kind `P`, and does not speak about
the variables of the heap. -/
structure Preserves (M : Machine σ) (P : Nat → Nat → Prop) (Q : MemState σ → Prop) : Prop where
  store : ∀ {s s' : MemState σ} {a : Nat} {b : UInt8}, Q s → s.store8 M a b = some s' → Q s'
  map : ∀ {s : MemState σ} {v f : Nat}, P v f → Q s → Q (s.mapFresh M v f).2
  vars : ∀ {s : MemState σ} (first last : Nat), Q s →
    Q { s with heapFirstBlock := first, heapEnd := last }

namespace Preserves

variable {P : Nat → Nat → Prop} {Q : MemState σ → Prop} (h : Preserves M P Q)
include h

theorem stored (hs : Stored M s s') (hQ : Q s) : Q s' := by
  induction hs with
  | refl => exact hQ
  | store _ hs ih => exact h.store ih hs

theorem mapPages {f base i n : Nat} (hP : ∀ j, j < i + n → P ((base + 4096 * j) % 2 ^ 64) f)
    (hQ : Q s) : Q (s.mapPages M f base i n).2 := by
  induction n generalizing s i with
  | zero => exact hQ
  | succ n ih =>
      have hone := h.map (hP i (by omega)) hQ
      rw [MemState.mapPages]
      cases hfresh : s.mapFresh M ((base + 4096 * i) % 2 ^ 64) f with
      | mk done s₁ =>
          rw [hfresh] at hone
          cases done with
          | false => exact hone
          | true => exact ih (fun j hj => hP j (by omega)) hone

theorem mapStack {f base i n : Nat} (hP : ∀ j, j < i + n → P ((base + 4096 * j) % 2 ^ 64) f)
    (hQ : Q s) : Q (mapStack M f base i n s) := by
  induction n generalizing s i with
  | zero => exact hQ
  | succ n ih => exact ih (fun j hj => hP j (by omega)) (h.map (hP i (by omega)) hQ)

theorem grown {base n : Nat} (hP : ∀ v, P v heapFlags) (hs : Grown M s base n s') (hQ : Q s) :
    Q s' := by
  obtain ⟨first, last, -, hstored⟩ := hs
  exact h.stored hstored (h.vars first last (h.mapPages (fun _ _ => hP _) hQ))

theorem kmalloc {size r : Nat} (hP : ∀ v, P v heapFlags) (hs : kmalloc M s size = some (r, s'))
    (hQ : Q s) : Q s' := by
  obtain ⟨s₁, s₂, hinit, hext, hstored⟩ := kmalloc_cases hs
  have h₁ : Q s₁ := by
    rcases hinit with rfl | ⟨-, hgrown⟩
    · exact hQ
    · exact h.grown hP hgrown hQ
  have h₂ : Q s₂ := by
    rcases hext with rfl | ⟨-, hgrown⟩
    · exact h₁
    · exact h.grown hP hgrown h₁
  exact h.stored hstored h₂

theorem kfree {ptr : Nat} (hs : kfree M s ptr = some s') (hQ : Q s) : Q s' :=
  h.stored (kfree_stored hs) hQ

/-- What all mappings preserve, every call preserves. -/
theorem step {k k' : KernelState σ} {call : Call} (hP : ∀ v f, f < 4096 → P v f)
    (halloc : ∀ {s : MemState σ}, Q s → Q s.allocPhysicalPage.2)
    (hs : k.step M call = some k') (hQ : Q k.mem) : Q k'.mem := by
  cases call with
  | kmalloc size =>
      obtain ⟨⟨r, s'⟩, hrun, rfl⟩ := Option.map_eq_some_iff.mp hs
      exact h.kmalloc (fun v => hP v heapFlags (by decide)) hrun hQ
  | kfree ptr =>
      obtain ⟨s', hrun, rfl⟩ := Option.map_eq_some_iff.mp hs
      exact h.kfree hrun hQ
  | addTask entry =>
      obtain rfl := Option.some.inj hs
      unfold KernelState.addTask
      split
      · exact hQ
      · exact h.mapStack (fun _ _ => hP _ _ (by decide)) hQ
  | processCreate entry name =>
      obtain rfl := Option.some.inj hs
      unfold KernelState.processCreate
      split
      · exact hQ
      · exact h.mapStack (fun _ _ => hP _ _ (by decide)) (h.mapStack (fun _ _ => hP _ _ (by decide)) hQ)
  | processExit pid =>
      obtain rfl := Option.some.inj hs
      exact hQ
  | enterUserMode =>
      obtain rfl := Option.some.inj hs
      exact h.mapPages (fun _ _ => hP _ _ (by decide)) (halloc hQ)

end Preserves

end Kaviz.Kernel
