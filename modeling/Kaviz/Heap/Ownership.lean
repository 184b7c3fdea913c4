import Kaviz.Heap.Clients

/-! # Kernel code on top of the heap

The rules for code that allocates, fills what it was given, maps pages of the
lower half and frees again. `Ready` is the state such code runs in and `Owned`
an allocation it holds; every rule says which bytes kept their values.
-/

namespace Kaviz.Heap

open Bytes Memory

variable {σ : Type} {M : Machine σ} {L : Lawful M} {s s' : MemState σ} {bs : List Block}

structure Ready (L : Lawful M) (s : MemState σ) (bs : List Block) : Prop where
  heap : Represents L s bs
  frames : FramesOk L s

/-- At least `n` bytes at `p` are allocated. -/
def Owned (bs : List Block) (p n : Nat) : Prop := ∃ cap, (p, cap) ∈ used kernelBase bs ∧ n ≤ cap

namespace Owned

variable {p n : Nat}

theorem payload (h : Owned bs p n) {x : Nat} (hlo : p ≤ x) (hhi : x < p + n) :
    PayloadByte bs x := by
  obtain ⟨cap, hmem, hn⟩ := h
  exact ⟨p, cap, hmem, hlo, by omega⟩

theorem guarded (h : Owned bs p n) {x : Nat} (hlo : p ≤ x) (hhi : x < p + n) : Guarded bs x :=
  Or.inr (h.payload hlo hhi)

theorem bounds (h : Owned bs p n) (hs : Represents L s bs) :
    kernelBase ≤ p ∧ p + n ≤ s.heapEnd := by
  obtain ⟨cap, hmem, hn⟩ := h
  obtain ⟨a, b, hplaced, -, rfl, rfl⟩ := mem_used.mp hmem
  have hb := placed_bounds hplaced
  have hend := hs.end_eq
  omega

theorem mapped (h : Owned bs p n) (hs : Represents L s bs) : Mapped M s.mach p (p + n) :=
  hs.mapped.mono (h.bounds hs).1 (h.bounds hs).2

theorem below (h : Owned bs p n) (hs : Represents L s bs) : p + n < 2 ^ 64 := by
  have hlimit : heapLimit + 1 < 2 ^ 64 := by decide
  have hend := (h.bounds hs).2
  have hbelow := hs.below
  omega

end Owned

theorem mem_insert {α : Type} {u v : List α} {x y : α} (h : x ∈ u ++ v) : x ∈ u ++ y :: v := by
  simp only [List.mem_append, List.mem_cons] at h ⊢
  tauto

namespace Ready

theorem kmalloc (h : Ready L s bs) (hstop : StopsAt L kernelBase (heapLimit + 1)) {size p : Nat}
    (hsize : size ≤ 2 ^ 63) (hret : kmalloc M s size = some (p, s')) (hp : p ≠ 0) :
    ∃ bs', Ready L s' bs' ∧ Owned bs' p size ∧
      (∀ x, Guarded bs x → M.load s'.mach x = M.load s.mach x) ∧
      ∀ q n, Owned bs q n → Owned bs' q n ∧ q ≠ p := by
  obtain ⟨p', t, hret', -, -, hunt, hcase⟩ := kmalloc_spec h.heap h.frames hstop (le_sizeLimit hsize)
  cases hret.symm.trans hret'
  rcases hcase with ⟨hzero, -⟩ | ⟨hfr, bs', halloc, hrep⟩
  · exact absurd hzero hp
  · obtain ⟨u, v, cap, hu, hu', hcap⟩ := halloc.used_eq
    rw [opened_used] at hu
    have hnodup := used_nodup kernelBase bs'
    rw [hu'] at hnodup
    refine ⟨bs', ⟨hrep, hfr⟩, ⟨cap, by simp [hu'], ?_⟩, hunt.load_eq, fun q n hq => ?_⟩
    · exact Nat.le_trans (roundSize_spec (le_sizeLimit hsize)).1 hcap
    · obtain ⟨c, hmem, hn⟩ := hq
      rw [hu] at hmem
      refine ⟨⟨c, by rw [hu']; exact mem_insert hmem, hn⟩, ?_⟩
      rintro rfl
      exact not_mem_of_nodup_middle hnodup (List.mem_map.mpr ⟨_, hmem, rfl⟩)

theorem kfree (h : Ready L s bs) {p n : Nat} (hp : Owned bs p n)
    (hret : kfree M s p = some s') :
    ∃ bs', Ready L s' bs' ∧ (∀ x, Guarded bs x → M.load s'.mach x = M.load s.mach x) ∧
      ∀ q k, Owned bs q k → q ≠ p → Owned bs' q k := by
  obtain ⟨cap, hmem, -⟩ := hp
  obtain ⟨a, b, hplaced, hb, rfl, rfl⟩ := mem_used.mp hmem
  obtain ⟨pre, post, rfl, rfl⟩ := placed_split hplaced
  obtain ⟨t, hret', hrep, hfr, hunt⟩ := kfree_spec h.heap h.frames
  cases hret.symm.trans hret'
  obtain ⟨hu, hu'⟩ := used_release hb kernelBase pre post
  refine ⟨_, ⟨hrep, hfr⟩, hunt.load_eq, fun q k hq hne => ?_⟩
  obtain ⟨c, hc, hk⟩ := hq
  refine ⟨c, ?_, hk⟩
  rw [hu] at hc
  rw [hu']
  simp only [List.mem_append, List.mem_cons, Prod.mk.injEq] at hc ⊢
  tauto

theorem stores (h : Ready L s bs) {m : Mem} {W : Nat → Prop} (hst : Stores L s s' m W)
    (hW : ∀ x, W x → Guarded bs x) : Ready L s' bs := by
  have hrep := h.heap
  have hlay : Layout m kernelBase bs := hrep.layout.congr_headers fun x hx =>
    hst.keep x fun hw => not_guarded_of_header hx (hW x hw)
  refine ⟨⟨hst.ok, by rw [hst.vars]; exact hrep.start, ?_, ?_, ?_, ?_, hst.view_eq ▸ hlay, ?_⟩,
    framesOk_of_stores h.frames hst⟩
  · rw [hst.heapFirstBlock]
    exact hrep.first
  · rw [hst.heapEnd]
    exact hrep.end_eq
  · rw [hst.heapEnd]
    exact hrep.aligned
  · rw [hst.heapEnd]
    exact hrep.below
  · rw [hst.heapEnd, hst.flags]
    exact hrep.flags

theorem mapping (h : Ready L s bs) {P : Nat → Prop} (hmap : Mapping L s s' P)
    (hP : ∀ x, P x → x < kernelBase) (hfr : FramesOk L s') : Ready L s' bs := by
  have hrep := h.heap
  have hkeep : ∀ x, kernelBase ≤ x → ¬ P x := fun x hx hp => by
    have := hP x hp
    omega
  refine ⟨⟨hmap.ok, by rw [hmap.vars]; exact hrep.start, ?_, ?_, ?_, ?_, ?_, ?_⟩, hfr⟩
  · rw [hmap.heapFirstBlock]
    exact hrep.first
  · rw [hmap.heapEnd]
    exact hrep.end_eq
  · rw [hmap.heapEnd]
    exact hrep.aligned
  · rw [hmap.heapEnd]
    exact hrep.below
  · exact hrep.layout.congr fun x hlo _ => hmap.view_keep (hkeep x hlo)
  · intro x hlo hhi
    rw [hmap.heapEnd] at hhi
    rw [(hmap.keep x (hkeep x hlo)).2]
    exact hrep.flags x hlo hhi

end Ready

/-- Allocations at different addresses do not overlap. -/
theorem owned_apart {p n q k : Nat} (hp : Owned bs p n) (hq : Owned bs q k) (hne : p ≠ q) :
    p + n ≤ q ∨ q + k ≤ p := by
  obtain ⟨cap, hmem, hn⟩ := hp
  obtain ⟨cap', hmem', hk⟩ := hq
  obtain ⟨a, b, hplaced, -, rfl, rfl⟩ := mem_used.mp hmem
  obtain ⟨a', b', hplaced', -, rfl, rfl⟩ := mem_used.mp hmem'
  rcases placed_apart hplaced hplaced' with ⟨rfl, rfl⟩ | hapart
  · exact absurd rfl hne
  · omega

end Kaviz.Heap
