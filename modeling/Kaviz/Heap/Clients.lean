import Mathlib.Algebra.Order.Ring.Nat
import Mathlib.Data.List.Nodup
import Mathlib.Logic.Relation
import Kaviz.Heap.Refinement
import Kaviz.Memory.Flat

/-! # The allocator and its clients

Clients allocate, write into what they were given and free it again, in any
order. The ghost list `live` records every pointer returned and not yet freed
with the size asked for. One step keeps the heap a block list in which exactly
the live pointers are in use; whole runs follow by induction.
-/

namespace Kaviz.Heap

open Bytes Memory Paging Relation

variable {σ : Type} {M : Machine σ}

structure Client (σ : Type) where
  mem : MemState σ
  /-- Live pointers, with the size requested for each. -/
  live : List (Nat × Nat)

inductive ClientStep (M : Machine σ) (c : Client σ) : Client σ → Prop
  | kmalloc {size p : Nat} {s : MemState σ} (hsize : size ≤ 2 ^ 63)
      (hret : kmalloc M c.mem size = some (p, s)) :
      ClientStep M c ⟨s, if p = 0 then c.live else (p, size) :: c.live⟩
  | kfree {p : Nat} {s : MemState σ} (hp : p = 0 ∨ p ∈ c.live.map Prod.fst)
      (hret : kfree M c.mem p = some s) :
      ClientStep M c ⟨s, c.live.filter fun x => x.1 ≠ p⟩
  | write {p size a : Nat} {b : UInt8} {s : MemState σ} (hp : (p, size) ∈ c.live)
      (ha : p ≤ a ∧ a < p + size) (hret : c.mem.store8 M a b = some s) :
      ClientStep M c ⟨s, c.live⟩

/-! ## Live pointers and blocks in use -/

/-- The live pointers are the payloads in use, each large enough. -/
structure LiveMatches (live us : List (Nat × Nat)) : Prop where
  mem_iff : ∀ p, p ∈ live.map Prod.fst ↔ p ∈ us.map Prod.fst
  nodup : (live.map Prod.fst).Nodup
  capacity : ∀ p n, (p, n) ∈ live → ∃ cap, (p, cap) ∈ us ∧ n ≤ cap

theorem used_addr_le {a p : Nat} {bs : List Block} (h : p ∈ (used a bs).map Prod.fst) :
    a + 24 ≤ p := by
  obtain ⟨⟨p', cap⟩, hmem, rfl⟩ := List.mem_map.mp h
  obtain ⟨q, b, hplaced, -, rfl, -⟩ := mem_used.mp hmem
  have := placed_bounds hplaced
  dsimp only
  omega

theorem used_nodup (a : Nat) (bs : List Block) : ((used a bs).map Prod.fst).Nodup := by
  induction bs generalizing a with
  | nil => simp [used, placed]
  | cons b bs ih =>
      cases hb : b.free with
      | true =>
          rw [used_cons_free hb]
          exact ih _
      | false =>
          rw [used_cons_used hb, List.map_cons, List.nodup_cons]
          refine ⟨fun hmem => ?_, ih _⟩
          have := used_addr_le hmem
          omega

/-- A duplicate-free list does not contain its middle element elsewhere. -/
theorem not_mem_of_nodup_middle {u v : List (Nat × Nat)} {x : Nat × Nat}
    (h : ((u ++ x :: v).map Prod.fst).Nodup) : x.1 ∉ (u ++ v).map Prod.fst := by
  rw [List.map_append, List.map_cons, List.nodup_middle, List.nodup_cons] at h
  rw [List.map_append]
  exact h.1

theorem LiveMatches.alloc {live u v : List (Nat × Nat)} {p n cap : Nat}
    (h : LiveMatches live (u ++ v)) (hnew : p ∉ (u ++ v).map Prod.fst) (hn : n ≤ cap) :
    LiveMatches ((p, n) :: live) (u ++ (p, cap) :: v) := by
  refine ⟨fun q => ?_, ?_, fun q k hq => ?_⟩
  · have := h.mem_iff q
    simp only [List.map_cons, List.mem_cons, List.map_append, List.mem_append] at this ⊢
    tauto
  · rw [List.map_cons, List.nodup_cons]
    exact ⟨fun hmem => hnew ((h.mem_iff p).mp hmem), h.nodup⟩
  · rcases List.mem_cons.mp hq with heq | hq
    · cases heq
      exact ⟨cap, by simp, hn⟩
    · obtain ⟨c, hc, hk⟩ := h.capacity q k hq
      refine ⟨c, ?_, hk⟩
      simp only [List.mem_append, List.mem_cons] at hc ⊢
      tauto

theorem LiveMatches.free {live u v : List (Nat × Nat)} {p cap : Nat}
    (h : LiveMatches live (u ++ (p, cap) :: v)) (hold : p ∉ (u ++ v).map Prod.fst) :
    LiveMatches (live.filter fun x => x.1 ≠ p) (u ++ v) := by
  have hfilter : ∀ q, q ∈ (live.filter fun x => x.1 ≠ p).map Prod.fst ↔
      q ∈ live.map Prod.fst ∧ q ≠ p := by
    intro q
    simp only [List.mem_map, List.mem_filter, decide_eq_true_eq]
    constructor
    · rintro ⟨x, ⟨hx, hne⟩, rfl⟩
      exact ⟨⟨x, hx, rfl⟩, hne⟩
    · rintro ⟨⟨x, hx, rfl⟩, hne⟩
      exact ⟨x, ⟨hx, hne⟩, rfl⟩
  have hmid : ∀ q, q ∈ (u ++ (p, cap) :: v).map Prod.fst ↔ q = p ∨ q ∈ (u ++ v).map Prod.fst := by
    intro q
    simp only [List.map_append, List.map_cons, List.mem_append, List.mem_cons]
    tauto
  refine ⟨fun q => ?_, ?_, fun q k hq => ?_⟩
  · rw [hfilter, h.mem_iff, hmid]
    constructor
    · rintro ⟨rfl | hq, hne⟩
      · exact absurd rfl hne
      · exact hq
    · exact fun hq => ⟨Or.inr hq, fun heq => hold (heq ▸ hq)⟩
  · exact (List.Sublist.map _ (List.filter_sublist)).nodup h.nodup
  · obtain ⟨hq, hne⟩ := List.mem_filter.mp hq
    obtain ⟨c, hc, hk⟩ := h.capacity q k hq
    refine ⟨c, ?_, hk⟩
    simp only [List.mem_append, List.mem_cons, Prod.mk.injEq] at hc ⊢
    simp only [ne_eq, decide_not, Bool.not_eq_eq_eq_not, Bool.not_true, decide_eq_false_iff_not]
      at hne
    tauto

theorem Allocates.used_eq {n p : Nat} {bs bs' : List Block} (h : Allocates n bs bs' p) :
    ∃ u v cap, used kernelBase bs = u ++ v ∧ used kernelBase bs' = u ++ (p, cap) :: v ∧ n ≤ cap := by
  obtain ⟨pre, b, post, hb, hn, rfl, rfl, hcase⟩ := h
  obtain ⟨cap, hcap, -, htake⟩ := used_take hn
  refine ⟨used kernelBase pre, used (kernelBase + span pre + (24 + b.size)) post, cap, ?_, ?_, hcap⟩
  · rcases hcase with ⟨rfl, -⟩ | ⟨rfl, rfl, -⟩
    · rw [used_append, used_cons_free hb]
    · simp [used, placed]
  · rw [used_append, used_append, htake, span_take]
    rfl

theorem Allocates.noAdjacentFree {n p : Nat} {bs bs' : List Block} (h : Allocates n bs bs' p)
    (hbs : NoAdjacentFree bs) : NoAdjacentFree bs' := by
  obtain ⟨pre, b, post, hb, -, -, rfl, ⟨rfl, -⟩ | ⟨rfl, rfl, -⟩⟩ := h
  · obtain ⟨hpre, hpost, -⟩ := noAdjacentFree_append.mp hbs
    exact noAdjacentFree_take n hpre hpost hb
  · exact noAdjacentFree_take n hbs (List.isChain_singleton _) hb

/-- What one call does to the block list. -/
inductive Reshapes (bs : List Block) : List Block → Prop
  | same : Reshapes bs bs
  | opens : Reshapes bs (opened bs)
  | allocates {size p : Nat} {bs' : List Block} (hsize : size ≤ sizeLimit)
      (halloc : Allocates (roundSize size) (opened bs) bs' p) : Reshapes bs bs'
  | releases {pre post : List Block} {b : Block} (hbs : bs = pre ++ b :: post) :
      Reshapes bs (release pre b post)

/-! ## One step -/

/-- The invariant of a run: a heap whose blocks in use are the live pointers. -/
structure ClientInv (L : Lawful M) (c : Client σ) (bs : List Block) : Prop where
  heap : Represents L c.mem bs
  frames : FramesOk L c.mem
  separated : NoAdjacentFree bs
  live : LiveMatches c.live (used kernelBase bs)

theorem ClientInv.opened_separated {L : Lawful M} {c : Client σ} {bs : List Block}
    (h : ClientInv L c bs) : NoAdjacentFree (opened bs) := by
  unfold opened
  split
  · exact List.isChain_singleton _
  · exact h.separated

section Step

variable {L : Lawful M} (hfresh : ∀ s p, L.Fresh s p) (hstop : StopsAt L kernelBase (heapLimit + 1))
variable {c : Client σ} {bs : List Block}

include hfresh hstop

/-- `kmalloc` returns from every state of a run and keeps the invariant. -/
theorem ClientInv.kmalloc (h : ClientInv L c bs) {size : Nat} (hsize : size ≤ sizeLimit) :
    ∃ p s, Heap.kmalloc M c.mem size = some (p, s) ∧ Untouched M c.mem s (PayloadByte bs) ∧
      ∃ bs', Reshapes bs bs' ∧
        ClientInv L ⟨s, if p = 0 then c.live else (p, size) :: c.live⟩ bs' := by
  obtain ⟨p, s, hret, hal, hbd, hunt, hcase⟩ := kmalloc_spec h.heap h.frames hstop hsize
  have hfr : FramesOk L s := ⟨hal, hbd, fun _ p _ _ _ => hfresh s.mach p⟩
  have hopened := h.opened_separated
  have hlive : LiveMatches c.live (used kernelBase (opened bs)) := by
    rw [opened_used]
    exact h.live
  refine ⟨p, s, hret, hunt.mono fun x hx => Or.inr hx, ?_⟩
  rcases hcase with ⟨rfl, hrep | hrep⟩ | ⟨-, bs', halloc, hrep⟩
  · exact ⟨bs, .same, hrep, hfr, h.separated, by simpa using h.live⟩
  · exact ⟨opened bs, .opens, hrep, hfr, hopened, by simpa using hlive⟩
  · obtain ⟨u, v, cap, hu, hu', hcap⟩ := halloc.used_eq
    have hp : p ≠ 0 := by
      obtain ⟨pre, b, post, -, -, rfl, -⟩ := halloc
      omega
    have hnodup := used_nodup kernelBase bs'
    rw [hu'] at hnodup
    rw [hu] at hlive
    refine ⟨bs', .allocates hsize halloc, hrep, hfr, halloc.noAdjacentFree hopened, ?_⟩
    rw [if_neg hp, hu']
    exact hlive.alloc (not_mem_of_nodup_middle hnodup)
      (Nat.le_trans (roundSize_spec hsize).1 hcap)

omit hfresh hstop in
/-- `kfree` returns for every live pointer and takes it, and nothing else, out of use. -/
theorem ClientInv.kfree_used (h : ClientInv L c bs) {p : Nat} (hp : p ∈ c.live.map Prod.fst) :
    ∃ s bs', Heap.kfree M c.mem p = some s ∧ Untouched M c.mem s (PayloadByte bs) ∧
      Reshapes bs bs' ∧ ClientInv L ⟨s, c.live.filter fun x => x.1 ≠ p⟩ bs' ∧ span bs' = span bs ∧
      ∀ x, x ∈ used kernelBase bs' ↔ x ∈ used kernelBase bs ∧ x.1 ≠ p := by
  have hmem := (h.live.mem_iff p).mp hp
  obtain ⟨⟨p', cap⟩, hused, rfl⟩ := List.mem_map.mp hmem
  obtain ⟨q, b, hplaced, hb, rfl, rfl⟩ := mem_used.mp hused
  obtain ⟨pre, post, rfl, rfl⟩ := placed_split hplaced
  obtain ⟨s, hret, hrep, hfr, hunt⟩ := kfree_spec h.heap h.frames
  obtain ⟨hu, hu'⟩ := used_release hb kernelBase pre post
  have hnodup := used_nodup kernelBase (pre ++ b :: post)
  have hlive := h.live
  rw [hu] at hnodup hlive
  have hother := not_mem_of_nodup_middle hnodup
  refine ⟨s, _, hret, hunt.mono fun x hx => Or.inr hx, .releases rfl,
    ⟨hrep, hfr, noAdjacentFree_release h.separated, ?_⟩, span_release pre b post, fun x => ?_⟩
  · rw [hu']
    exact hlive.free hother
  · rw [hu, hu']
    have hne : x ∈ used kernelBase pre ++ used (kernelBase + span pre + (24 + b.size)) post →
        x.1 ≠ kernelBase + span pre + 24 := by
      intro hx heq
      have hin : x.1 ∈ (used kernelBase pre ++
        used (kernelBase + span pre + (24 + b.size)) post).map Prod.fst := List.mem_map_of_mem hx
      rw [heq] at hin
      exact hother hin
    simp only [List.mem_append, List.mem_cons] at hne ⊢
    constructor
    · intro hx
      exact ⟨hx.imp_right Or.inr, hne hx⟩
    · rintro ⟨hx | rfl | hx, hx'⟩
      · exact Or.inl hx
      · exact absurd rfl hx'
      · exact Or.inr hx

omit hfresh hstop in
theorem ClientInv.kfree (h : ClientInv L c bs) {p : Nat} (hp : p = 0 ∨ p ∈ c.live.map Prod.fst) :
    ∃ s, Heap.kfree M c.mem p = some s ∧ Untouched M c.mem s (PayloadByte bs) ∧
      ∃ bs', Reshapes bs bs' ∧ ClientInv L ⟨s, c.live.filter fun x => x.1 ≠ p⟩ bs' := by
  have hzero : (0 : Nat) ∉ c.live.map Prod.fst := by
    rw [h.live.mem_iff]
    exact fun hmem => absurd (used_addr_le hmem) (by decide)
  by_cases hnull : p = 0
  · subst hnull
    have hkeep : (c.live.filter fun x => x.1 ≠ 0) = c.live := by
      refine List.filter_eq_self.mpr fun x hx => ?_
      have : x.1 ≠ 0 := fun hx0 => hzero (hx0 ▸ List.mem_map_of_mem hx)
      simpa using this
    exact ⟨c.mem, rfl, Untouched.refl M _ _, bs, .same, by rw [hkeep]; exact h⟩
  · obtain ⟨s, bs', hret, hunt, hshape, hinv, -⟩ := h.kfree_used (hp.resolve_left hnull)
    exact ⟨s, hret, hunt, bs', hshape, hinv⟩

omit hfresh hstop in
/-- A client writing into its own allocation does not disturb the heap. -/
theorem ClientInv.write (h : ClientInv L c bs) {p size a : Nat} {b : UInt8} {s : MemState σ}
    (hp : (p, size) ∈ c.live) (ha : p ≤ a ∧ a < p + size)
    (hret : c.mem.store8 M a b = some s) : ClientInv L ⟨s, c.live⟩ bs := by
  obtain ⟨cap, hused, hcap⟩ := h.live.capacity p size hp
  have hpay : PayloadByte bs a := ⟨p, cap, hused, ha.1, by omega⟩
  have hb := h.heap.payload_bounds hpay
  have hsome : (M.load c.mem.mach a).isSome := by
    rw [← L.flags_isSome, h.heap.flags a hb.1 hb.2]
    rfl
  obtain ⟨s', hs', hst⟩ := store8_spec b h.heap.ok hsome
  cases hret.symm.trans hs'
  have hne : bs ≠ [] := by
    rintro rfl
    simp [used, placed] at hused
  refine ⟨h.heap.of_stores hst (h.heap.layout.congr_headers fun x hx => hst.keep x ?_) rfl hne hne,
    framesOk_of_stores h.frames hst, h.separated, h.live⟩
  rintro rfl
  exact not_payload_of_header hx hpay

theorem ClientInv.step (h : ClientInv L c bs) {c' : Client σ} (hstep : ClientStep M c c') :
    ∃ bs', Reshapes bs bs' ∧ ClientInv L c' bs' := by
  cases hstep with
  | kmalloc hsize hret =>
      obtain ⟨p, s, hret', -, hinv⟩ := h.kmalloc hfresh hstop (le_sizeLimit hsize)
      cases hret.symm.trans hret'
      exact hinv
  | kfree hp hret =>
      obtain ⟨s, hret', -, hinv⟩ := h.kfree hp
      cases hret.symm.trans hret'
      exact hinv
  | write hp ha hret => exact ⟨bs, .same, h.write hp ha hret⟩

theorem ClientInv.run (h : ClientInv L c bs) {c' : Client σ}
    (hrun : ReflTransGen (ClientStep M) c c') :
    ∃ bs', ReflTransGen Reshapes bs bs' ∧ ClientInv L c' bs' := by
  induction hrun with
  | refl => exact ⟨bs, .refl, h⟩
  | tail _ hstep ih =>
      obtain ⟨bs', hshapes, hinv⟩ := ih
      obtain ⟨bs'', hshape, hinv'⟩ := hinv.step hfresh hstop hstep
      exact ⟨bs'', hshapes.tail hshape, hinv'⟩

end Step

end Kaviz.Heap
