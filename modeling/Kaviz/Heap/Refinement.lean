import Kaviz.Heap.Operations

/-! # The allocator refines block lists

`Represents L s bs` connects the variables and the memory of the kernel with a
block list; the empty list is the heap before its first use. `kmalloc` and
`kfree` return, and the list they leave is the one the abstract allocator
computes. A `map_page` that stops at the heap limit keeps the heap below it.
-/

namespace Kaviz.Heap

open Bytes Memory

variable {σ : Type} {M : Machine σ} {L : Lawful M} {s : MemState σ} {bs : List Block}

structure Represents (L : Lawful M) (s : MemState σ) (bs : List Block) : Prop where
  ok : L.Ok s.mach
  start : s.heapStart = kernelBase
  first : s.heapFirstBlock = link kernelBase bs
  end_eq : s.heapEnd = kernelBase + span bs
  aligned : s.heapEnd % 4096 = 0
  below : s.heapEnd ≤ heapLimit + 1
  layout : Layout (view M s.mach) kernelBase bs
  flags : ∀ x, kernelBase ≤ x → x < s.heapEnd → L.flags s.mach x = some heapFlags

/-- The heap `kmalloc` searches: created as one block on first use. -/
def opened (bs : List Block) : List Block :=
  if bs = [] then [⟨4 * 1024 * 1024 - 24, true⟩] else bs

def PayloadByte (bs : List Block) (x : Nat) : Prop :=
  ∃ p cap, (p, cap) ∈ used kernelBase bs ∧ p ≤ x ∧ x < p + cap

/-- Bytes the allocator must leave alone: payloads in use, and everything below
the kernel's half of the address space. -/
def Guarded (bs : List Block) (x : Nat) : Prop := x < kernelBase ∨ PayloadByte bs x

/-- The list after `n` bytes were allocated at `p`: from the best fit, or from
new pages when nothing fits. -/
def Allocates (n : Nat) (bs bs' : List Block) (p : Nat) : Prop :=
  ∃ pre b post, b.free = true ∧ n ≤ b.size ∧ p = kernelBase + span pre + 24 ∧
    bs' = pre ++ (b.take n ++ post) ∧
    ((bs = pre ++ b :: post ∧
        IsBestFit n (placed kernelBase bs) (some (kernelBase + span pre, b))) ∨
      (bs = pre ∧ post = [] ∧ b = ⟨4096 * pagesNeeded n - 24, true⟩ ∧
        IsBestFit n (placed kernelBase bs) none))

/-! ## Addresses -/

theorem heap_pageRange {a : Nat} (hlo : kernelBase ≤ a) (halign : a % 4096 = 0) :
    PageRange a (heapLimit + 1) := by
  refine ⟨halign, by decide, by decide, fun x hx hx' => Or.inr ⟨?_, ?_⟩⟩
  · have : (2 ^ 64 - 2 ^ 47 : Nat) = kernelBase := by decide
    omega
  · have : heapLimit + 1 ≤ 2 ^ 64 := by decide
    omega

/-- Up to here none of the sums of `kmalloc` wraps. -/
def sizeLimit : Nat := 2 ^ 64 - 4120

theorem roundSize_spec {size : Nat} (h : size ≤ sizeLimit) :
    size ≤ roundSize size ∧ roundSize size ≤ sizeLimit ∧ roundSize size = (size + 3) / 4 * 4 := by
  unfold sizeLimit at *
  unfold roundSize
  omega

theorem pagesNeeded_spec {n : Nat} (h : n ≤ sizeLimit) :
    24 + n ≤ 4096 * pagesNeeded n ∧ 4096 * pagesNeeded n < 24 + n + 4096 := by
  unfold sizeLimit at h
  unfold pagesNeeded
  omega

theorem le_sizeLimit {size : Nat} (h : size ≤ 2 ^ 63) : size ≤ sizeLimit := by
  unfold sizeLimit
  omega

namespace Represents

theorem mapped (h : Represents L s bs) : Mapped M s.mach kernelBase s.heapEnd := by
  intro x hlo hhi
  rw [← L.flags_isSome, h.flags x hlo hhi]
  rfl

theorem holds (h : Represents L s bs) : Holds L s kernelBase bs := by
  have hend := h.end_eq
  have hbelow := h.below
  have hlimit : heapLimit + 1 ≤ 2 ^ 64 - 4096 := by decide
  exact ⟨h.ok, h.layout, hend ▸ h.mapped, by decide, by omega⟩

/-- Stores inside the heap that leave the layout of a list of the same extent. -/
theorem of_stores {bs' : List Block} {s' : MemState σ} {m : Mem} {W : Nat → Prop}
    (h : Represents L s bs) (hst : Stores L s s' m W) (hlay : Layout m kernelBase bs')
    (hspan : span bs' = span bs) (hne : bs ≠ []) (hne' : bs' ≠ []) : Represents L s' bs' := by
  have hfirst := h.first
  rw [link_ne_nil hne] at hfirst
  refine ⟨hst.ok, by rw [hst.vars]; exact h.start, ?_, ?_, by rw [hst.heapEnd]; exact h.aligned,
    by rw [hst.heapEnd]; exact h.below, hst.view_eq ▸ hlay, ?_⟩
  · rw [hst.heapFirstBlock, hfirst, link_ne_nil hne']
  · rw [hst.heapEnd, h.end_eq, hspan]
  · rw [hst.heapEnd, hst.flags]
    exact h.flags

/-- Mapping pages from the end of the heap on does not change the heap. -/
theorem of_mapping {s' : MemState σ} {hi : Nat} (h : Represents L s bs)
    (hmap : Mapping L s s' fun x => s.heapEnd ≤ x ∧ x < hi) : Represents L s' bs := by
  have hend := h.end_eq
  refine ⟨hmap.ok, by rw [hmap.vars]; exact h.start, by rw [hmap.heapFirstBlock]; exact h.first,
    by rw [hmap.heapEnd]; exact h.end_eq, by rw [hmap.heapEnd]; exact h.aligned,
    by rw [hmap.heapEnd]; exact h.below, ?_, ?_⟩
  · exact h.layout.congr fun x _ hx => hmap.view_keep (by omega)
  · intro x hlo hhi
    rw [hmap.heapEnd] at hhi
    rw [(hmap.keep x (by omega)).2]
    exact h.flags x hlo hhi

theorem payload_bounds (h : Represents L s bs) {x : Nat} (hx : PayloadByte bs x) :
    kernelBase ≤ x ∧ x < s.heapEnd := by
  obtain ⟨p, cap, hmem, hlo, hhi⟩ := hx
  obtain ⟨q, b, hmem', _, rfl, rfl⟩ := mem_used.mp hmem
  have hb := placed_bounds hmem'
  have hend := h.end_eq
  omega

theorem guarded_below (h : Represents L s bs) {x : Nat} (hx : Guarded bs x) : x < s.heapEnd := by
  rcases hx with hx | hx
  · have hend := h.end_eq
    omega
  · exact (h.payload_bounds hx).2

end Represents

/-! ## Payload bytes and the rest -/

/-- Any byte of the heap that is not in a payload in use may be written. -/
theorem not_guarded {x : Nat} (hx : kernelBase ≤ x) (hp : ¬ PayloadByte bs x) : ¬ Guarded bs x := by
  rintro (hlt | hpay)
  · omega
  · exact hp hpay

theorem not_payload_of_header {x : Nat} (h : HeaderByte kernelBase bs x) : ¬ PayloadByte bs x := by
  rintro ⟨p, cap, hmem, hlo, hhi⟩
  obtain ⟨q, c, hmem', _, rfl, rfl⟩ := mem_used.mp hmem
  obtain ⟨a, b, hmem, hx, hx'⟩ := h
  rcases placed_apart hmem hmem' with ⟨rfl, rfl⟩ | hapart
  · omega
  · omega

theorem not_payload_of_free {pre post : List Block} {b : Block} (hb : b.free = true) {x : Nat}
    (hlo : kernelBase + span pre ≤ x) (hhi : x < kernelBase + span pre + (24 + b.size)) :
    ¬ PayloadByte (pre ++ b :: post) x := by
  rintro ⟨p, cap, hmem, hx, hx'⟩
  obtain ⟨q, c, hmem', hc, rfl, rfl⟩ := mem_used.mp hmem
  have hmem : (kernelBase + span pre, b) ∈ placed kernelBase (pre ++ b :: post) := by
    simp [placed_append, placed]
  rcases placed_apart hmem hmem' with ⟨rfl, rfl⟩ | hapart
  · simp [hb] at hc
  · omega

theorem not_guarded_of_header {x : Nat} (h : HeaderByte kernelBase bs x) : ¬ Guarded bs x := by
  obtain ⟨a, b, hmem, hlo, hhi⟩ := h
  have hb := placed_bounds hmem
  exact not_guarded (by omega) (not_payload_of_header ⟨a, b, hmem, hlo, hhi⟩)

theorem not_payload_nil (x : Nat) : ¬ PayloadByte [] x := by
  rintro ⟨p, cap, hmem, -⟩
  simp [used, placed] at hmem

/-! ## Creating and extending the heap -/

theorem newFreeBlock_spec {q : Nat} (size : Nat) (hok : L.Ok s.mach)
    (hm : Mapped M s.mach q (q + 24)) (hsize : size < 2 ^ 64) :
    ∃ s' m, newFreeBlock M s q size = some s' ∧ Stores L s s' m (fun x => q ≤ x ∧ x < q + 24) ∧
      Header m q ⟨size, true⟩ 0 := by
  obtain ⟨s₁, hs₁, hst₁⟩ := setBlockSize_spec size hok hm
  obtain ⟨s₂, hs₂, hst₂⟩ := setBlockNext_spec 0 hst₁.ok (hst₁.mapped hm)
  have hst₂ := hst₁.trans hst₂
  obtain ⟨s₃, hs₃, hst₃⟩ := setBlockFree_spec 1 hst₂.ok (hst₂.mapped hm)
  refine ⟨s₃, _, by simp [newFreeBlock, hs₁, hs₂, hs₃], hst₂.trans hst₃, ?_⟩
  rw [hst₂.view_eq, hst₁.view_eq]
  exact header_fresh _ _ hsize (by decide)

theorem framesOk_of_stores {s' : MemState σ} {m : Mem} {W : Nat → Prop} (h : FramesOk L s)
    (hst : Stores L s s' m W) : FramesOk L s' := by
  have hnext := hst.nextFreePage
  refine ⟨hnext ▸ h.aligned, hnext ▸ h.bound, fun hne p hp hp64 hpa => ?_⟩
  rw [hnext] at hne hp
  exact hst.fresh p (h.fresh hne p hp hp64 hpa)

/-- Without a heap nothing of it is guarded. -/
theorem outside_of_guarded_nil {x hi : Nat} (hx : Guarded [] x) : ¬ (kernelBase ≤ x ∧ x < hi) := by
  rcases hx with hx | hx
  · omega
  · exact absurd hx (not_payload_nil x)

/-- When the 4 MiB cannot be mapped the heap stays uncreated. -/
theorem initHeap_failed (h : Represents L s []) (hfr : FramesOk L s) {s₁ : MemState σ}
    (hrun : s.mapPages M heapFlags kernelBase 0 1024 = (false, s₁)) :
    initHeap M s = some (false, s₁) ∧ Represents L s₁ [] ∧ s₁.nextFreePage % 4096 = 0 ∧
      s₁.nextFreePage < 2 ^ 64 ∧
      Untouched M s s₁ fun x => ¬ (kernelBase ≤ x ∧ x < kernelBase + 4096 * 1024) := by
  obtain ⟨hmap, -⟩ := mapPages_all kernelBase (heap_pageRange (Nat.le_refl _) (by decide)) (by decide)
    (by decide) (Or.inl (by decide)) h.ok hfr hrun
  refine ⟨?_, ?_, hmap.aligned, hmap.bound, ?_⟩
  · rw [initHeap, if_neg (fun hne => hne h.first), h.start, hrun]
  · have hmap' := hmap
    rw [← Nat.add_zero kernelBase, ← span_nil, ← h.end_eq] at hmap'
    exact h.of_mapping hmap'
  · exact hmap.untouched (by decide) (by decide) fun x hlo hhi hout => hout ⟨hlo, hhi⟩

/-- The 4 MiB just mapped become one free block. -/
theorem initHeap_mapped (h : Represents L s []) (hfr : FramesOk L s) {s₁ : MemState σ}
    (hrun : s.mapPages M heapFlags kernelBase 0 1024 = (true, s₁)) :
    ∃ s', initHeap M s = some (true, s') ∧ Represents L s' (opened []) ∧ FramesOk L s' ∧
      Untouched M s s' fun x => ¬ (kernelBase ≤ x ∧ x < kernelBase + 4096 * 1024) := by
  obtain ⟨hmap, hdone⟩ := mapPages_all kernelBase (heap_pageRange (Nat.le_refl _) (by decide)) (by decide)
    (by decide) (Or.inl (by decide)) h.ok hfr hrun
  obtain ⟨-, hfr₁, hflags⟩ := hdone rfl
  have hstart₁ : s₁.heapStart = kernelBase := by
    rw [hmap.vars]
    exact h.start
  generalize hs₂ : ({ s₁ with heapFirstBlock := s₁.heapStart } : MemState σ) = s₂
  have hmach : s₂.mach = s₁.mach := by rw [← hs₂]
  have hfr₂ : FramesOk L s₂ := by
    rw [← hs₂]
    exact ⟨hfr₁.aligned, hfr₁.bound, hfr₁.fresh⟩
  have hm : Mapped M s₂.mach kernelBase (kernelBase + 24) := by
    intro x hlo hhi
    rw [hmach, ← L.flags_isSome, (hflags x hlo (Nat.lt_of_lt_of_le hhi (by decide))).1]
    rfl
  obtain ⟨s₃, m, hs₃, hst, hhead⟩ := newFreeBlock_spec (s := s₂) (4 * 1024 * 1024 - 24)
    (hmach ▸ hmap.ok) hm (by decide)
  have hfr₃ := framesOk_of_stores hfr₂ hst
  have hstart₃ : s₃.heapStart = kernelBase := by rw [hst.vars, ← hs₂]; exact hstart₁
  have hfirst₃ : s₃.heapFirstBlock = kernelBase := by rw [hst.heapFirstBlock, ← hs₂]; exact hstart₁
  have hwrap : (kernelBase + 4 * 1024 * 1024) % 2 ^ 64 = kernelBase + 4 * 1024 * 1024 := by decide
  refine ⟨{ s₃ with heapEnd := kernelBase + 4 * 1024 * 1024 }, ?_, ?_,
    ⟨hfr₃.aligned, hfr₃.bound, hfr₃.fresh⟩, ?_⟩
  · rw [initHeap, if_neg (fun hne => hne h.first), h.start, hrun]
    dsimp only
    rw [hs₂, hstart₁, hs₃, ← hwrap, ← hstart₃]
    rfl
  · refine ⟨hst.ok, hstart₃, hfirst₃, rfl, by dsimp only; decide, by dsimp only; decide, ?_, ?_⟩
    · rw [hst.view_eq]
      exact ⟨hhead, trivial⟩
    · intro x hlo hhi
      rw [hst.flags, hmach]
      exact (hflags x hlo hhi).1
  · have hmapped : Untouched M s s₁ fun x => ¬ (kernelBase ≤ x ∧ x < kernelBase + 4096 * 1024) :=
      hmap.untouched (by decide) (by decide) fun x hlo hhi hout => hout ⟨hlo, hhi⟩
    have hstored := hst.untouched (K := fun x => ¬ (kernelBase ≤ x ∧ x < kernelBase + 4096 * 1024))
      fun x hx hout => hout ⟨hx.1, by omega⟩
    exact ((hmapped.of_eq hmach (by rw [← hs₂])).trans hstored).of_eq rfl rfl

/-- Without room for the 4 MiB the heap stays uncreated; otherwise it is one
free block. -/
theorem initHeap_spec (h : Represents L s bs) (hfr : FramesOk L s) :
    ∃ done s', initHeap M s = some (done, s') ∧ s'.nextFreePage % 4096 = 0 ∧
      s'.nextFreePage < 2 ^ 64 ∧ Untouched M s s' (Guarded bs) ∧
      (done = false → Represents L s' bs) ∧
      (done = true → Represents L s' (opened bs) ∧ FramesOk L s') := by
  by_cases hbs : bs = []
  · subst hbs
    cases hrun : s.mapPages M heapFlags kernelBase 0 1024 with
    | mk done s₁ =>
      cases done with
      | false =>
          obtain ⟨hs₁, hrep, hal, hbd, hunt⟩ := initHeap_failed h hfr hrun
          exact ⟨false, s₁, hs₁, hal, hbd, hunt.mono fun x => outside_of_guarded_nil, fun _ => hrep,
            nofun⟩
      | true =>
          obtain ⟨s', hs', hrep, hfr', hunt⟩ := initHeap_mapped h hfr hrun
          exact ⟨true, s', hs', hfr'.aligned, hfr'.bound, hunt.mono fun x => outside_of_guarded_nil,
            nofun, fun _ => ⟨hrep, hfr'⟩⟩
  · have hne : s.heapFirstBlock ≠ 0 := by
      rw [h.first, link_ne_nil hbs]
      decide
    refine ⟨true, s, by rw [initHeap, if_pos hne], hfr.aligned, hfr.bound, Untouched.refl M s _,
      nofun, fun _ => ⟨?_, hfr⟩⟩
    rw [opened, if_neg hbs]
    exact h

/-- New pages become a free block behind the last one. -/
theorem extendHeap_mapped (h : Represents L s bs) (hbs : bs ≠ []) (hfr : FramesOk L s)
    (hstop : StopsAt L kernelBase (heapLimit + 1)) {n : Nat} (hn : n ≤ sizeLimit) {s₁ : MemState σ}
    (hrun : s.mapPages M heapFlags s.heapEnd 0 (pagesNeeded n) = (true, s₁)) :
    ∃ s', extendHeap M s n = some (some s.heapEnd, s') ∧
      Represents L s' (bs ++ [⟨4096 * pagesNeeded n - 24, true⟩]) ∧ FramesOk L s' ∧
      Untouched M s s' (Guarded bs) := by
  obtain ⟨pre, b, rfl⟩ : ∃ pre b, bs = pre ++ [b] := by
    rcases List.eq_nil_or_concat bs with rfl | ⟨pre, b, rfl⟩
    · exact absurd rfl hbs
    · exact ⟨pre, b, List.concat_eq_append⟩
  have hpages := pagesNeeded_spec hn
  have hend := h.end_eq
  have hlo : kernelBase ≤ s.heapEnd := by omega
  have hlimit : heapLimit + 1 ≤ 2 ^ 64 - 4096 := by decide
  obtain ⟨hmap, hdone⟩ := mapPages_all kernelBase (heap_pageRange hlo h.aligned) (by decide) h.below
    (Or.inr ⟨hstop, h.mapped⟩) h.ok hfr hrun
  obtain ⟨hfits, hfr₁, hflags⟩ := hdone rfl
  have hrep₁ := h.of_mapping hmap
  have hend₁ := hmap.heapEnd
  generalize hk : pagesNeeded n = k at *
  have hm₁ : Mapped M s₁.mach s.heapEnd (s.heapEnd + 24) := by
    intro x hx hx'
    rw [← L.flags_isSome, (hflags x hx (by omega)).1]
    rfl
  -- The new header is written while the old list is still complete.
  obtain ⟨s₂, m, hs₂, hst₂, hhead⟩ := newFreeBlock_spec (4096 * k - 24) hmap.ok hm₁ (by omega)
  have hrep₂ : Represents L s₂ (pre ++ [b]) := by
    refine hrep₁.of_stores hst₂ (hrep₁.layout.congr fun x _ hx => hst₂.keep x ?_) rfl hbs hbs
    omega
  have hfr₂ := framesOk_of_stores hfr₁ hst₂
  have hlast := findLast_eq hrep₂.layout hrep₂.holds.mapped hrep₂.holds.pos hrep₂.holds.fuel_front
  obtain ⟨s₃, hs₃, hst₃⟩ := setBlockNext_spec s.heapEnd hrep₂.ok hrep₂.holds.mapped_header
  have hfr₃ := framesOk_of_stores hfr₂ hst₃
  have hspan : kernelBase + span pre + (24 + b.size) = s.heapEnd := by
    rw [hend]
    simp only [span_append, span_cons, span_nil]
    omega
  have hend₃ : s₃.heapEnd = s.heapEnd := by rw [hst₃.heapEnd, hst₂.heapEnd, hend₁]
  have hfirst₂ : s₂.heapFirstBlock = kernelBase := by rw [hrep₂.first, link_append]
  refine ⟨{ s₃ with heapEnd := s.heapEnd + 4096 * k }, ?_, ?_,
    ⟨hfr₃.aligned, hfr₃.bound, hfr₃.fresh⟩, ?_⟩
  · have hsize : (4096 * k + 2 ^ 64 - 24) % 2 ^ 64 = 4096 * k - 24 := by omega
    have hnew : (s.heapEnd + 4096 * k) % 2 ^ 64 = s.heapEnd + 4096 * k :=
      Nat.mod_eq_of_lt (by omega)
    rw [extendHeap, hk, hrun]
    dsimp only
    rw [hend₁, hsize, hs₂]
    simp only [Option.bind_eq_bind, Option.bind_some, hfirst₂, hlast, hs₃, hend₃, hnew]
    rfl
  · have halign := h.aligned
    refine ⟨hst₃.ok, by rw [hst₃.vars]; exact hrep₂.start, ?_, ?_, by dsimp only; omega,
      by dsimp only; omega, ?_, ?_⟩
    · dsimp only
      rw [hst₃.heapFirstBlock, hfirst₂, link_append]
    · simp only [span_append, span_cons, span_nil] at hend ⊢
      omega
    · rw [List.append_assoc, List.singleton_append]
      refine (layout_append (by simp)).mpr ⟨?_, ?_, ?_, trivial⟩
      · rw [hst₃.view_eq]
        exact hrep₂.layout.segment.congr fun x _ hx => hst₃.keep x (by omega)
      · rw [hst₃.view_eq, link_ne_nil (List.cons_ne_nil _ _), Block.extent, hspan]
        exact hrep₂.layout.header.writeNext (by omega)
      · rw [hst₃.view_eq, Block.extent, hspan]
        refine hhead.congr fun x hx _ => ?_
        rw [hst₃.keep x (by omega), hst₂.view_eq]
    · intro x hx hx'
      dsimp only at hx' ⊢
      rw [hst₃.flags, hst₂.flags]
      by_cases hold : x < s.heapEnd
      · exact hrep₁.flags x hx (by omega)
      · exact (hflags x (by omega) hx').1
  · have halign := h.aligned
    have hunt₁ : Untouched M s s₁ (Guarded (pre ++ [b])) :=
      hmap.untouched halign (by omega) fun x hx _ hp => by
        have := h.guarded_below hp
        omega
    have hunt₂ : Untouched M s₁ s₂ (Guarded (pre ++ [b])) :=
      hst₂.untouched fun x hx hp => by
        have := h.guarded_below hp
        omega
    have hunt₃ : Untouched M s₂ s₃ (Guarded (pre ++ [b])) :=
      hst₃.untouched fun x hx => not_guarded_of_header (headerByte_mid hx.1 hx.2)
    exact ((hunt₁.trans hunt₂).trans hunt₃).of_eq rfl rfl

/-- An extension that fails leaves the heap as it was. -/
theorem extendHeap_failed (h : Represents L s bs) (hfr : FramesOk L s)
    (hstop : StopsAt L kernelBase (heapLimit + 1)) {n : Nat} {s₁ : MemState σ}
    (hrun : s.mapPages M heapFlags s.heapEnd 0 (pagesNeeded n) = (false, s₁)) :
    extendHeap M s n = some (none, s₁) ∧ Represents L s₁ bs ∧ s₁.nextFreePage % 4096 = 0 ∧
      s₁.nextFreePage < 2 ^ 64 ∧
      Untouched M s s₁ fun x => ¬ (s.heapEnd ≤ x ∧ x < s.heapEnd + 4096 * pagesNeeded n) := by
  have hlo : kernelBase ≤ s.heapEnd := by
    rw [h.end_eq]
    omega
  have halign := h.aligned
  obtain ⟨hmap, -⟩ := mapPages_all kernelBase (heap_pageRange hlo h.aligned) (by decide) h.below (Or.inr ⟨hstop, h.mapped⟩)
    h.ok hfr hrun
  exact ⟨by rw [extendHeap, hrun], h.of_mapping hmap, hmap.aligned, hmap.bound,
    hmap.untouched halign (by omega) fun x hx hx' hout => hout ⟨hx, hx'⟩⟩

/-! ## The two operations -/

theorem opened_used (bs : List Block) : used kernelBase (opened bs) = used kernelBase bs := by
  by_cases hbs : bs = []
  · subst hbs
    rfl
  · rw [opened, if_neg hbs]

theorem opened_ne_nil (bs : List Block) : opened bs ≠ [] := by
  by_cases hbs : bs = []
  · rw [opened, if_pos hbs]
    simp
  · rw [opened, if_neg hbs]
    exact hbs

theorem guarded_opened (bs : List Block) (x : Nat) : Guarded (opened bs) x ↔ Guarded bs x := by
  simp only [Guarded, PayloadByte, opened_used]

theorem takeBlock_represents {pre post : List Block} {b : Block} {n : Nat}
    (h : Represents L s (pre ++ b :: post)) (hn : n ≤ b.size) :
    ∃ s' m, takeBlock M s (kernelBase + span pre) n = some (kernelBase + span pre + 24, s') ∧
      Stores L s s' m (fun x => kernelBase + span pre ≤ x ∧
        x < kernelBase + span pre + (24 + b.size)) ∧
      Represents L s' (pre ++ (b.take n ++ post)) := by
  have hbounds := h.holds.bounds
  obtain ⟨s', m, hs', hst, hlay⟩ := takeBlock_spec n h.holds (by omega)
  refine ⟨s', m, hs', hst, h.of_stores hst hlay ?_ (by simp) ?_⟩
  · simp only [span_append, span_take, span_cons]
  · unfold Block.take
    split <;> simp

/-- A free block is nobody's payload. -/
theorem untouched_of_take {pre : List Block} {b : Block} (post : List Block) {s' : MemState σ}
    {m : Mem} (hb : b.free = true) (hst : Stores L s s' m (fun x => kernelBase + span pre ≤ x ∧
      x < kernelBase + span pre + (24 + b.size))) :
    Untouched M s s' (Guarded (pre ++ b :: post)) :=
  hst.untouched fun x hx => not_guarded (by omega) (not_payload_of_free hb hx.1 hx.2)

section Search

variable {size : Nat}

theorem initHeap_created (h : s.heapFirstBlock ≠ 0) : initHeap M s = some (true, s) := if_pos h

/-- With the heap created on the way, the rest of `kmalloc` runs on the created heap. -/
theorem kmalloc_opened {s₁ : MemState σ} (hs : initHeap M s = some (true, s₁))
    (hfirst : s₁.heapFirstBlock ≠ 0) : kmalloc M s size = kmalloc M s₁ size := by
  simp only [kmalloc, hs, initHeap_created hfirst]

theorem kmalloc_uncreated {s₁ : MemState σ} (hs : initHeap M s = some (false, s₁)) :
    kmalloc M s size = some (0, s₁) := by
  simp [kmalloc, hs]

theorem Represents.first_ne_zero (h : Represents L s bs) (hbs : bs ≠ []) :
    s.heapFirstBlock ≠ 0 := by
  rw [h.first, link_ne_nil hbs]
  decide

/-- What the search of `kmalloc` ends with on a created heap. -/
theorem Represents.findBest (h : Represents L s bs) (n : Nat) :
    ∃ best, Candidate M s.mach best (bestFit n (placed kernelBase bs)) ∧
      findBest M s.mach n walkFuel s.heapFirstBlock 0 = some best := by
  have hstart : Candidate M s.mach 0 none := rfl
  rw [h.first]
  exact findBest_eq n h.layout h.holds.mapped h.holds.pos h.holds.fuel hstart

theorem kmalloc_found (h : Represents L s bs) (hbs : bs ≠ []) {x : Nat × Block}
    (hbest : bestFit (roundSize size) (placed kernelBase bs) = some x) :
    kmalloc M s size = takeBlock M s x.1 (roundSize size) := by
  obtain ⟨best, hcand, hfind⟩ := h.findBest (roundSize size)
  rw [hbest] at hcand
  obtain ⟨rfl, hne, -⟩ := hcand
  simp only [kmalloc, initHeap_created (h.first_ne_zero hbs), hfind, Option.bind_eq_bind,
    Option.bind_some, if_neg hne]

theorem kmalloc_missed (h : Represents L s bs) (hbs : bs ≠ [])
    (hbest : bestFit (roundSize size) (placed kernelBase bs) = none) :
    kmalloc M s size = (extendHeap M s (roundSize size)).bind fun r =>
      match r with
      | (none, s) => some (0, s)
      | (some block, s) => takeBlock M s block (roundSize size) := by
  obtain ⟨best, hcand, hfind⟩ := h.findBest (roundSize size)
  rw [hbest] at hcand
  have hzero : best = 0 := hcand
  subst hzero
  simp only [kmalloc, initHeap_created (h.first_ne_zero hbs), hfind, Option.bind_eq_bind,
    Option.bind_some, if_true]
  rfl

/-- A best fit exists as soon as some block fits, and it is one of the blocks. -/
theorem bestFit_split {n : Nat} {x : Nat × Block}
    (hbest : bestFit n (placed kernelBase bs) = some x) :
    ∃ pre b post, bs = pre ++ b :: post ∧ x = (kernelBase + span pre, b) ∧
      IsBestFit n (placed kernelBase bs) (some (kernelBase + span pre, b)) := by
  have hfit := bestFit_isBestFit n (placed kernelBase bs)
  rw [hbest] at hfit
  obtain ⟨q, b⟩ := x
  have hmem : (q, b) ∈ placed kernelBase bs := by
    obtain ⟨-, before, after, heq, -⟩ := hfit
    rw [heq]
    simp
  obtain ⟨pre, post, hlist, rfl⟩ := placed_split hmem
  exact ⟨pre, b, post, hlist, rfl, hfit⟩

/-- The best fit is taken, by stores inside that block. -/
theorem kmalloc_fits (h : Represents L s bs) (hbs : bs ≠ []) {x : Nat × Block}
    (hbest : bestFit (roundSize size) (placed kernelBase bs) = some x) :
    ∃ pre b post s' m, bs = pre ++ b :: post ∧ x = (kernelBase + span pre, b) ∧
      IsBestFit (roundSize size) (placed kernelBase bs) (some (kernelBase + span pre, b)) ∧
      kmalloc M s size = some (kernelBase + span pre + 24, s') ∧
      Stores L s s' m (fun x => kernelBase + span pre ≤ x ∧
        x < kernelBase + span pre + (24 + b.size)) ∧
      Represents L s' (pre ++ (b.take (roundSize size) ++ post)) := by
  obtain ⟨pre, b, post, hlist, rfl, hfit⟩ := bestFit_split hbest
  obtain ⟨s', m, htake, hst, hrep⟩ := takeBlock_represents (hlist ▸ h) hfit.1.2
  exact ⟨pre, b, post, s', m, hlist, rfl, hfit, (kmalloc_found h hbs hbest).trans htake, hst, hrep⟩

/-- An extension that fails ends `kmalloc` with `NULL`. -/
theorem kmalloc_refused (h : Represents L s bs) (hbs : bs ≠ []) {s₁ : MemState σ}
    (hbest : bestFit (roundSize size) (placed kernelBase bs) = none)
    (hrun : s.mapPages M heapFlags s.heapEnd 0 (pagesNeeded (roundSize size)) = (false, s₁)) :
    kmalloc M s size = some (0, s₁) := by
  rw [kmalloc_missed h hbs hbest, extendHeap, hrun]
  rfl

theorem kmalloc_extends (h : Represents L s bs) (hbs : bs ≠ []) (hfr : FramesOk L s)
    (hstop : StopsAt L kernelBase (heapLimit + 1)) (hsize : size ≤ sizeLimit) {s₁ : MemState σ}
    (hbest : bestFit (roundSize size) (placed kernelBase bs) = none)
    (hrun : s.mapPages M heapFlags s.heapEnd 0 (pagesNeeded (roundSize size)) = (true, s₁)) :
    ∃ s', kmalloc M s size = some (s.heapEnd + 24, s') ∧ FramesOk L s' ∧
      Untouched M s s' (Guarded bs) ∧
      Represents L s' (bs ++ Block.take ⟨4096 * pagesNeeded (roundSize size) - 24, true⟩
        (roundSize size)) := by
  obtain ⟨-, hround, -⟩ := roundSize_spec hsize
  have hpages := pagesNeeded_spec hround
  obtain ⟨s₂, hext, hrep₂, hfr₂, hunt₂⟩ := extendHeap_mapped h hbs hfr hstop hround hrun
  have hroom : roundSize size ≤ 4096 * pagesNeeded (roundSize size) - 24 := by omega
  obtain ⟨s₃, m, htake, hst, hrep₃⟩ := takeBlock_represents hrep₂ hroom
  rw [List.append_nil] at hrep₃
  rw [← h.end_eq] at htake
  refine ⟨s₃, ?_, framesOk_of_stores hfr₂ hst, ?_, hrep₃⟩
  · rw [kmalloc_missed h hbs hbest, hext]
    exact htake
  · refine hunt₂.trans ((untouched_of_take [] rfl hst).mono ?_)
    rintro x (hx | ⟨p, cap, hmem, hx⟩)
    · exact Or.inl hx
    · exact Or.inr ⟨p, cap, by rw [used_append]; simp [hmem], hx⟩

end Search

/-- `kmalloc` returns. A null result leaves the blocks in use alone; any other
result is the payload of a block allocated by best fit. -/
theorem kmalloc_spec (h : Represents L s bs) (hfr : FramesOk L s)
    (hstop : StopsAt L kernelBase (heapLimit + 1)) {size : Nat} (hsize : size ≤ sizeLimit) :
    ∃ p s', kmalloc M s size = some (p, s') ∧ s'.nextFreePage % 4096 = 0 ∧
      s'.nextFreePage < 2 ^ 64 ∧ Untouched M s s' (Guarded bs) ∧
      ((p = 0 ∧ (Represents L s' bs ∨ Represents L s' (opened bs))) ∨
        (FramesOk L s' ∧ ∃ bs', Allocates (roundSize size) (opened bs) bs' p ∧
          Represents L s' bs')) := by
  obtain ⟨-, hround, -⟩ := roundSize_spec hsize
  obtain ⟨done, s₁, hs₁, hal, hbd, hunt₁, hfail, hdone⟩ := initHeap_spec h hfr
  cases done with
  | false => exact ⟨0, s₁, kmalloc_uncreated hs₁, hal, hbd, hunt₁, Or.inl ⟨rfl, Or.inl (hfail rfl)⟩⟩
  | true =>
    obtain ⟨hrep, hfr₁⟩ := hdone rfl
    have hopened := opened_ne_nil bs
    rw [kmalloc_opened hs₁ (hrep.first_ne_zero hopened)]
    cases hbest : bestFit (roundSize size) (placed kernelBase (opened bs)) with
    | none =>
      have hfit := bestFit_isBestFit (roundSize size) (placed kernelBase (opened bs))
      rw [hbest] at hfit
      cases hrun : s₁.mapPages M heapFlags s₁.heapEnd 0 (pagesNeeded (roundSize size)) with
      | mk done s₂ =>
        cases done with
        | false =>
          obtain ⟨-, hrep₂, hal₂, hbd₂, hunt₂⟩ := extendHeap_failed hrep hfr₁ hstop hrun
          refine ⟨0, s₂, kmalloc_refused hrep hopened hbest hrun, hal₂, hbd₂, hunt₁.trans ?_,
            Or.inl ⟨rfl, Or.inr hrep₂⟩⟩
          refine hunt₂.mono fun x hx hin => ?_
          have hbelow := hrep.guarded_below ((guarded_opened bs x).mpr hx)
          omega
        | true =>
          have hpages := pagesNeeded_spec hround
          obtain ⟨s₃, hret, hfr₃, hunt₃, hrep₃⟩ :=
            kmalloc_extends hrep hopened hfr₁ hstop hsize hbest hrun
          refine ⟨_, s₃, hret, hfr₃.aligned, hfr₃.bound, hunt₁.trans ?_, Or.inr ⟨hfr₃, _,
            ⟨opened bs, _, [], rfl, ?_, ?_, rfl, Or.inr ⟨rfl, rfl, rfl, hfit⟩⟩, ?_⟩⟩
          · exact hunt₃.mono fun x hx => (guarded_opened bs x).mpr hx
          · dsimp only
            omega
          · rw [hrep.end_eq]
          · rw [List.append_nil]
            exact hrep₃
    | some x =>
      obtain ⟨pre, b, post, s₂, m, hlist, -, hfit, hret, hst, hrep₂⟩ := kmalloc_fits hrep hopened hbest
      have hfr₂ := framesOk_of_stores hfr₁ hst
      refine ⟨_, s₂, hret, hfr₂.aligned, hfr₂.bound,
        hunt₁.trans ((untouched_of_take post hfit.1.1 hst).mono fun x hx => ?_),
        Or.inr ⟨hfr₂, _, ⟨pre, b, post, hfit.1.1, hfit.1.2, rfl, rfl, Or.inl ⟨hlist, hfit⟩⟩, hrep₂⟩⟩
      rw [← hlist]
      exact (guarded_opened bs x).mpr hx

/-- `kfree` of a block in use returns and writes block headers only. -/
theorem kfree_spec {pre post : List Block} {b : Block} (h : Represents L s (pre ++ b :: post))
    (hfr : FramesOk L s) :
    ∃ s', kfree M s (kernelBase + span pre + 24) = some s' ∧
      Represents L s' (release pre b post) ∧ FramesOk L s' ∧
      Untouched M s s' (Guarded (pre ++ b :: post)) := by
  obtain ⟨s', m, hs', hst, hlay, -⟩ := kfree_holds h.holds (by rw [h.first, link_append])
  refine ⟨s', hs', h.of_stores hst hlay (span_release pre b post) (by simp) ?_,
    framesOk_of_stores hfr hst, hst.untouched fun x => not_guarded_of_header⟩
  intro hnil
  have := span_release pre b post
  rw [hnil] at this
  simp only [span_append, span_cons, span_nil] at this
  omega

end Kaviz.Heap
