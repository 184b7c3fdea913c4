import Kaviz.Heap.Layout

/-! # The allocator on block lists

Each piece of `kmalloc` and `kfree` is run on memory laid out as a block list.
It returns, it writes only where it is said to write, and it leaves the layout
of the list its abstract counterpart computes.
-/

namespace Kaviz.Heap

open Bytes Memory

variable {σ : Type} {M : Machine σ} {L : Lawful M} {s : MemState σ}
variable {base q : Nat} {b : Block} {pre post : List Block}

/-! ## Header stores -/

theorem storeHeader_spec (off : Nat) {n : Nat} (v : Nat) (hok : L.Ok s.mach)
    (hm : Mapped M s.mach q (q + 24)) (hn : off + n ≤ 24) :
    ∃ s', s.storeLE M (q + off) n v = some s' ∧
      Stores L s s' (writeLE (view M s.mach) (q + off) n v) (fun x => q ≤ x ∧ x < q + 24) := by
  obtain ⟨s', hs, hst⟩ := storeLE_spec (a := q + off) (n := n) v hok
    (hm.mono (by omega) (by omega))
  exact ⟨s', hs, hst.mono fun x hx => by omega⟩

theorem setBlockSize_spec (v : Nat) (hok : L.Ok s.mach) (hm : Mapped M s.mach q (q + 24)) :
    ∃ s', setBlockSize M s q v = some s' ∧
      Stores L s s' (writeLE (view M s.mach) q 8 v) (fun x => q ≤ x ∧ x < q + 24) :=
  storeHeader_spec 0 v hok hm (by omega)

theorem setBlockNext_spec (v : Nat) (hok : L.Ok s.mach) (hm : Mapped M s.mach q (q + 24)) :
    ∃ s', setBlockNext M s q v = some s' ∧
      Stores L s s' (writeLE (view M s.mach) (q + 8) 8 v) (fun x => q ≤ x ∧ x < q + 24) :=
  storeHeader_spec 8 v hok hm (by omega)

theorem setBlockFree_spec (v : Nat) (hok : L.Ok s.mach) (hm : Mapped M s.mach q (q + 24)) :
    ∃ s', setBlockFree M s q v = some s' ∧
      Stores L s s' (writeLE (view M s.mach) (q + 16) 4 v) (fun x => q ≤ x ∧ x < q + 24) :=
  storeHeader_spec 16 v hok hm (by omega)

/-! ## Memory holding a block list -/

/-- Accessible memory laid out as the blocks `bs` from `base` on, all of it at
addresses below the last page. -/
structure Holds (L : Lawful M) (s : MemState σ) (base : Nat) (bs : List Block) : Prop where
  ok : L.Ok s.mach
  layout : Layout (view M s.mach) base bs
  mapped : Mapped M s.mach base (base + span bs)
  pos : base ≠ 0
  below : base + span bs ≤ 2 ^ 64 - 4096

namespace Holds

theorem mapped_header (h : Holds L s base (pre ++ b :: post)) :
    Mapped M s.mach (base + span pre) (base + span pre + 24) := by
  refine h.mapped.mono (by omega) ?_
  simp only [span_append, span_cons]
  omega

theorem bounds (h : Holds L s base (pre ++ b :: post)) :
    base + span pre + (24 + b.size) ≤ 2 ^ 64 - 4096 := by
  have hb := h.below
  simp only [span_append, span_cons] at hb
  omega

theorem link_lt (h : Holds L s base (pre ++ b :: post)) :
    link (base + span pre + b.extent) post < 2 ^ 64 := by
  have hb := h.bounds
  cases post with
  | nil => exact Nat.two_pow_pos 64
  | cons c post =>
      simp only [link, Block.extent]
      omega

theorem fuel {bs : List Block} (h : Holds L s base bs) : bs.length < walkFuel := by
  have hlen := length_le_span bs
  have hb := h.below
  rw [walkFuel]
  omega

theorem fuel_front (h : Holds L s base (pre ++ post)) : pre.length < walkFuel := by
  have hlen := h.fuel
  rw [List.length_append] at hlen
  omega

/-- After stores that leave the layout of another list of the same extent. -/
theorem of_stores {bs bs' : List Block} {s' : MemState σ} {m : Mem} {W : Nat → Prop}
    (h : Holds L s base bs) (hst : Stores L s s' m W) (hlay : Layout m base bs')
    (hspan : span bs' = span bs) : Holds L s' base bs' :=
  ⟨hst.ok, hst.view_eq ▸ hlay, hspan ▸ hst.mapped h.mapped, h.pos, hspan ▸ h.below⟩

/-- Blocks rewritten in place: only the new middle has to be checked. -/
theorem layout_replace (mid mid' : List Block) {m : Mem}
    (h : Holds L s base (pre ++ (mid ++ post)))
    (hkeep : ∀ x, ¬ (base + span pre ≤ x ∧ x < base + span pre + span mid) →
      m x = view M s.mach x)
    (hmid : mid ≠ []) (hmid' : mid' ≠ [])
    (hlay : Layout m (base + span pre + span mid) post → Layout m (base + span pre) (mid' ++ post)) :
    Layout m base (pre ++ (mid' ++ post)) := by
  obtain ⟨hseg, hrest⟩ := (layout_append (by simp [hmid])).mp h.layout
  have hseg' : Segment m base pre := hseg.congr fun x _ hx => hkeep x (by omega)
  refine (layout_append (by simp [hmid'])).mpr ⟨hseg', hlay ?_⟩
  cases post with
  | nil => trivial
  | cons c post =>
      exact ((layout_append (by simp)).mp hrest).2.congr fun x hx _ => hkeep x (by omega)

end Holds

/-! ## Taking a block -/

theorem takeBlock_whole {size : Nat} (h : Holds L s base (pre ++ b :: post))
    (hsize : b.size ≤ size + 24 + 16) (hsmall : size + 24 + 16 < 2 ^ 64) :
    ∃ s' m, takeBlock M s (base + span pre) size = some (base + span pre + 24, s') ∧
      Stores L s s' m (fun x => base + span pre ≤ x ∧ x < base + span pre + (24 + b.size)) ∧
      Layout m base (pre ++ ([{ b with free := false }] ++ post)) := by
  have hhead := h.layout.header
  obtain ⟨s₁, hs₁, hst₁⟩ := setBlockFree_spec 0 h.ok h.mapped_header
  refine ⟨s₁, _, ?_, hst₁.mono fun x hx => by omega, ?_⟩
  · simp only [takeBlock, blockSize_eq hhead h.mapped_header, Option.bind_eq_bind, Option.bind_some,
      Nat.mod_eq_of_lt hsmall, if_pos hsize, hs₁]
    rfl
  · refine Holds.layout_replace [b] _ h (fun x hx => hst₁.keep x fun hw => hx ?_)
      (by simp) (by simp) fun hpost => ?_
    · simp only [span_cons, span_nil]
      omega
    · exact ⟨hhead.writeFree false, hpost⟩

theorem takeBlock_split {size : Nat} (h : Holds L s base (pre ++ b :: post))
    (hsize : ¬ b.size ≤ size + 24 + 16) (hsmall : size + 24 + 16 < 2 ^ 64) :
    ∃ s' m, takeBlock M s (base + span pre) size = some (base + span pre + 24, s') ∧
      Stores L s s' m (fun x => base + span pre ≤ x ∧ x < base + span pre + (24 + b.size)) ∧
      Layout m base (pre ++ ([⟨size, false⟩, ⟨b.size - size - 24, true⟩] ++ post)) := by
  have hhead := h.layout.header
  have hbounds := h.bounds
  have hmq := h.mapped_header
  have hlink := h.link_lt
  have hmap : Mapped M s.mach base (base + span (pre ++ b :: post)) := h.mapped
  simp only [span_append, span_cons] at hmap
  generalize hq : base + span pre = q at *
  -- The header of the remainder lies inside the payload of the old block.
  have hmn : Mapped M s.mach (q + 24 + size) (q + 24 + size + 24) := hmap.mono (by omega) (by omega)
  have hnew : (q + 24 + size) % 2 ^ 64 = q + 24 + size := Nat.mod_eq_of_lt (by omega)
  have hrem : (b.size + 2 * 2 ^ 64 - size - 24) % 2 ^ 64 = b.size - size - 24 := by omega
  obtain ⟨s₁, hs₁, hst₁⟩ := setBlockSize_spec (b.size - size - 24) h.ok hmn
  have hhead₁ : Header (view M s₁.mach) q b (link (q + b.extent) post) := by
    rw [hst₁.view_eq]
    exact hhead.congr fun x _ hx => hst₁.keep x (by omega)
  have hnext₁ := blockNext_eq hhead₁ (hst₁.mapped hmq)
  obtain ⟨s₂, hs₂, hst₂⟩ := setBlockNext_spec (link (q + b.extent) post) hst₁.ok (hst₁.mapped hmn)
  have hst₂ := hst₁.trans hst₂
  obtain ⟨s₃, hs₃, hst₃⟩ := setBlockFree_spec 1 hst₂.ok (hst₂.mapped hmn)
  have hst₃ := hst₂.trans hst₃
  have hrest : Header (view M s₃.mach) (q + 24 + size) ⟨b.size - size - 24, true⟩
      (link (q + b.extent) post) := by
    rw [hst₃.view_eq, hst₂.view_eq, hst₁.view_eq]
    exact header_fresh _ _ (by omega) hlink
  have hhead₃ : Header (view M s₃.mach) q b (link (q + b.extent) post) := by
    rw [hst₃.view_eq]
    exact hhead.congr fun x _ hx => hst₃.keep x (by omega)
  obtain ⟨s₄, hs₄, hst₄⟩ := setBlockSize_spec size hst₃.ok (hst₃.mapped hmq)
  obtain ⟨s₅, hs₅, hst₅⟩ := setBlockNext_spec (q + 24 + size) hst₄.ok
    (hst₄.mapped (hst₃.mapped hmq))
  have hst₅ := hst₄.trans hst₅
  obtain ⟨s₆, hs₆, hst₆⟩ := setBlockFree_spec 0 hst₅.ok (hst₅.mapped (hst₃.mapped hmq))
  have hst₆ := hst₅.trans hst₆
  have hhead₆ : Header (view M s₆.mach) q ⟨size, false⟩ (q + 24 + size) := by
    rw [hst₆.view_eq, hst₅.view_eq, hst₄.view_eq]
    exact ((hhead₃.writeSize (v := size) (by omega)).writeNext (by omega)).writeFree false
  have hrest₆ : Header (view M s₆.mach) (q + 24 + size) ⟨b.size - size - 24, true⟩
      (link (q + b.extent) post) := by
    rw [hst₆.view_eq]
    exact hrest.congr fun x hx _ => hst₆.keep x (by omega)
  have hnew₃ : Stores L s s₃ _ fun x => q ≤ x ∧ x < q + (24 + b.size) :=
    hst₃.mono fun x hx => by omega
  have hall := hnew₃.trans (hst₆.mono fun x hx => by omega)
  refine ⟨s₆, view M s₆.mach, ?_, hst₆.view_eq ▸ hall, ?_⟩
  · simp only [takeBlock, blockSize_eq hhead hmq, Option.bind_eq_bind, Option.bind_some,
      Nat.mod_eq_of_lt hsmall, if_neg hsize, hnew, hrem, hs₁, hnext₁, hs₂, hs₃, hs₄, hs₅, hs₆]
    rfl
  · refine Holds.layout_replace [b] _ h (fun x hx => ?_) (by simp) (by simp) fun hpost => ?_
    · rw [hst₆.view_eq]
      refine hall.keep x fun hw => hx ?_
      simp only [span_cons, span_nil, hq]
      omega
    · have hend : q + 24 + size + Block.extent ⟨b.size - size - 24, true⟩ = q + b.extent := by
        simp only [Block.extent]
        omega
      have hmid : q + Block.extent ⟨size, false⟩ = q + 24 + size := by
        simp only [Block.extent]
        omega
      rw [hq] at hpost ⊢
      simp only [List.cons_append, List.nil_append, Layout, hmid, hend]
      exact ⟨hhead₆, hrest₆, by simpa [Block.extent] using hpost⟩

/-- Taking bytes from a block writes inside that block only. -/
theorem takeBlock_spec (size : Nat) (h : Holds L s base (pre ++ b :: post))
    (hsmall : size + 24 + 16 < 2 ^ 64) :
    ∃ s' m, takeBlock M s (base + span pre) size = some (base + span pre + 24, s') ∧
      Stores L s s' m (fun x => base + span pre ≤ x ∧ x < base + span pre + (24 + b.size)) ∧
      Layout m base (pre ++ (b.take size ++ post)) := by
  by_cases hsize : b.size ≤ size + 24 + 16
  · rw [Block.take, if_pos hsize]
    exact takeBlock_whole h hsize hsmall
  · rw [Block.take, if_neg hsize]
    exact takeBlock_split h hsize hsmall

/-! ## Joining blocks -/

/-- The stores by which a block absorbs the one behind it. -/
theorem join_spec {c : Block} (h : Holds L s base (pre ++ b :: c :: post)) :
    ∃ s₁ s₂ m after,
      setBlockSize M s (base + span pre) ((b.size + (24 + c.size)) % 2 ^ 64) = some s₁ ∧
      blockNext M s₁.mach (base + span pre + b.extent) = some after ∧
      setBlockNext M s₁ (base + span pre) after = some s₂ ∧
      Stores L s s₂ m (fun x => base + span pre ≤ x ∧ x < base + span pre + 24) ∧
      Layout m base (pre ++ ⟨b.size + (24 + c.size), b.free⟩ :: post) := by
  have h' : Holds L s base ((pre ++ [b]) ++ c :: post) := by simpa using h
  have hq' : base + span (pre ++ [b]) = base + span pre + b.extent := by
    simp only [span_append, span_cons, span_nil, Block.extent]
    omega
  have hhead := h.layout.header
  have hnextHead := h'.layout.header
  have hbounds := h'.bounds
  have hlink := h'.link_lt
  have hmc := h'.mapped_header
  have hmq := h.mapped_header
  rw [hq'] at hnextHead hbounds hlink hmc
  simp only [Block.extent] at hbounds
  have hsum : (b.size + (24 + c.size)) % 2 ^ 64 = b.size + (24 + c.size) :=
    Nat.mod_eq_of_lt (by omega)
  obtain ⟨s₁, hs₁, hst₁⟩ := setBlockSize_spec (b.size + (24 + c.size)) h.ok hmq
  have hnext₁ : Header (view M s₁.mach) (base + span pre + b.extent) c
      (link (base + span pre + b.extent + c.extent) post) := by
    rw [hst₁.view_eq]
    refine hnextHead.congr fun x hx _ => hst₁.keep x ?_
    simp only [Block.extent] at hx
    omega
  obtain ⟨s₂, hs₂, hst₂⟩ := setBlockNext_spec
    (link (base + span pre + b.extent + c.extent) post) hst₁.ok (hst₁.mapped hmq)
  refine ⟨s₁, s₂, _, _, by rw [hsum]; exact hs₁, blockNext_eq hnext₁ (hst₁.mapped hmc), hs₂,
    hst₁.trans hst₂, ?_⟩
  refine Holds.layout_replace [b, c] [⟨b.size + (24 + c.size), b.free⟩] h
    (fun x hx => (hst₁.trans hst₂).keep x fun hw => hx ?_) (by simp) (by simp) fun hpost => ?_
  · simp only [span_cons, span_nil]
    omega
  · have hend : base + span pre + b.extent + c.extent =
        base + span pre + Block.extent ⟨b.size + (24 + c.size), b.free⟩ := by
      simp only [Block.extent]
      omega
    have hspan : base + span pre + span [b, c] =
        base + span pre + Block.extent ⟨b.size + (24 + c.size), b.free⟩ := by
      simp only [span_cons, span_nil, Block.extent]
      omega
    rw [hspan] at hpost
    refine ⟨?_, hpost⟩
    rw [hst₁.view_eq, hend]
    exact (hhead.writeSize (by omega)).writeNext (by rw [← hend]; exact hlink)

theorem mergeNext_spec (h : Holds L s base (pre ++ b :: post)) :
    ∃ s' m, mergeNext M s (base + span pre) = some s' ∧
      Stores L s s' m (fun x => base + span pre ≤ x ∧ x < base + span pre + 24) ∧
      Layout m base (pre ++ b.absorb post) := by
  have hnext := blockNext_eq h.layout.header h.mapped_header
  cases post with
  | nil =>
      refine ⟨s, _, ?_, Stores.refl h.ok, h.layout⟩
      simp [mergeNext, hnext, link]
  | cons c post =>
      have h' : Holds L s base ((pre ++ [b]) ++ c :: post) := by simpa using h
      have hq' : base + span (pre ++ [b]) = base + span pre + b.extent := by
        simp only [span_append, span_cons, span_nil, Block.extent]
        omega
      have hhead' := h'.layout.header
      have hmc := h'.mapped_header
      rw [hq'] at hhead' hmc
      have hne : base + span pre + b.extent ≠ 0 := by
        have := h.pos
        omega
      rw [link] at hnext
      cases hc : c.free with
      | false =>
          have hfree : blockFree M s.mach (base + span pre + b.extent) = some 0 := by
            rw [blockFree_eq hhead' hmc, hc]
            rfl
          refine ⟨s, _, ?_, Stores.refl h.ok, ?_⟩
          · simp only [mergeNext, hnext, hfree, Option.bind_eq_bind, Option.bind_some, if_neg hne]
            rfl
          · simp only [Block.absorb, hc, Bool.false_eq_true, if_false]
            exact h.layout
      | true =>
          have hfree : blockFree M s.mach (base + span pre + b.extent) = some 1 := by
            rw [blockFree_eq hhead' hmc, hc]
            rfl
          obtain ⟨s₁, s₂, m, after, hs₁, hafter, hs₂, hst, hlay⟩ := join_spec h
          refine ⟨s₂, m, ?_, hst, ?_⟩
          · simp only [mergeNext, hnext, hfree, Option.bind_eq_bind, Option.bind_some, if_neg hne,
              if_neg Nat.one_ne_zero, blockSize_eq h.layout.header h.mapped_header,
              blockSize_eq hhead' hmc, hs₁, hafter, hs₂]
          · simp only [Block.absorb, hc, if_true]
            exact hlay

/-- Backward merging, by what the list before the block ends with. -/
theorem mergePrev_spec (h : Holds L s base (pre ++ b :: post)) (hfirst : s.heapFirstBlock = base)
    (hb : b.free = true) :
    ∃ s' m, mergePrev M s (base + span pre) = some s' ∧
      Stores L s s' m (HeaderByte base pre) ∧
      Layout m base (match pre.getLast? with
        | none => b :: post
        | some p => if p.free = true then pre.dropLast ++ p.absorb (b :: post)
            else pre ++ b :: post) := by
  rcases List.eq_nil_or_concat pre with rfl | ⟨pre', p, rfl⟩
  · have hnone := findPrev_none h.layout h.mapped h.pos h.pos (Nat.le_refl base) h.fuel
    refine ⟨s, _, ?_, Stores.refl h.ok, h.layout⟩
    rw [link_append] at hnone
    simp [mergePrev, hfirst, hnone]
  · rw [List.concat_eq_append] at h ⊢
    have h' : Holds L s base (pre' ++ p :: b :: post) := by simpa using h
    have hq : base + span (pre' ++ [p]) = base + span pre' + p.extent := by
      simp only [span_append, span_cons, span_nil, Block.extent]
      omega
    have hprev := findPrev_eq h'.layout h'.mapped h'.pos h'.fuel_front
    have hne : base + span pre' ≠ 0 := by
      have := h.pos
      omega
    have hhead := h'.layout.header
    have hblock := h.layout.header
    have hmb := h.mapped_header
    rw [hq] at hblock hmb
    cases hp : p.free with
    | false =>
        have hfree : blockFree M s.mach (base + span pre') = some 0 := by
          rw [blockFree_eq hhead h'.mapped_header, hp]
          rfl
        refine ⟨s, _, ?_, Stores.refl h.ok, ?_⟩
        · rw [hq]
          simp only [mergePrev, hfirst, hprev, hfree, Option.bind_eq_bind, Option.bind_some,
            if_neg hne]
          rfl
        · simpa [hp] using h.layout
    | true =>
        have hfree : blockFree M s.mach (base + span pre') = some 1 := by
          rw [blockFree_eq hhead h'.mapped_header, hp]
          rfl
        obtain ⟨s₁, s₂, m, after, hs₁, hafter, hs₂, hst, hlay⟩ := join_spec h'
        refine ⟨s₂, m, ?_, hst.mono fun x hx => headerByte_mid hx.1 hx.2, ?_⟩
        · rw [hq]
          simp only [mergePrev, hfirst, hprev, hfree, Option.bind_eq_bind, Option.bind_some,
            if_neg hne, if_neg Nat.one_ne_zero, blockSize_eq hhead h'.mapped_header,
            blockSize_eq hblock hmb, hs₁, hafter, hs₂]
        · simpa [hp, Block.absorb, hb] using hlay

/-- `kfree` on the payload of a block in use. The header of the block stays behind as it
was when the block before it looked at it. -/
theorem kfree_holds (h : Holds L s base (pre ++ b :: post)) (hfirst : s.heapFirstBlock = base) :
    ∃ s' m, kfree M s (base + span pre + 24) = some s' ∧
      Stores L s s' m (HeaderByte base (pre ++ b :: post)) ∧
      Layout m base (release pre b post) ∧
      ∀ c rest, Block.absorb { b with free := true } post = c :: rest →
        Header m (base + span pre) c (link (base + span pre + c.extent) rest) := by
  have hbounds := h.bounds
  have hptr : base + span pre + 24 ≠ 0 := by omega
  have hblock : (base + span pre + 24 + 2 ^ 64 - 24) % 2 ^ 64 = base + span pre := by omega
  obtain ⟨s₁, hs₁, hst₁⟩ := setBlockFree_spec 1 h.ok h.mapped_header
  have hlay₁ : Layout (view M s₁.mach) base (pre ++ ([{ b with free := true }] ++ post)) := by
    rw [hst₁.view_eq]
    refine Holds.layout_replace [b] _ h (fun x hx => hst₁.keep x fun hw => hx ?_)
      (by simp) (by simp) fun hpost => ⟨h.layout.header.writeFree true, hpost⟩
    simp only [span_cons, span_nil]
    omega
  have h₁ : Holds L s₁ base (pre ++ { b with free := true } :: post) :=
    h.of_stores hst₁ (hst₁.view_eq ▸ hlay₁) (by simp)
  obtain ⟨s₂, m₂, hs₂, hst₂, hlay₂⟩ := mergeNext_spec h₁
  have h₂ := h₁.of_stores hst₂ hlay₂ (by simp [span_absorb])
  -- The freed block is still the head of what follows `pre`, and still free.
  obtain ⟨b', post', habs, hb', -⟩ := absorb_head { b with free := true } post
  rw [habs] at h₂
  have hfirst₂ : s₂.heapFirstBlock = base := by
    rw [hst₂.heapFirstBlock, hst₁.heapFirstBlock, hfirst]
  obtain ⟨s₃, m₃, hs₃, hst₃, hlay₃⟩ := mergePrev_spec h₂ hfirst₂ hb'
  refine ⟨s₃, m₃, ?_, ?_, ?_, fun c rest hc => ?_⟩
  · simp only [kfree, if_neg hptr, hblock, Option.bind_eq_bind, hs₁, hs₂, Option.bind_some, hs₃]
  · have hown : ∀ x, base + span pre ≤ x ∧ x < base + span pre + 24 →
        HeaderByte base (pre ++ b :: post) x := fun x hx => headerByte_mid hx.1 hx.2
    refine ((hst₁.mono hown).trans (hst₂.mono hown)).trans (hst₃.mono fun x hx => ?_)
    obtain ⟨a, c, hmem, hx⟩ := hx
    exact ⟨a, c, by simp [placed_append, hmem], hx⟩
  · rw [release, habs]
    exact hlay₃
  · obtain ⟨rfl, rfl⟩ := List.cons.inj (habs.symm.trans hc)
    refine h₂.layout.header.congr fun x hx _ => hst₃.keep x ?_
    rintro ⟨a, d, hmem, -, hlt⟩
    have hd := placed_bounds hmem
    omega

end Kaviz.Heap
