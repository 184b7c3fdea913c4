import Kaviz.Lib.Traces
import Kaviz.Paging.Pool

/-! # The translation buffer

The buffer may take up the leaf entry of any present page at any moment between
the operations. An edit of the tree either links an empty table, which changes
no translation, or writes one leaf entry and drops that page from the buffer, so
no entry is ever out of date when an operation has returned.
-/

namespace Kaviz.Paging

open Bytes Radix Traces

namespace PageTables

/-- The leaf entry of a present page. -/
def leaf (t : PageTables) (n : Nat) : Option Nat :=
  if n < 2 ^ 36 then
    (t.tableAt (tablePath n)).bind fun pt =>
      if Present (t.entry pt (n % 512)) then some (t.entry pt (n % 512)) else none
  else none

/-- The hardware takes up the translation of a present page. -/
def loadTlb (t : PageTables) (n : Nat) : Option PageTables :=
  (t.leaf n).map fun e => { t with tlb := fun m => if m = n then some e else t.tlb m }

def Coherent (t : PageTables) : Prop :=
  ∀ n e, t.tlb n = some e → Present e ∧ t.translate n = decodeLeaf e

structure Synced (t : PageTables) : Prop where
  wf : t.WellFormed
  coherent : t.Coherent

end PageTables

/-- An operation, or a load between two operations. -/
inductive TlbAct
  | op (op : PageOp)
  | load (n : Nat)

def TlbAct.Valid : TlbAct → Prop
  | .op (.map _ p f) => p < 2 ^ 64 ∧ f < 2 ^ 64
  | .op (.unmap _) => True
  | .op (.setFlags _ f) => f < 2 ^ 64
  | .load _ => True

namespace PageTables

variable {t t' : PageTables} {n e v p f pt : Nat}

def tlbStep (t : PageTables) : TlbAct → Option PageTables
  | .op op => some (t.exec op).2
  | .load n => t.loadTlb n

theorem leaf_spec (h : t.leaf n = some e) : Present e ∧ t.translate n = decodeLeaf e := by
  unfold leaf at h
  split at h
  next hn =>
    obtain ⟨pt, hpt, h⟩ := Option.bind_eq_some_iff.mp h
    split at h
    next hpresent =>
      have he : t.entry pt (n % 512) = e := Option.some.inj h
      rw [he] at hpresent
      refine ⟨hpresent, ?_⟩
      rw [translate, if_pos hn, hpt, Option.bind_some, he]
    next => cases h
  next => cases h

theorem WellFormed.withTlb (h : t.WellFormed) (tlb : Nat → Option Nat) :
    { t with tlb := tlb }.WellFormed :=
  ⟨h.separated, h.rootAligned, h.noHuge, h.poolAligned, h.poolBound, h.usedAligned, h.usedBound,
    h.outsidePool⟩

theorem Coherent.loadTlb (h : t.Coherent) (hload : t.loadTlb n = some t') : t'.Coherent := by
  obtain ⟨e, he, rfl⟩ := Option.map_eq_some_iff.mp hload
  intro m e' hm
  change (if m = n then some e else t.tlb m) = some e' at hm
  split at hm
  next hmn =>
    cases hm
    rw [hmn]
    exact leaf_spec he
  next => exact h m e' hm

theorem Coherent.linked {target : List Nat} (h : t.Coherent) (hlinked : Linked target t t') :
    t'.Coherent := by
  intro n e he
  rw [hlinked.translate_eq]
  exact h n e (hlinked.tlb_le he)

/-- Writing a leaf entry and dropping its page from the buffer. -/
theorem Coherent.setEntry_leaf (h : t.Coherent) (hwf : t.WellFormed)
    (hpt : t.tableAt (tablePath (pageNumber v)) = some pt) (he : e < 2 ^ 64) :
    ((t.setEntry pt (ptIndex (pageAlign v)) e).flushTlbSingle (pageAlign v)).Coherent := by
  have hpage : pageNumber (pageAlign v) = pageNumber v := by
    unfold pageNumber pageAlign
    omega
  intro m e' hm
  change (if m = pageNumber (pageAlign v) then none else t.tlb m) = some e' at hm
  rw [hpage] at hm
  split at hm
  next => cases hm
  next hne =>
    obtain ⟨hpresent, htr⟩ := h m e' hm
    refine ⟨hpresent, ?_⟩
    rw [flushTlbSingle_translate, ptIndex_pageAlign,
      setEntry_leaf_translate hwf (pageNumber_lt v) hpt he, if_neg hne]
    exact htr

theorem leafEntry_lt_of_lt (hp : p < 2 ^ 64) (hf : f < 2 ^ 64) :
    pageAlign p ||| f ||| pagePresent < 2 ^ 64 := by
  have hle := pageAlign_le p
  exact Nat.or_lt_two_pow (Nat.or_lt_two_pow (Nat.lt_of_le_of_lt hle hp) hf) (by decide)

theorem mapPage_coherent (h : t.Coherent) (hwf : t.WellFormed) (hp : p < 2 ^ 64) (hf : f < 2 ^ 64) :
    (t.mapPage v p f).2.Synced := by
  rcases mapPage_cases (v := v) (p := p) (f := f) hwf with
    ⟨t', heq, hlinked, -⟩ | ⟨t', pt, hlinked, hpt, heq⟩
  · rw [heq]
    exact ⟨hlinked.wellFormed hwf, h.linked hlinked⟩
  · have he := leafEntry_lt_of_lt hp hf
    have hwf' := hlinked.wellFormed hwf
    rw [heq]
    exact ⟨(hwf'.setEntry_leaf hpt (Nat.mod_lt _ (by decide)) he).flushTlbSingle _,
      (h.linked hlinked).setEntry_leaf hwf' hpt he⟩

theorem editLeaf_coherent (h : t.Coherent) (hwf : t.WellFormed) (edit : Nat → Nat)
    (hedit : ∀ e, e < 2 ^ 64 → edit e < 2 ^ 64) :
    (t.editLeaf v edit).2.Synced := by
  rcases editLeaf_cases t v edit with ⟨pt, hpt, -, heq⟩ | ⟨-, heq⟩
  · have he := hedit _ (t.entry_lt pt (ptIndex (pageAlign v)))
    rw [heq]
    exact ⟨(hwf.setEntry_leaf hpt (Nat.mod_lt _ (by decide)) he).flushTlbSingle _,
      h.setEntry_leaf hwf hpt he⟩
  · rw [heq]
    exact ⟨hwf, h⟩

/-- One act keeps the tree well formed and the buffer up to date. -/
theorem tlbStep_synced {act : TlbAct} (h : t.Synced) (hact : act.Valid)
    (hstep : t.tlbStep act = some t') : t'.Synced := by
  obtain ⟨hwf, h⟩ := h
  cases act with
  | load n =>
      obtain ⟨e, he, rfl⟩ := Option.map_eq_some_iff.mp hstep
      exact ⟨hwf.withTlb _, h.loadTlb hstep⟩
  | op op =>
      have ht' : (t.exec op).2 = t' := Option.some.inj hstep
      rw [← ht']
      cases op with
      | map v p f =>
          obtain ⟨hp, hf⟩ : p < 2 ^ 64 ∧ f < 2 ^ 64 := hact
          simp only [exec]
          exact mapPage_coherent h hwf hp hf
      | unmap v =>
          simp only [exec, unmapPage]
          exact editLeaf_coherent h hwf (fun _ => 0) fun _ _ => by decide
      | setFlags v f =>
          have hf : f < 2 ^ 64 := hact
          simp only [exec, setPageFlags]
          exact editLeaf_coherent h hwf (fun e => pageAlign e ||| f ||| pagePresent) fun e he =>
            leafEntry_lt_of_lt he hf

end PageTables

/-- In every run the buffer holds current translations only, after every operation. -/
theorem tlb_coherent_of_run (t t' : PageTables) (ts : List (Step PageTables TlbAct))
    (hwf : t.WellFormed) (hcoherent : t.Coherent) (hrun : Trace PageTables.tlbStep t ts t')
    (hvalid : ∀ x ∈ ts, x.op.Valid) : ∀ x ∈ ts, x.after.Coherent := by
  have hinv : ∀ x ∈ ts, x.before.Synced ∧ x.after.Synced := by
    refine hrun.forall_inv (⟨hwf, hcoherent⟩ : t.Synced) ?_ hvalid
    intro s act s' hs hstep hact
    exact PageTables.tlbStep_synced hs hact hstep
  exact fun x hx => (hinv x hx).2.coherent

theorem emptyTree_coherent : emptyTree.Coherent := fun _ _ he => nomatch he

theorem loadTlb_of_translate {t : PageTables} {n : Nat} (hwf : t.WellFormed)
    (h : (t.translate n).isSome) : ∃ t', t.loadTlb n = some t' ∧ t'.WellFormed ∧
      (t'.tlb n).isSome ∧ (t'.translate n).isSome := by
  obtain ⟨e, he⟩ : ∃ e, t.leaf n = some e := by
    obtain ⟨x, hx⟩ := Option.isSome_iff_exists.mp h
    unfold PageTables.translate at hx
    unfold PageTables.leaf
    split at hx
    next hn =>
      obtain ⟨pt, hpt, hleaf⟩ := Option.bind_eq_some_iff.mp hx
      unfold decodeLeaf at hleaf
      split at hleaf
      next hpresent => exact ⟨_, by rw [if_pos hn, hpt, Option.bind_some, if_pos hpresent]⟩
      next => cases hleaf
    next => cases hx
  have hload : t.loadTlb n = some { t with tlb := fun m => if m = n then some e else t.tlb m } := by
    rw [PageTables.loadTlb, he, Option.map_some]
  have htlb : (if n = n then some e else t.tlb n).isSome := by
    rw [if_pos rfl]
    rfl
  exact ⟨_, hload, hwf.withTlb _, htlb, h⟩

theorem translate_remapped {t : PageTables} {v p f : Nat} (hwf : t.WellFormed) (hp : p < 2 ^ 64)
    (hf : f < 4096) (h : (t.mapPage v p f).1 = 0 ∨ (t.translate (pageNumber v)).isSome) :
    (t.mapPage v p f).2.WellFormed ∧ ((t.mapPage v p f).2.translate (pageNumber v)).isSome := by
  obtain ⟨hwf', hspec⟩ := PageTables.mapPage_spec (v := v) hwf hp hf
  refine ⟨hwf', ?_⟩
  rcases hspec with ⟨-, htr⟩ | ⟨hret, htr⟩
  · rw [htr, PageMap.update, if_pos rfl]
    rfl
  · rw [htr]
    rcases h with hzero | hsome
    · rw [hret] at hzero
      cases hzero
    · exact hsome

/-- A page is mapped twice and unmapped, and taken up whenever it can be. -/
theorem remap_trace {t t₂ t₄ : PageTables} {v p p' f n : Nat}
    (hfirst : (t.mapPage v p f).2.loadTlb n = some t₂)
    (hsecond : (t₂.mapPage v p' f).2.loadTlb n = some t₄) :
    Trace PageTables.tlbStep t
      [⟨t, .op (.map v p f), (t.mapPage v p f).2⟩, ⟨(t.mapPage v p f).2, .load n, t₂⟩,
        ⟨t₂, .op (.map v p' f), (t₂.mapPage v p' f).2⟩, ⟨(t₂.mapPage v p' f).2, .load n, t₄⟩,
        ⟨t₄, .op (.unmap v), (t₄.unmapPage v).2⟩] (t₄.unmapPage v).2 :=
  .cons rfl (.cons hfirst (.cons rfl (.cons hsecond (.cons rfl (.nil _)))))

/-- A global page of an empty tree is mapped, taken up, mapped again, taken up again and unmapped. -/
theorem tlb_coherent_remapped : ∃ ts t', Trace PageTables.tlbStep emptyTree ts t' ∧
    ts.map Step.op = [.op (.map 0x400000 0x200000 0x103), .load (pageNumber 0x400000),
      .op (.map 0x400000 0x300000 0x103), .load (pageNumber 0x400000), .op (.unmap 0x400000)] ∧
    (∀ x ∈ ts, ∀ n, x.op = .load n → (x.after.tlb n).isSome) ∧ ∀ x ∈ ts, x.after.Coherent := by
  obtain ⟨hwf₁, hmapped₁⟩ := translate_remapped (v := 0x400000) (p := 0x200000) (f := 0x103)
    emptyTree_wellFormed (by decide) (by decide) (Or.inl (emptyTree_mapPage _ _ _))
  obtain ⟨t₂, hload₁, hwf₂, hheld₁, hmapped₂⟩ := loadTlb_of_translate hwf₁ hmapped₁
  obtain ⟨hwf₃, hmapped₃⟩ := translate_remapped (v := 0x400000) (p := 0x300000) (f := 0x103) hwf₂
    (by decide) (by decide) (Or.inr hmapped₂)
  obtain ⟨t₄, hload₂, hwf₄, hheld₂, -⟩ := loadTlb_of_translate hwf₃ hmapped₃
  have hrun := remap_trace hload₁ hload₂
  refine ⟨_, _, hrun, rfl, ?_, ?_⟩
  · intro x hx n hop
    simp only [List.mem_cons, List.not_mem_nil, or_false] at hx
    rcases hx with rfl | rfl | rfl | rfl | rfl
    · cases hop
    · cases hop
      exact hheld₁
    · cases hop
    · cases hop
      exact hheld₂
    · cases hop
  · apply tlb_coherent_of_run emptyTree _ _ emptyTree_wellFormed emptyTree_coherent hrun
    intro x hx
    simp only [List.mem_cons, List.not_mem_nil, or_false] at hx
    rcases hx with rfl | rfl | rfl | rfl | rfl
    · exact ⟨by decide, by decide⟩
    · exact trivial
    · exact ⟨by decide, by decide⟩
    · exact trivial
    · exact trivial

end Kaviz.Paging
