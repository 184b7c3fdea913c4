import Kaviz.Lib.Runs
import Kaviz.Paging.Translation

/-! # The paging operations refine a partial map

The tree is only a representation of a partial map from 36-bit page numbers to
frames and flags. Each operation is specified on that map alone, and every run
of the three operations is a run of the specification; the frame condition over
all other pages is part of the specification.
-/

namespace Kaviz.Paging

open Bytes Radix Runs

/-- The abstract state: frame and flags of every mapped page. -/
abbrev PageMap := Nat → Option (Nat × Nat)

def PageMap.update (m : PageMap) (n : Nat) (x : Option (Nat × Nat)) : PageMap :=
  fun k => if k = n then x else m k

namespace PageTables

variable {t : PageTables} {v p f : Nat}

/-! ## One level of the walk -/

theorem nextTable_spec {target : List Nat} (path : List Nat) {table i new : Nat} {t' : PageTables}
    (hwf : t.WellFormed) (hpath : Within 512 2 path) (hreach : t.tableAt path = some table)
    (hi : i < 512) (hbelow : path ++ [i] <+: target) (h : t.nextTable table i = some (new, t')) :
    Linked target t t' ∧ t'.tableAt (path ++ [i]) = some new := by
  rw [nextTable_eq hwf] at h
  by_cases hpresent : Present (t.entry table i)
  · rw [if_pos hpresent] at h
    cases h
    refine ⟨.refl t, ?_⟩
    have hwalk : walk t.childTable t.pml4 path = some table := hreach
    rw [tableAt, walk_snoc, hwalk]
    simp [childTable, hpresent]
  · rw [if_neg hpresent] at h
    by_cases hfull : t.poolUsed = poolSize
    · rw [if_pos hfull] at h
      cases h
    · rw [if_neg hfull] at h
      cases h
      have hmiss : t.MissingAt path table i := ⟨hwf, hpath, hreach, hi, hpresent, hfull⟩
      refine ⟨.link (.refl t) hmiss hbelow, ?_⟩
      rw [flushTlb_tableAt, hmiss.tableAt_link]

theorem nextTable_failed {n : Nat} (path : List Nat) {table i : Nat} (hwf : t.WellFormed)
    (hreach : t.tableAt path = some table) (hbelow : path ++ [i] <+: tablePath n)
    (h : t.nextTable table i = none) : t.freeTables = 0 ∧ 0 < t.missingTables n := by
  rw [nextTable_eq hwf] at h
  split at h
  · cases h
  next hpresent =>
    split at h
    next hfull =>
      obtain ⟨rest, hrest⟩ := hbelow
      refine ⟨by rw [freeTables, hfull, Nat.sub_self], ?_⟩
      rw [missingTables, ← hrest, List.append_assoc, missing_append hreach, List.singleton_append,
        missing_of_none (if_neg hpresent)]
      exact Nat.zero_lt_succ _
    · cases h

/-- The three levels above the leaf: whichever call fails, no page has changed. -/
theorem mapPage_cases (hwf : t.WellFormed) :
    (∃ t' : PageTables, t.mapPage v p f = (-1, t') ∧ Linked (tablePath (pageNumber v)) t t' ∧
      t'.freeTables = 0 ∧ 0 < t'.missingTables (pageNumber v)) ∨
    (∃ (t' : PageTables) (pt : Nat), Linked (tablePath (pageNumber v)) t t' ∧
      t'.tableAt (tablePath (pageNumber v)) = some pt ∧
      t.mapPage v p f = (0, (t'.setEntry pt (ptIndex (pageAlign v))
        (pageAlign p ||| f ||| pagePresent)).flushTlbSingle (pageAlign v))) := by
  have hwithin := tablePath_within (pageNumber v)
  have htarget := tablePath_pageNumber v
  rw [htarget] at hwithin
  have hlt : ∀ i ∈ [pml4Index (pageAlign v), pdptIndex (pageAlign v), pdIndex (pageAlign v)],
      i < 512 := hwithin.2
  have hbelow₁ : [] ++ [pml4Index (pageAlign v)] <+: tablePath (pageNumber v) := by
    rw [htarget]
    exact ⟨_, rfl⟩
  have hbelow₂ : [pml4Index (pageAlign v)] ++ [pdptIndex (pageAlign v)] <+:
      tablePath (pageNumber v) := by
    rw [htarget]
    exact ⟨_, rfl⟩
  have hbelow₃ : [pml4Index (pageAlign v), pdptIndex (pageAlign v)] ++ [pdIndex (pageAlign v)] <+:
      tablePath (pageNumber v) := by
    rw [htarget]
    exact ⟨_, rfl⟩
  unfold mapPage
  dsimp only
  cases h₁ : t.nextTable t.pml4 (pml4Index (pageAlign v)) with
  | none => exact Or.inl ⟨t, rfl, .refl t, nextTable_failed [] hwf rfl hbelow₁ h₁⟩
  | some r₁ =>
    obtain ⟨pdpt, t₁⟩ := r₁
    obtain ⟨hl₁, hat₁⟩ := nextTable_spec [] hwf ⟨by simp, by simp⟩ rfl (hlt _ (by simp)) hbelow₁ h₁
    have hwf₁ := hl₁.wellFormed hwf
    cases h₂ : t₁.nextTable pdpt (pdptIndex (pageAlign v)) with
    | none => exact Or.inl ⟨t₁, by simp [h₂], hl₁, nextTable_failed _ hwf₁ hat₁ hbelow₂ h₂⟩
    | some r₂ =>
      obtain ⟨pd, t₂⟩ := r₂
      obtain ⟨hl₂, hat₂⟩ := nextTable_spec _ hwf₁
        ⟨by simp, fun i hi => hlt i (by simp at hi; simp [hi])⟩ hat₁ (hlt _ (by simp)) hbelow₂ h₂
      have hwf₂ := hl₂.wellFormed hwf₁
      cases h₃ : t₂.nextTable pd (pdIndex (pageAlign v)) with
      | none =>
          exact Or.inl ⟨t₂, by simp [h₂, h₃], hl₁.trans hl₂,
            nextTable_failed _ hwf₂ hat₂ hbelow₃ h₃⟩
      | some r₃ =>
        obtain ⟨pt, t₃⟩ := r₃
        obtain ⟨hl₃, hat₃⟩ := nextTable_spec _ hwf₂
          ⟨by simp, fun i hi => hlt i (by simp at hi; rcases hi with rfl | rfl <;> simp)⟩ hat₂
          (hlt _ (by simp)) hbelow₃ h₃
        refine Or.inr ⟨t₃, pt, hl₁.trans (hl₂.trans hl₃), ?_, by simp [h₂, h₃]⟩
        rw [htarget]
        simpa using hat₃

/-! ## The operations on the map -/

theorem mapPage_spec (hwf : t.WellFormed) (hp : p < 2 ^ 64) (hf : f < 4096) :
    (t.mapPage v p f).2.WellFormed ∧
      (((t.mapPage v p f).1 = 0 ∧ (t.mapPage v p f).2.translate =
          PageMap.update t.translate (pageNumber v) (some (pageAlign p, f ||| pagePresent))) ∨
        ((t.mapPage v p f).1 = -1 ∧ (t.mapPage v p f).2.translate = t.translate)) := by
  rcases mapPage_cases (v := v) (p := p) (f := f) hwf with
    ⟨t', heq, hlinked, -⟩ | ⟨t', pt, hlinked, hpt, heq⟩
  · rw [heq]
    exact ⟨hlinked.wellFormed hwf, Or.inr ⟨rfl, hlinked.translate_eq⟩⟩
  · have hwf' := hlinked.wellFormed hwf
    have hle := pageAlign_le p
    have he := leafEntry_lt (pageAlign_mod p) (Nat.lt_of_le_of_lt hle hp) hf
    have hidx : ptIndex (pageAlign v) < 512 := Nat.mod_lt _ (by decide)
    rw [heq]
    refine ⟨(hwf'.setEntry_leaf hpt hidx he).flushTlbSingle _, Or.inl ⟨rfl, ?_⟩⟩
    funext n
    rw [flushTlbSingle_translate, ptIndex_pageAlign,
      setEntry_leaf_translate hwf' (pageNumber_lt v) hpt he, decodeLeaf_entry (pageAlign_mod p) hf,
      hlinked.translate_eq]
    rfl

theorem findTable_eq (t : PageTables) (v : Nat) :
    t.findTable (pageAlign v) = t.tableAt (tablePath (pageNumber v)) := by
  rw [tablePath_pageNumber, findTable, tableAt]
  simp only [walk, Option.bind_eq_bind, Option.bind_fun_some]

theorem editLeaf_cases (t : PageTables) (v : Nat) (edit : Nat → Nat) :
    (∃ pt : Nat, t.tableAt (tablePath (pageNumber v)) = some pt ∧
      Present (t.entry pt (ptIndex (pageAlign v))) ∧
      t.editLeaf v edit = (0, (t.setEntry pt (ptIndex (pageAlign v))
        (edit (t.entry pt (ptIndex (pageAlign v))))).flushTlbSingle (pageAlign v))) ∨
    (t.translate (pageNumber v) = none ∧ t.editLeaf v edit = (-1, t)) := by
  have htr : t.translate (pageNumber v) = (t.tableAt (tablePath (pageNumber v))).bind
      fun pt => decodeLeaf (t.entry pt (pageNumber v % 512)) := if_pos (pageNumber_lt v)
  cases hpt : t.tableAt (tablePath (pageNumber v)) with
  | none =>
      rw [hpt, Option.bind_none] at htr
      refine Or.inr ⟨htr, ?_⟩
      unfold editLeaf
      dsimp only
      rw [findTable_eq, hpt]
  | some pt =>
      rw [hpt, Option.bind_some, ← ptIndex_pageAlign] at htr
      by_cases hpresent : Present (t.entry pt (ptIndex (pageAlign v)))
      · refine Or.inl ⟨pt, rfl, hpresent, ?_⟩
        unfold editLeaf
        dsimp only
        rw [findTable_eq, hpt]
        exact if_pos hpresent
      · refine Or.inr ⟨?_, ?_⟩
        · rw [htr, decodeLeaf, if_neg hpresent]
        · unfold editLeaf
          dsimp only
          rw [findTable_eq, hpt]
          exact if_neg hpresent

/-- A leaf edit either changes exactly one mapped page or fails without a change. -/
theorem editLeaf_spec (hwf : t.WellFormed) (edit : Nat → Nat)
    (hedit : ∀ e, e < 2 ^ 64 → edit e < 2 ^ 64) :
    (t.editLeaf v edit).2.WellFormed ∧
      ((∃ e, Present e ∧ t.translate (pageNumber v) = some (pageAlign e, e % 4096) ∧
          (t.editLeaf v edit).1 = 0 ∧ (t.editLeaf v edit).2.translate =
            PageMap.update t.translate (pageNumber v) (decodeLeaf (edit e))) ∨
        (t.translate (pageNumber v) = none ∧ (t.editLeaf v edit).1 = -1 ∧
          (t.editLeaf v edit).2.translate = t.translate)) := by
  rcases editLeaf_cases t v edit with ⟨pt, hpt, hpresent, heq⟩ | ⟨hnone, heq⟩
  · have he := hedit _ (t.entry_lt pt (ptIndex (pageAlign v)))
    have hidx : ptIndex (pageAlign v) < 512 := Nat.mod_lt _ (by decide)
    rw [heq]
    refine ⟨(hwf.setEntry_leaf hpt hidx he).flushTlbSingle _, Or.inl ⟨_, hpresent, ?_, rfl, ?_⟩⟩
    · rw [translate, if_pos (pageNumber_lt v), hpt, Option.bind_some, ← ptIndex_pageAlign,
        decodeLeaf, if_pos hpresent]
    · rw [flushTlbSingle_translate, ptIndex_pageAlign] at *
      funext n
      exact setEntry_leaf_translate hwf (pageNumber_lt v) hpt he n
  · rw [heq]
    exact ⟨hwf, Or.inr ⟨hnone, rfl, rfl⟩⟩

end PageTables

/-! ## Runs -/

/-- The operations of a run, with their arguments. -/
inductive PageOp
  | map (virtualAddr physicalAddr flags : Nat)
  | unmap (virtualAddr : Nat)
  | setFlags (virtualAddr flags : Nat)

/-- Arguments of the C types, with flags confined to the low twelve bits. -/
def PageOp.Valid : PageOp → Prop
  | .map _ p f => p < 2 ^ 64 ∧ f < 4096
  | .unmap _ => True
  | .setFlags _ f => f < 4096

def PageTables.exec (t : PageTables) : PageOp → Int × PageTables
  | .map v p f => t.mapPage v p f
  | .unmap v => t.unmapPage v
  | .setFlags v f => t.setPageFlags v f

/-- What an operation may answer and do to the map. -/
def PageOp.Spec : PageOp → PageMap → Int → PageMap → Prop
  | .map v p f, m, r, m' =>
      (r = 0 ∧ m' = m.update (pageNumber v) (some (pageAlign p, f ||| pagePresent))) ∨
        (r = -1 ∧ m' = m)
  | .unmap v, m, r, m' =>
      ((m (pageNumber v)).isSome ∧ r = 0 ∧ m' = m.update (pageNumber v) none) ∨
        (m (pageNumber v) = none ∧ r = -1 ∧ m' = m)
  | .setFlags v f, m, r, m' =>
      (∃ frame flags, m (pageNumber v) = some (frame, flags) ∧ r = 0 ∧
          m' = m.update (pageNumber v) (some (frame, f ||| pagePresent))) ∨
        (m (pageNumber v) = none ∧ r = -1 ∧ m' = m)

/-- One operation keeps the tree well formed and meets its specification. -/
theorem exec_spec (t : PageTables) (op : PageOp) (hwf : t.WellFormed) (hop : op.Valid) :
    (t.exec op).2.WellFormed ∧ op.Spec t.translate (t.exec op).1 (t.exec op).2.translate := by
  cases op with
  | map v p f =>
      obtain ⟨hp, hf⟩ := hop
      simp only [PageTables.exec, PageOp.Spec]
      exact PageTables.mapPage_spec hwf hp hf
  | unmap v =>
      simp only [PageTables.exec, PageOp.Spec, PageTables.unmapPage]
      obtain ⟨hwf', ⟨e, _, hold, hret, htr⟩ | hfail⟩ :=
        PageTables.editLeaf_spec (v := v) hwf (fun _ => 0) (fun _ _ => by decide)
      · exact ⟨hwf', Or.inl ⟨by rw [hold]; rfl, hret, htr⟩⟩
      · exact ⟨hwf', Or.inr hfail⟩
  | setFlags v f =>
      have hf : f < 4096 := hop
      simp only [PageTables.exec, PageOp.Spec, PageTables.setPageFlags]
      have hedit : ∀ e, e < 2 ^ 64 → pageAlign e ||| f ||| pagePresent < 2 ^ 64 := fun e he =>
        leafEntry_lt (pageAlign_mod e) (Nat.lt_of_le_of_lt (pageAlign_le e) he) hf
      obtain ⟨hwf', ⟨e, _, hold, hret, htr⟩ | hfail⟩ := PageTables.editLeaf_spec (v := v) hwf _ hedit
      · rw [decodeLeaf_entry (pageAlign_mod e) hf] at htr
        exact ⟨hwf', Or.inl ⟨_, _, hold, hret, htr⟩⟩
      · exact ⟨hwf', Or.inr hfail⟩

/-- Every run of the paging operations is a run of the partial map. -/
theorem paging_run_refines_map (t : PageTables) (ops : List PageOp) (hwf : t.WellFormed)
    (hops : ∀ op ∈ ops, op.Valid) :
    (run PageTables.exec t ops).2.WellFormed ∧
      SpecRun PageOp.Spec t.translate ops (run PageTables.exec t ops).1
        (run PageTables.exec t ops).2.translate :=
  run_simulates PageTables.translate exec_spec hwf hops

def emptyTree : PageTables where
  mem := fun _ => 0
  pml4 := 0x100000
  poolBase := 0x110000
  poolUsed := 0
  tlb := fun _ => none

theorem emptyTree_tableAt {path : List Nat} {table : Nat} (h : emptyTree.tableAt path = some table) :
    path = [] ∧ table = 0x100000 := by
  cases path with
  | nil =>
      cases h
      exact ⟨rfl, rfl⟩
  | cons i path =>
      have hchild : emptyTree.childTable emptyTree.pml4 i = none := by
        simp [PageTables.childTable, PageTables.entry, emptyTree, readLE]
      rw [PageTables.tableAt, walk, hchild] at h
      cases h

theorem emptyTree_wellFormed : emptyTree.WellFormed where
  separated p q t _ _ hp hq := (emptyTree_tableAt hp).1.trans (emptyTree_tableAt hq).1.symm
  rootAligned := rfl
  noHuge path table i _ _ _ hpresent := by
    simp [Present, PageTables.entry, emptyTree, readLE] at hpresent
  poolAligned := rfl
  poolBound := by decide
  usedAligned := rfl
  usedBound := by decide
  outsidePool path table _ h := by
    obtain ⟨-, rfl⟩ := emptyTree_tableAt h
    decide

/-- A page mapped into an empty tree, re-flagged and unmapped again. -/
theorem paging_run_emptyTree :
    (run PageTables.exec emptyTree
        [.map 0x400123 0x200000 3, .setFlags 0x400000 7, .unmap 0x400000]).2.WellFormed ∧
      SpecRun PageOp.Spec emptyTree.translate
        [.map 0x400123 0x200000 3, .setFlags 0x400000 7, .unmap 0x400000]
        (run PageTables.exec emptyTree
          [.map 0x400123 0x200000 3, .setFlags 0x400000 7, .unmap 0x400000]).1
        (run PageTables.exec emptyTree
          [.map 0x400123 0x200000 3, .setFlags 0x400000 7, .unmap 0x400000]).2.translate :=
  paging_run_refines_map emptyTree _ emptyTree_wellFormed (by simp [PageOp.Valid])

end Kaviz.Paging
