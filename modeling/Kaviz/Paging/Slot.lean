import Kaviz.Paging.Pool

/-! # One slot of the root table

The kernel maps its heap through a single entry of the root table. What the
bootloader left behind the other entries is not known to be a tree at all, so
the tables are compared with ones in which all other entries are cleared. Those
are well formed from the start, and `map_page` treats both alike as long as it
stays in the slot.
-/

namespace Kaviz.Paging

open Bytes Radix

namespace PageTables

/-- A byte outside the root table or of its entry `i`. -/
def Kept (t : PageTables) (i a : Nat) : Prop :=
  a < t.pml4 ∨ t.pml4 + 4096 ≤ a ∨ (t.pml4 + 8 * i ≤ a ∧ a < t.pml4 + 8 * i + 8)

instance (t : PageTables) (i a : Nat) : Decidable (t.Kept i a) :=
  inferInstanceAs (Decidable (_ ∨ _ ∨ _))

/-- The same tables, up to the entries of the root table other than `i`. -/
structure SameSlot (i : Nat) (t u : PageTables) : Prop where
  pml4 : u.pml4 = t.pml4
  poolBase : u.poolBase = t.poolBase
  poolUsed : u.poolUsed = t.poolUsed
  mem : ∀ a, t.Kept i a → u.mem a = t.mem a

/-- Clear every entry of the root table but `i`. -/
def onlySlot (t : PageTables) (i : Nat) : PageTables :=
  { t with mem := fun a => if t.Kept i a then t.mem a else 0 }

theorem sameSlot_onlySlot (t : PageTables) (i : Nat) : SameSlot i t (t.onlySlot i) :=
  ⟨rfl, rfl, rfl, fun _ ha => if_pos ha⟩

/-- No byte of the root table lies in the pool. -/
def RootOutside (t : PageTables) : Prop :=
  t.pml4 + 4096 ≤ t.poolBase ∨ t.poolBase + poolSize ≤ t.pml4

/-- The root table at boot, as far as slot `i` is concerned. -/
structure SlotEmpty (t : PageTables) (i : Nat) : Prop where
  /-- `vmm.pml4` is `cr3 & ~0xFFF`. -/
  rootAligned : t.pml4 % 4096 = 0
  absent : ¬ Present (t.entry t.pml4 i)
  rootOutside : t.RootOutside
  poolAligned : t.poolBase % 4096 = 0
  poolBound : t.poolBase + poolSize ≤ 2 ^ 64
  poolUnused : t.poolUsed = 0

/-! ## Edits -/

section Edits

variable {t u : PageTables} {i : Nat}

theorem SameSlot.entry_eq (h : SameSlot i t u) {table j : Nat}
    (hkept : ∀ k, k < 8 → t.Kept i (table + 8 * j + k)) : u.entry table j = t.entry table j := by
  apply readLE_congr
  intro x hlo hhi
  apply h.mem
  have hx := hkept (x - (table + 8 * j)) (by omega)
  rwa [Nat.add_sub_cancel' hlo] at hx

theorem SameSlot.entry_root (h : SameSlot i t u) : u.entry u.pml4 i = t.entry t.pml4 i := by
  rw [h.pml4]
  apply h.entry_eq
  intro k hk
  unfold Kept
  omega

theorem SameSlot.entry_pool (h : SameSlot i t u) (hroot : u.RootOutside) {table j : Nat}
    (hlo : u.poolBase ≤ table) (hhi : table + 4096 ≤ u.poolBase + poolSize) (hj : j < 512) :
    u.entry table j = t.entry table j := by
  apply h.entry_eq
  intro k hk
  rw [RootOutside, h.pml4] at hroot
  unfold Kept
  omega

theorem writeLE_agree {m m' : Mem} {P : Nat → Prop} (h : ∀ x, P x → m x = m' x) (a n v : Nat) :
    ∀ x, P x → writeLE m a n v x = writeLE m' a n v x := by
  induction n generalizing m m' a v with
  | zero => exact h
  | succ n ih =>
      apply ih
      intro x hx
      by_cases hxa : x = a
      · subst hxa
        rw [setByte_same, setByte_same]
      · rw [setByte_other _ _ hxa, setByte_other _ _ hxa]
        exact h x hx

theorem SameSlot.setEntry (h : SameSlot i t u) (table j e : Nat) :
    SameSlot i (t.setEntry table j e) (u.setEntry table j e) :=
  ⟨h.pml4, h.poolBase, h.poolUsed, writeLE_agree h.mem _ _ _⟩

theorem SameSlot.zeroEntries (h : SameSlot i t u) (table n : Nat) :
    SameSlot i (t.zeroEntries table n) (u.zeroEntries table n) := by
  induction n with
  | zero => exact h
  | succ n ih => exact ih.setEntry table n 0

theorem SameSlot.flushTlb (h : SameSlot i t u) : SameSlot i t.flushTlb u.flushTlb :=
  ⟨h.pml4, h.poolBase, h.poolUsed, h.mem⟩

theorem SameSlot.flushTlbSingle (h : SameSlot i t u) (a : Nat) :
    SameSlot i (t.flushTlbSingle a) (u.flushTlbSingle a) :=
  ⟨h.pml4, h.poolBase, h.poolUsed, h.mem⟩

theorem SameSlot.bootstrapAlloc (h : SameSlot i t u) (size : Nat) :
    ∃ r t' u', t.bootstrapAlloc size = (r, t') ∧ u.bootstrapAlloc size = (r, u') ∧
      SameSlot i t' u' := by
  unfold PageTables.bootstrapAlloc
  dsimp only
  rw [h.poolUsed, h.poolBase]
  by_cases hfull : (t.poolUsed + (size + 3) % 2 ^ 32 / 4 * 4) % 2 ^ 32 > poolSize
  · rw [if_pos hfull, if_pos hfull]
    exact ⟨none, t, u, rfl, rfl, h⟩
  · rw [if_neg hfull, if_neg hfull]
    exact ⟨_, _, _, rfl, rfl, h.pml4, rfl, rfl, h.mem⟩

theorem SameSlot.nextTable (h : SameSlot i t u) {table j : Nat}
    (hentry : u.entry table j = t.entry table j) :
    (u.nextTable table j = none ∧ t.nextTable table j = none) ∨
      ∃ new u' t', u.nextTable table j = some (new, u') ∧ t.nextTable table j = some (new, t') ∧
        SameSlot i t' u' := by
  unfold PageTables.nextTable
  rw [hentry]
  by_cases hpresent : Present (t.entry table j)
  · rw [if_pos hpresent, if_pos hpresent]
    exact Or.inr ⟨_, u, t, rfl, rfl, h⟩
  · rw [if_neg hpresent, if_neg hpresent]
    obtain ⟨r, t₁, u₁, ht, hu, hsame⟩ := h.bootstrapAlloc (8 * 512)
    rw [ht, hu]
    cases r with
    | none => exact Or.inl ⟨rfl, rfl⟩
    | some new =>
        refine Or.inr ⟨new, _, _, rfl, rfl, ?_⟩
        exact ((hsame.zeroEntries new 512).setEntry table j _).flushTlb

end Edits

/-! ## A tree of one slot -/

/-- `u` is a well-formed tree below slot `i` alone, taken from the pool, and `t`
looks the same there. -/
structure Shadows (i : Nat) (t u : PageTables) : Prop where
  same : SameSlot i t u
  wf : u.WellFormed
  pool : u.FromPool (· ≠ [])
  root : u.RootOutside

section Shadow

variable {t u u' : PageTables} {i v p f : Nat}

@[simp] theorem flushTlb_pml4 (t : PageTables) : t.flushTlb.pml4 = t.pml4 := rfl

@[simp] theorem flushTlb_poolBase (t : PageTables) : t.flushTlb.poolBase = t.poolBase := rfl

theorem Linked.root_eq {target : List Nat} (h : Linked target u u') :
    u'.pml4 = u.pml4 ∧ u'.poolBase = u.poolBase := by
  induction h with
  | refl => exact ⟨rfl, rfl⟩
  | link _ _ _ ih =>
      rw [flushTlb_pml4, flushTlb_poolBase, link_pml4, link_poolBase]
      exact ih

theorem RootOutside.mapPage (h : u.RootOutside) (hwf : u.WellFormed) :
    (u.mapPage v p f).2.RootOutside := by
  rcases mapPage_cases (v := v) (p := p) (f := f) hwf with
    ⟨u', heq, hlinked, -⟩ | ⟨u', pt, hlinked, -, heq⟩
  · obtain ⟨hroot, hbase⟩ := hlinked.root_eq
    rw [heq, RootOutside, hroot, hbase]
    exact h
  · obtain ⟨hroot, hbase⟩ := hlinked.root_eq
    rw [heq, RootOutside]
    change u'.pml4 + 4096 ≤ u'.poolBase ∨ u'.poolBase + poolSize ≤ u'.pml4
    rw [hroot, hbase]
    exact h

/-- Tables below the slot have the same entries in both. -/
theorem Shadows.entry_eq (h : Shadows i t u) {path : List Nat} {table j : Nat} (hne : path ≠ [])
    (hpath : Within 512 3 path) (hreach : u.tableAt path = some table) (hj : j < 512) :
    u.entry table j = t.entry table j := by
  have hin := h.pool path table hne hpath hreach
  have hused := h.wf.usedBound
  exact h.same.entry_pool h.root hin.1 (by omega) hj

theorem Shadows.nextTable (h : Shadows i t u) {target path : List Nat} {table j new : Nat}
    (hpath : Within 512 2 path) (hreach : u.tableAt path = some table) (hj : j < 512)
    (hbelow : path ++ [j] <+: target) (hentry : u.entry table j = t.entry table j)
    (hnext : u.nextTable table j = some (new, u')) :
    ∃ t', t.nextTable table j = some (new, t') ∧ Shadows i t' u' ∧
      u'.tableAt (path ++ [j]) = some new := by
  obtain ⟨hlinked, hat⟩ := nextTable_spec path h.wf hpath hreach hj hbelow hnext
  rcases h.same.nextTable hentry with ⟨hnone, -⟩ | ⟨new', u₁, t₁, hu, ht, hsame⟩
  · rw [hnext] at hnone
    cases hnone
  · rw [hnext] at hu
    cases hu
    obtain ⟨hroot, hbase⟩ := hlinked.root_eq
    refine ⟨t₁, ht, ⟨hsame, hlinked.wellFormed h.wf, hlinked.fromPool h.pool, ?_⟩, hat⟩
    rw [RootOutside, hroot, hbase]
    exact h.root

theorem Shadows.nextTable_none (h : Shadows i t u) {table j : Nat}
    (hentry : u.entry table j = t.entry table j) (hnext : u.nextTable table j = none) :
    t.nextTable table j = none := by
  rcases h.same.nextTable hentry with ⟨-, hnone⟩ | ⟨new, u₁, t₁, hu, -⟩
  · exact hnone
  · rw [hnext] at hu
    cases hu

/-- `map_page` on a page of the slot does the same on both. -/
theorem Shadows.mapPage_same (h : Shadows (pml4Index (pageAlign v)) t u) :
    (t.mapPage v p f).1 = (u.mapPage v p f).1 ∧
      SameSlot (pml4Index (pageAlign v)) (t.mapPage v p f).2 (u.mapPage v p f).2 := by
  have hwithin := tablePath_within (pageNumber v)
  rw [tablePath_pageNumber] at hwithin
  have hlt := hwithin.2
  have hroot := h.same.entry_root
  rw [← h.same.pml4] at hroot
  unfold mapPage
  dsimp only
  rw [← h.same.pml4]
  cases h₁ : u.nextTable u.pml4 (pml4Index (pageAlign v)) with
  | none =>
      rw [h.nextTable_none hroot h₁]
      exact ⟨rfl, h.same⟩
  | some r₁ =>
    obtain ⟨pdpt, u₁⟩ := r₁
    have hnil : Within 512 2 [] := ⟨by simp, by simp⟩
    obtain ⟨t₁, ht₁, hs₁, hat₁⟩ := h.nextTable hnil rfl (hlt _ (by simp)) (List.prefix_refl _)
      hroot h₁
    rw [ht₁]
    dsimp only
    have hin₁ : Within 512 2 ([] ++ [pml4Index (pageAlign v)]) :=
      ⟨by simp, fun k hk => hlt k (by simp at hk; simp [hk])⟩
    have hentry₁ := hs₁.entry_eq (by simp) ⟨Nat.le_succ_of_le hin₁.1, hin₁.2⟩ hat₁
      (hlt (pdptIndex (pageAlign v)) (by simp))
    cases h₂ : u₁.nextTable pdpt (pdptIndex (pageAlign v)) with
    | none =>
        rw [hs₁.nextTable_none hentry₁ h₂]
        exact ⟨rfl, hs₁.same⟩
    | some r₂ =>
      obtain ⟨pd, u₂⟩ := r₂
      obtain ⟨t₂, ht₂, hs₂, hat₂⟩ := hs₁.nextTable hin₁ hat₁ (hlt _ (by simp))
        (List.prefix_refl _) hentry₁ h₂
      rw [ht₂]
      dsimp only
      have hin₂ : Within 512 2 ([] ++ [pml4Index (pageAlign v)] ++ [pdptIndex (pageAlign v)]) :=
        ⟨by simp, fun k hk => hlt k (by simp at hk; rcases hk with rfl | rfl <;> simp)⟩
      have hentry₂ := hs₂.entry_eq (by simp) ⟨Nat.le_succ_of_le hin₂.1, hin₂.2⟩ hat₂
        (hlt (pdIndex (pageAlign v)) (by simp))
      cases h₃ : u₂.nextTable pd (pdIndex (pageAlign v)) with
      | none =>
          rw [hs₂.nextTable_none hentry₂ h₃]
          exact ⟨rfl, hs₂.same⟩
      | some r₃ =>
        obtain ⟨pt, u₃⟩ := r₃
        obtain ⟨t₃, ht₃, hs₃, -⟩ := hs₂.nextTable hin₂ hat₂ (hlt _ (by simp))
          (List.prefix_refl _) hentry₂ h₃
        rw [ht₃]
        exact ⟨rfl, (hs₃.same.setEntry _ _ _).flushTlbSingle _⟩

theorem Shadows.mapPage (h : Shadows i t u) (hv : pml4Index (pageAlign v) = i) (hp : p < 2 ^ 64)
    (hf : f < 4096) :
    (t.mapPage v p f).1 = (u.mapPage v p f).1 ∧
      Shadows i (t.mapPage v p f).2 (u.mapPage v p f).2 := by
  subst hv
  obtain ⟨hret, hsame⟩ := h.mapPage_same (p := p) (f := f)
  exact ⟨hret, hsame, (mapPage_spec h.wf hp hf).1, h.pool.mapPage h.wf hp hf, h.root.mapPage h.wf⟩

theorem Shadows.tableAt (h : Shadows i t u) {path : List Nat} {table : Nat}
    (hpath : Within 512 3 (i :: path)) (hreach : u.tableAt (i :: path) = some table) :
    t.tableAt (i :: path) = some table := by
  induction path using List.reverseRecOn generalizing table with
  | nil =>
      have hone : ∀ x : PageTables, x.tableAt [i] = x.childTable x.pml4 i := by
        intro x
        simp only [PageTables.tableAt, walk, Option.bind_fun_some]
      rw [hone, childTable, h.same.entry_root] at hreach
      rw [hone, childTable]
      exact hreach
  | append_singleton path j ih =>
      rw [PageTables.tableAt, ← List.cons_append, walk_snoc] at hreach
      obtain ⟨parent, hparent, hchild⟩ := Option.bind_eq_some_iff.mp hreach
      have hin : Within 512 3 (i :: path) := Within.of_append (q := [j]) hpath
      have hj : j < 512 := hpath.2 j (by simp)
      have hup : walk t.childTable t.pml4 (i :: path) = some parent := ih hin hparent
      have hentry := h.entry_eq (List.cons_ne_nil _ _) hin hparent hj
      rw [PageTables.tableAt, ← List.cons_append, walk_snoc, hup, Option.bind_some, childTable,
        ← hentry]
      exact hchild

theorem Shadows.translate (h : Shadows i t u) {n : Nat} {x : Nat × Nat}
    (hn : n / 2 ^ 27 % 512 = i) (htr : u.translate n = some x) : t.translate n = some x := by
  unfold PageTables.translate at htr ⊢
  split at htr
  next hlt =>
    obtain ⟨pt, hpt, hleaf⟩ := Option.bind_eq_some_iff.mp htr
    have hpath := tablePath_within n
    have hentry := h.entry_eq (by simp [tablePath]) hpath hpt (Nat.mod_lt n (by decide : 0 < 512))
    unfold tablePath at hpt hpath ⊢
    rw [hn] at hpt hpath ⊢
    rw [if_pos hlt, h.tableAt hpath hpt, Option.bind_some, ← hentry]
    exact hleaf
  next => cases htr

/-! ## Boot -/

theorem SlotEmpty.entry_absent (h : t.SlotEmpty i) {j : Nat} (hj : j < 512) :
    ¬ Present ((t.onlySlot i).entry t.pml4 j) := by
  by_cases hji : j = i
  · subst hji
    have hsame := (sameSlot_onlySlot t j).entry_root
    rw [show (t.onlySlot j).pml4 = t.pml4 from rfl] at hsame
    rw [hsame]
    exact h.absent
  · have hzero : (t.onlySlot i).entry t.pml4 j = readLE (fun _ => 0) (t.pml4 + 8 * j) 8 := by
      apply readLE_congr
      intro x hlo hhi
      apply if_neg
      unfold Kept
      omega
    rw [hzero]
    simp [Present, readLE]

theorem SlotEmpty.tableAt (h : t.SlotEmpty i) {path : List Nat} {table : Nat}
    (hpath : Within 512 3 path) (hreach : (t.onlySlot i).tableAt path = some table) :
    path = [] ∧ table = t.pml4 := by
  cases path with
  | nil =>
      cases hreach
      exact ⟨rfl, rfl⟩
  | cons j path =>
      have hchild : (t.onlySlot i).childTable (t.onlySlot i).pml4 j = none :=
        if_neg (h.entry_absent (hpath.2 j (by simp)))
      rw [PageTables.tableAt, walk, hchild] at hreach
      cases hreach

/-- An empty slot starts as a tree without tables. -/
theorem SlotEmpty.shadows (h : t.SlotEmpty i) : Shadows i t (t.onlySlot i) := by
  have hbase : (t.onlySlot i).poolBase = t.poolBase := rfl
  have hused : (t.onlySlot i).poolUsed = 0 := h.poolUnused
  have hroot := h.rootOutside
  refine ⟨sameSlot_onlySlot t i, ⟨?_, h.rootAligned, ?_, h.poolAligned, h.poolBound, ?_, ?_, ?_⟩,
    ?_, hroot⟩
  · intro p q x hp hq hpx hqx
    exact (h.tableAt hp hpx).1.trans (h.tableAt hq hqx).1.symm
  · intro path table j hpath hreach hj hpresent
    obtain ⟨-, rfl⟩ := h.tableAt ⟨Nat.le_succ_of_le hpath.1, hpath.2⟩ hreach
    exact absurd hpresent (h.entry_absent hj)
  · rw [hused]
  · rw [hused]
    exact Nat.zero_le _
  · intro path table hpath hreach
    obtain ⟨-, rfl⟩ := h.tableAt hpath hreach
    unfold RootOutside at hroot
    rw [hbase]
    omega
  · intro path table hne hpath hreach
    exact absurd (h.tableAt hpath hreach).1 hne

end Shadow

end PageTables

end Kaviz.Paging
