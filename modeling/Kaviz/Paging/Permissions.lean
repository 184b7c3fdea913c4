import Kaviz.Paging.Pool

/-! # Access from user mode

The processor lets user mode through only if the user bit is set in the entries
of all four levels. `map_page` links the tables it creates with
`PAGE_PRESENT | PAGE_WRITABLE`, whatever the flags of the page are, so a page
below such a table stays closed to user mode.
-/

namespace Kaviz.Paging

open Bytes Radix

/-- `flags & PAGE_USER`. -/
abbrev HasUser (e : Nat) : Prop := e / pageUser % 2 = 1

/-- An entry as `map_page` writes it for a table it creates. -/
def Created (e : Nat) : Prop :=
  ∃ table, table % 4096 = 0 ∧ e = table ||| pagePresent ||| pageWritable

theorem Created.not_user {e : Nat} (h : Created e) : ¬ HasUser e := by
  obtain ⟨table, haligned, rfl⟩ := h
  rw [Nat.or_assoc, or_flags haligned (by decide)]
  simp only [HasUser, pageUser, pagePresent, pageWritable]
  have hthree : (1 ||| 2 : Nat) = 3 := by decide
  omega

namespace PageTables

/-- The walk of the processor along four indices, in user mode. -/
def userWalk (t : PageTables) : Nat → List Nat → Prop
  | _, [] => True
  | table, i :: is =>
      Present (t.entry table i) ∧ HasUser (t.entry table i) ∧
        userWalk t (pageAlign (t.entry table i)) is

def UserAccess (t : PageTables) (n : Nat) : Prop := userWalk t t.pml4 (tablePath n ++ [n % 512])

/-- The tables on the path of a page are missing or were created by `map_page`. -/
def CreatedPath (t : PageTables) (n : Nat) : Prop :=
  ∀ path table i, path ++ [i] <+: tablePath n → t.tableAt path = some table →
    Present (t.entry table i) → Created (t.entry table i)

variable {t t' : PageTables} {n v p f : Nat} {target : List Nat}

/-- The first level alone decides: its table was created without the user bit. -/
theorem CreatedPath.no_access (h : t.CreatedPath n) : ¬ t.UserAccess n := by
  rintro ⟨hpresent, huser, -⟩
  exact (h [] t.pml4 _ ⟨_, rfl⟩ rfl hpresent).not_user huser

theorem CreatedPath.linked (h : t.CreatedPath n) (hlinked : Linked target t t') :
    t'.CreatedPath n := by
  induction hlinked with
  | refl => exact h
  | @link t' path table i _ hm _ ih =>
      intro path' table' j hbelow hreach hpresent
      rw [flushTlb_tableAt] at hreach
      have hentry : (t'.linkPoolTable table i).flushTlb.entry table' j =
        (t'.linkPoolTable table i).entry table' j := flushTlb_entry _ _ _
      rw [hentry] at hpresent ⊢
      have hj : path' ++ [j] <+: tablePath n := hbelow
      have hwithin : Within 512 3 (path' ++ [j]) := by
        obtain ⟨rest, hrest⟩ := hj
        exact Within.of_append (hrest ▸ tablePath_within n)
      rcases hm.tableAt_cases hwithin.of_append hreach with ⟨-, rfl⟩ | hold
      · rw [hm.entry_new hwithin.last_lt] at hpresent
        exact absurd hpresent (by decide)
      · by_cases hsame : table' = table ∧ j = i
        · obtain ⟨rfl, rfl⟩ := hsame
          refine ⟨t'.poolBase + t'.poolUsed, hm.new_aligned, ?_⟩
          rw [hm.entry_link, hm.linkEntry_eq]
        · rw [hm.entry_other hwithin.of_append hold hwithin.last_lt hsame] at hpresent ⊢
          exact ih path' table' j hbelow hold hpresent

theorem CreatedPath.setEntry_leaf {m pt i e : Nat} (h : t.CreatedPath n) (hwf : t.WellFormed)
    (hpt : t.tableAt (tablePath m) = some pt) (hi : i < 512) (he : e < 2 ^ 64) :
    (t.setEntry pt i e).CreatedPath n := by
  intro path table j hbelow hreach hpresent
  have hwithin : Within 512 3 (path ++ [j]) := by
    obtain ⟨rest, hrest⟩ := hbelow
    exact Within.of_append (hrest ▸ tablePath_within n)
  rw [setEntry_leaf_tableAt hwf hpt hi he path hwithin.of_append] at hreach
  have hne : ¬ (table = pt ∧ j = i) := by
    rintro ⟨rfl, -⟩
    have hpath := hwf.separated _ _ _ hwithin.of_append (tablePath_within m) hreach hpt
    have hlen := hwithin.1
    rw [hpath] at hlen
    simp [tablePath] at hlen
  have hkeep := t.entry_setEntry_of_aligned he (tableAt_aligned hwf hpt) (tableAt_aligned hwf hreach)
    hi hwithin.last_lt
  rw [if_neg hne] at hkeep
  rw [hkeep] at hpresent ⊢
  exact h path table j hbelow hreach hpresent

theorem CreatedPath.mapPage (h : t.CreatedPath n) (hwf : t.WellFormed) (hp : p < 2 ^ 64)
    (hf : f < 4096) : (t.mapPage v p f).2.CreatedPath n := by
  rcases mapPage_cases (v := v) (p := p) (f := f) hwf with
    ⟨t', heq, hlinked, -⟩ | ⟨t', pt, hlinked, hpt, heq⟩
  · rw [heq]
    exact h.linked hlinked
  · have hle := pageAlign_le p
    have he := leafEntry_lt (pageAlign_mod p) (Nat.lt_of_le_of_lt hle hp) hf
    rw [heq]
    exact (h.linked hlinked).setEntry_leaf (hlinked.wellFormed hwf) hpt (Nat.mod_lt _ (by decide)) he

end PageTables

/-- A page mapped below tables of `map_page` is open to user mode as its flags
say exactly when they do not ask for it, or when it cannot be mapped at all. -/
theorem user_access_as_flagged_iff (t : PageTables) (v p f : Nat) (hwf : t.WellFormed)
    (hpath : t.CreatedPath (pageNumber v)) (hp : p < 2 ^ 64) (hf : f < 4096) :
    ((t.mapPage v p f).1 = 0 → ((t.mapPage v p f).2.UserAccess (pageNumber v) ↔ HasUser f)) ↔
      ¬ HasUser f ∨ t.freeTables < t.missingTables (pageNumber v) := by
  have hclosed := (hpath.mapPage (v := v) hwf hp hf).no_access
  rw [PageTables.mapPage_ok_iff hwf]
  constructor
  · intro hopen
    by_cases hroom : t.missingTables (pageNumber v) ≤ t.freeTables
    · exact Or.inl fun huser => hclosed ((hopen hroom).mpr huser)
    · exact Or.inr (Nat.not_le.mp hroom)
  · rintro (hnone | hfull) hroom
    · exact iff_of_false hclosed hnone
    · omega

theorem emptyTree_createdPath (n : Nat) : emptyTree.CreatedPath n := by
  intro path table i _ _ hpresent
  simp [Present, PageTables.entry, emptyTree, readLE] at hpresent

/-- A user page of an empty tree is closed to user mode. -/
theorem user_page_closed : (emptyTree.mapPage 0x400000 0x200000 7).1 = 0 ∧ HasUser 7 ∧
    ¬ (emptyTree.mapPage 0x400000 0x200000 7).2.UserAccess (pageNumber 0x400000) :=
  ⟨emptyTree_mapPage _ _ _, by decide,
    ((emptyTree_createdPath _).mapPage emptyTree_wellFormed (by decide) (by decide)).no_access⟩

/-- A kernel page of an empty tree is as closed as its flags say. -/
theorem user_access_kernel_page :
    (emptyTree.mapPage 0x400000 0x200000 3).2.UserAccess (pageNumber 0x400000) ↔ HasUser 3 :=
  (user_access_as_flagged_iff emptyTree 0x400000 0x200000 3 emptyTree_wellFormed
    (emptyTree_createdPath _) (by decide) (by decide)).mpr (Or.inl (by decide))
    (emptyTree_mapPage _ _ _)

end Kaviz.Paging
