import Kaviz.Lib.Radix
import Kaviz.Paging.Tables

/-! # What a page-table tree translates

The tree is read as a partial map from page numbers to frames and flags. Every
table is named by its index path, and `WellFormed` keeps different paths on
different tables and the whole tree away from the unused part of the bootstrap
pool. The two edits the kernel makes, linking an empty pool table and writing a
leaf entry, are specified here against the map; the operations only combine
them.
-/

namespace Kaviz.Paging

open Bytes Radix

/-! ## Entry arithmetic -/

theorem pageAlign_mod (a : Nat) : pageAlign a % 4096 = 0 := by
  unfold pageAlign
  omega

theorem pageAlign_le (a : Nat) : pageAlign a ≤ a := by
  unfold pageAlign
  omega

theorem pageAlign_of_aligned {a : Nat} (h : a % 4096 = 0) : pageAlign a = a := by
  unfold pageAlign
  omega

/-- Flags occupy the bits an aligned address leaves clear. -/
theorem or_flags {p f : Nat} (hp : p % 4096 = 0) (hf : f < 4096) : p ||| f = p + f := by
  have h := Nat.two_pow_add_eq_or_of_lt (i := 12) (b := f) (by omega) (p / 4096)
  have hmul : 2 ^ 12 * (p / 4096) = p := by omega
  rw [hmul] at h
  exact h.symm

theorem flags_present_lt {f : Nat} (hf : f < 4096) : f ||| pagePresent < 4096 :=
  Nat.or_lt_two_pow (n := 12) (by omega) (by decide)

theorem flags_present_odd (f : Nat) : (f ||| pagePresent) % 2 = 1 := by
  simp [pagePresent]

/-- Frame and flags of a present leaf entry. -/
def decodeLeaf (e : Nat) : Option (Nat × Nat) :=
  if Present e then some (pageAlign e, e % 4096) else none

theorem decodeLeaf_zero : decodeLeaf 0 = none := rfl

/-- The leaf entries `map_page` and `set_page_flags` write. -/
theorem decodeLeaf_entry {p f : Nat} (hp : p % 4096 = 0) (hf : f < 4096) :
    decodeLeaf (p ||| f ||| pagePresent) = some (p, f ||| pagePresent) := by
  have hlt := flags_present_lt hf
  have hodd := flags_present_odd f
  have hsum : p ||| f ||| pagePresent = p + (f ||| pagePresent) := by
    rw [Nat.or_assoc, or_flags hp hlt]
  have hpresent : Present (p + (f ||| pagePresent)) := by
    unfold Present
    omega
  rw [hsum, decodeLeaf, if_pos hpresent]
  congr 2
  · unfold pageAlign
    omega
  · omega

theorem leafEntry_lt {p f : Nat} (hp : p % 4096 = 0) (hlt : p < 2 ^ 64) (hf : f < 4096) :
    p ||| f ||| pagePresent < 2 ^ 64 := by
  have hflags := flags_present_lt hf
  rw [Nat.or_assoc, or_flags hp hflags]
  omega

/-! ## Paths and pages -/

/-- The three indices that lead to the page table of a page. -/
def tablePath (n : Nat) : List Nat := [n / 2 ^ 27 % 512, n / 2 ^ 18 % 512, n / 2 ^ 9 % 512]

theorem tablePath_within (n : Nat) : Within 512 3 (tablePath n) := by
  refine ⟨by simp [tablePath], fun i hi => ?_⟩
  simp only [tablePath, List.mem_cons, List.not_mem_nil, or_false] at hi
  omega

theorem page_eq_of_path {n m : Nat} (hn : n < 2 ^ 36) (hm : m < 2 ^ 36)
    (hpath : tablePath n = tablePath m) (hleaf : n % 512 = m % 512) : n = m := by
  simp only [tablePath, List.cons.injEq, and_true] at hpath
  omega

theorem tablePath_pageNumber (v : Nat) :
    tablePath (pageNumber v) =
      [pml4Index (pageAlign v), pdptIndex (pageAlign v), pdIndex (pageAlign v)] := by
  simp only [tablePath, pageNumber, pml4Index, pdptIndex, pdIndex, pageAlign, List.cons.injEq,
    and_true]
  omega

theorem ptIndex_pageAlign (v : Nat) : ptIndex (pageAlign v) = pageNumber v % 512 := by
  unfold ptIndex pageAlign pageNumber
  omega

theorem pageNumber_lt (v : Nat) : pageNumber v < 2 ^ 36 := by
  unfold pageNumber
  omega

namespace PageTables

def tableAt (t : PageTables) (path : List Nat) : Option Nat := walk t.childTable t.pml4 path

/-- The partial map from page numbers to frames and flags that the tree denotes. -/
def translate (t : PageTables) (n : Nat) : Option (Nat × Nat) :=
  if n < 2 ^ 36 then (t.tableAt (tablePath n)).bind fun pt => decodeLeaf (t.entry pt (n % 512))
  else none

structure WellFormed (t : PageTables) : Prop where
  separated : Separated t.childTable t.pml4 512 3
  rootAligned : t.pml4 % 4096 = 0
  noHuge : ∀ path table i, Within 512 2 path → t.tableAt path = some table → i < 512 →
    Present (t.entry table i) → t.entry table i / 128 % 2 = 0
  poolAligned : t.poolBase % 4096 = 0
  poolBound : t.poolBase + poolSize ≤ 2 ^ 64
  usedAligned : t.poolUsed % 4096 = 0
  usedBound : t.poolUsed ≤ poolSize
  outsidePool : ∀ path table, Within 512 3 path → t.tableAt path = some table →
    table + 4096 ≤ t.poolBase + t.poolUsed ∨ t.poolBase + poolSize ≤ table

/-- The tables at paths in `S` were taken from the pool. -/
def FromPool (t : PageTables) (S : List Nat → Prop) : Prop :=
  ∀ path table, S path → Within 512 3 path → t.tableAt path = some table →
    t.poolBase ≤ table ∧ table + 4096 ≤ t.poolBase + t.poolUsed

section Basic

variable {t : PageTables} {path path' : List Nat} {table table' i j : Nat}

theorem tableAt_aligned (hwf : t.WellFormed) (h : t.tableAt path = some table) :
    table % 4096 = 0 := by
  rcases List.eq_nil_or_concat path with rfl | ⟨p, k, rfl⟩
  · cases h
    exact hwf.rootAligned
  · rw [tableAt, List.concat_eq_append, walk_snoc] at h
    obtain ⟨parent, _, hchild⟩ := Option.bind_eq_some_iff.mp h
    unfold childTable at hchild
    split at hchild
    · cases hchild
      exact pageAlign_mod _
    · cases hchild

theorem entry_lt (t : PageTables) (table i : Nat) : t.entry table i < 2 ^ 64 :=
  readLE8_lt _ _

/-- Entries of aligned tables overlap only when they are the same entry. -/
theorem entry_setEntry_of_aligned (t : PageTables) {e : Nat} (he : e < 2 ^ 64)
    (ha : table % 4096 = 0) (ha' : table' % 4096 = 0) (hi : i < 512) (hj : j < 512) :
    (t.setEntry table i e).entry table' j =
      if table' = table ∧ j = i then e else t.entry table' j := by
  unfold entry setEntry
  by_cases hsame : table' = table ∧ j = i
  · obtain ⟨rfl, rfl⟩ := hsame
    simp [readLE8_writeLE8_same _ _ he]
  · rw [if_neg hsame]
    apply readLE_writeLE_disjoint
    by_cases htable : table' = table
    · have hne : j ≠ i := fun h => hsame ⟨htable, h⟩
      omega
    · omega

theorem flushTlb_tableAt (t : PageTables) : t.flushTlb.tableAt = t.tableAt := rfl

theorem flushTlb_entry (t : PageTables) (table i : Nat) :
    t.flushTlb.entry table i = t.entry table i := rfl

theorem flushTlb_translate (t : PageTables) : t.flushTlb.translate = t.translate := rfl

theorem flushTlbSingle_translate (t : PageTables) (a : Nat) :
    (t.flushTlbSingle a).translate = t.translate := rfl

theorem WellFormed.flushTlb (hwf : t.WellFormed) : t.flushTlb.WellFormed := by
  cases hwf
  constructor <;> assumption

theorem FromPool.flushTlb {S : List Nat → Prop} (h : t.FromPool S) : t.flushTlb.FromPool S := h

theorem WellFormed.flushTlbSingle (hwf : t.WellFormed) (a : Nat) :
    (t.flushTlbSingle a).WellFormed := by
  cases hwf
  constructor <;> assumption

end Basic

/-! ## Writing a leaf entry -/

section Leaf

variable {t : PageTables} {path : List Nat} {table i e n : Nat}

theorem setEntry_agree (hwf : t.WellFormed) (htable : t.tableAt path = some table) (hi : i < 512)
    (he : e < 2 ^ 64) :
    AgreeExcept t.childTable (t.setEntry table i e).childTable t.pml4 512 3 table i := by
  intro p table' j _ hp hj hne
  have hkeep := t.entry_setEntry_of_aligned he (tableAt_aligned hwf htable)
    (tableAt_aligned hwf hp) hi hj
  rw [if_neg hne] at hkeep
  simp only [childTable, hkeep]

/-- A leaf entry lies below every table of the tree. -/
theorem setEntry_leaf_tableAt (hwf : t.WellFormed) (htable : t.tableAt (tablePath n) = some table)
    (hi : i < 512) (he : e < 2 ^ 64) (p : List Nat) (hp : Within 512 3 p) :
    (t.setEntry table i e).tableAt p = t.tableAt p := by
  refine walk_frame hwf.separated (tablePath_within n) htable
    (setEntry_agree hwf htable hi he) p hp fun hbelow => ?_
  have hlen := hbelow.length_le
  have hshort := hp.1
  simp only [tablePath, List.length_append, List.length_cons, List.length_nil] at hlen
  omega

theorem setEntry_leaf_translate (hwf : t.WellFormed) (hn : n < 2 ^ 36)
    (htable : t.tableAt (tablePath n) = some table) (he : e < 2 ^ 64) (m : Nat) :
    (t.setEntry table (n % 512) e).translate m = if m = n then decodeLeaf e else t.translate m := by
  have hi : n % 512 < 512 := Nat.mod_lt _ (by decide)
  unfold translate
  by_cases hm : m < 2 ^ 36
  · rw [if_pos hm, if_pos hm,
      setEntry_leaf_tableAt hwf htable hi he _ (tablePath_within m)]
    cases hpt : t.tableAt (tablePath m) with
    | none =>
        have hne : m ≠ n := by
          rintro rfl
          rw [htable] at hpt
          cases hpt
        simp [hne]
    | some pt =>
        simp only [Option.bind_some]
        rw [t.entry_setEntry_of_aligned he (tableAt_aligned hwf htable)
          (tableAt_aligned hwf hpt) hi (Nat.mod_lt _ (by decide))]
        by_cases hmn : m = n
        · subst hmn
          rw [htable] at hpt
          cases hpt
          simp
        · have hne : ¬ (pt = table ∧ m % 512 = n % 512) := by
            rintro ⟨rfl, hleaf⟩
            have hpath := hwf.separated _ _ pt (tablePath_within m) (tablePath_within n) hpt htable
            exact hmn (page_eq_of_path hm hn hpath hleaf)
          rw [if_neg hne, if_neg hmn]
  · have hne : m ≠ n := by omega
    rw [if_neg hm, if_neg hm, if_neg hne]

theorem WellFormed.setEntry_leaf (hwf : t.WellFormed)
    (htable : t.tableAt (tablePath n) = some table) (hi : i < 512) (he : e < 2 ^ 64) :
    (t.setEntry table i e).WellFormed := by
  have hat := setEntry_leaf_tableAt hwf htable hi he
  refine ⟨?_, hwf.rootAligned, ?_, hwf.poolAligned, hwf.poolBound, hwf.usedAligned, hwf.usedBound, ?_⟩
  · intro p q x hp hq hpx hqx
    exact hwf.separated p q x hp hq ((hat p hp).symm.trans hpx) ((hat q hq).symm.trans hqx)
  · intro p x j hp hpx hj hpresent
    have hp₃ : Within 512 3 p := ⟨Nat.le_succ_of_le hp.1, hp.2⟩
    rw [hat p hp₃] at hpx
    -- Upper-level tables are not the page table being written.
    have hne : ¬ (x = table ∧ j = i) := by
      rintro ⟨rfl, _⟩
      have hpath := hwf.separated _ _ x hp₃ (tablePath_within n) hpx htable
      have hlen := hp.1
      rw [hpath] at hlen
      simp [tablePath] at hlen
    have hkeep := t.entry_setEntry_of_aligned he (tableAt_aligned hwf htable)
      (tableAt_aligned hwf hpx) hi hj
    rw [if_neg hne] at hkeep
    rw [hkeep] at hpresent ⊢
    exact hwf.noHuge p x j hp hpx hj hpresent
  · intro p x hp hpx
    rw [hat p hp] at hpx
    exact hwf.outsidePool p x hp hpx

theorem FromPool.setEntry_leaf {S : List Nat → Prop} (h : t.FromPool S) (hwf : t.WellFormed)
    (htable : t.tableAt (tablePath n) = some table) (hi : i < 512) (he : e < 2 ^ 64) :
    (t.setEntry table i e).FromPool S := by
  intro p x hS hp hx
  rw [setEntry_leaf_tableAt hwf htable hi he p hp] at hx
  exact h p x hS hp hx

end Leaf

/-! ## Linking a table from the pool -/

section Link

variable {t : PageTables} {path : List Nat} {table i j n : Nat}

@[simp] theorem zeroEntries_pml4 (t : PageTables) (table n : Nat) :
    (t.zeroEntries table n).pml4 = t.pml4 := by
  induction n with
  | zero => rfl
  | succ n ih => simpa [zeroEntries, setEntry] using ih

@[simp] theorem zeroEntries_poolBase (t : PageTables) (table n : Nat) :
    (t.zeroEntries table n).poolBase = t.poolBase := by
  induction n with
  | zero => rfl
  | succ n ih => simpa [zeroEntries, setEntry] using ih

@[simp] theorem zeroEntries_poolUsed (t : PageTables) (table n : Nat) :
    (t.zeroEntries table n).poolUsed = t.poolUsed := by
  induction n with
  | zero => rfl
  | succ n ih => simpa [zeroEntries, setEntry] using ih

theorem zeroEntries_entry_inside (t : PageTables) (table : Nat) {n : Nat} (hj : j < n) :
    (t.zeroEntries table n).entry table j = 0 := by
  induction n with
  | zero => omega
  | succ n ih =>
      unfold zeroEntries entry setEntry
      by_cases h : j = n
      · subst h
        exact readLE8_writeLE8_same _ _ (by decide)
      · rw [readLE_writeLE_disjoint _ _ (by omega)]
        exact ih (by omega)

theorem zeroEntries_entry_outside (t : PageTables) {new table n j : Nat}
    (h : table + 8 * j + 8 ≤ new ∨ new + 8 * n ≤ table + 8 * j) :
    (t.zeroEntries new n).entry table j = t.entry table j := by
  induction n with
  | zero => rfl
  | succ n ih =>
      have hstep : ((t.zeroEntries new n).setEntry new n 0).entry table j =
          (t.zeroEntries new n).entry table j :=
        readLE_writeLE_disjoint _ _ (by omega)
      rw [zeroEntries, hstep]
      exact ih (by omega)

/-- The state after taking one table from the pool, clearing it and linking it. -/
@[irreducible] def linkPoolTable (t : PageTables) (table i : Nat) : PageTables :=
  (({ t with poolUsed := t.poolUsed + 4096 }.zeroEntries (t.poolBase + t.poolUsed) 512).setEntry
    table i (t.poolBase + t.poolUsed ||| pagePresent ||| pageWritable))

theorem link_pml4 (t : PageTables) (table i : Nat) :
    (t.linkPoolTable table i).pml4 = t.pml4 := by
  simp [linkPoolTable, setEntry]

theorem link_poolUsed (t : PageTables) (table i : Nat) :
    (t.linkPoolTable table i).poolUsed = t.poolUsed + 4096 := by
  simp [linkPoolTable, setEntry]

theorem link_poolBase (t : PageTables) (table i : Nat) :
    (t.linkPoolTable table i).poolBase = t.poolBase := by
  simp [linkPoolTable, setEntry]

theorem bootstrapAlloc_table (hwf : t.WellFormed) :
    t.bootstrapAlloc (8 * 512) =
      if t.poolUsed = poolSize then (none, t)
      else (some (t.poolBase + t.poolUsed), { t with poolUsed := t.poolUsed + 4096 }) := by
  have hal := hwf.usedAligned
  have hbd := hwf.usedBound
  unfold bootstrapAlloc
  unfold poolSize at *
  by_cases hfull : t.poolUsed = 4096 * 16
  · simp [hfull]
  · have hsize : (t.poolUsed + (8 * 512 + 3) % 2 ^ 32 / 4 * 4) % 2 ^ 32 = t.poolUsed + 4096 := by
      omega
    simp only [hsize]
    rw [if_neg (by omega), if_neg hfull]

theorem nextTable_eq (hwf : t.WellFormed) (table i : Nat) :
    t.nextTable table i =
      if Present (t.entry table i) then some (pageAlign (t.entry table i), t)
      else if t.poolUsed = poolSize then none
      else some (t.poolBase + t.poolUsed, (t.linkPoolTable table i).flushTlb) := by
  unfold nextTable
  rw [bootstrapAlloc_table hwf]
  by_cases hpresent : Present (t.entry table i)
  · rw [if_pos hpresent, if_pos hpresent]
  · rw [if_neg hpresent, if_neg hpresent]
    by_cases hfull : t.poolUsed = poolSize
    · rw [if_pos hfull, if_pos hfull]
    · rw [if_neg hfull, if_neg hfull, linkPoolTable]

/-- A place in the tree where a table is missing and the pool can supply one. -/
structure MissingAt (t : PageTables) (path : List Nat) (table i : Nat) : Prop where
  wf : t.WellFormed
  within : Within 512 2 path
  reached : t.tableAt path = some table
  index : i < 512
  absent : ¬ Present (t.entry table i)
  room : t.poolUsed ≠ poolSize

namespace MissingAt

variable (h : t.MissingAt path table i)
include h

theorem within₃ : Within 512 3 path := ⟨Nat.le_succ_of_le h.within.1, h.within.2⟩

theorem new_aligned : (t.poolBase + t.poolUsed) % 4096 = 0 := by
  have hbase := h.wf.poolAligned
  have hused := h.wf.usedAligned
  omega

theorem new_bound : t.poolUsed + 4096 ≤ poolSize := by
  have hused := h.wf.usedAligned
  have hbd := h.wf.usedBound
  have hroom := h.room
  unfold poolSize at *
  omega

theorem new_apart {p : List Nat} {x : Nat} (hp : Within 512 3 p) (hx : t.tableAt p = some x) :
    x + 4096 ≤ t.poolBase + t.poolUsed ∨ t.poolBase + t.poolUsed + 4096 ≤ x := by
  have hout := h.wf.outsidePool p x hp hx
  have hbd := h.new_bound
  omega

theorem new_ne {p : List Nat} {x : Nat} (hp : Within 512 3 p) (hx : t.tableAt p = some x) :
    x ≠ t.poolBase + t.poolUsed := by
  have hout := h.new_apart hp hx
  omega

theorem linkEntry_eq : t.poolBase + t.poolUsed ||| pagePresent ||| pageWritable =
    t.poolBase + t.poolUsed + 3 := by
  rw [Nat.or_assoc]
  exact or_flags h.new_aligned (by decide)

theorem linkEntry_lt : t.poolBase + t.poolUsed ||| pagePresent ||| pageWritable < 2 ^ 64 := by
  have hbd := h.new_bound
  have hpool := h.wf.poolBound
  rw [h.linkEntry_eq]
  omega

theorem entry_link : (t.linkPoolTable table i).entry table i = t.poolBase + t.poolUsed + 3 := by
  have hal := tableAt_aligned h.wf h.reached
  rw [linkPoolTable, entry_setEntry_of_aligned _ h.linkEntry_lt hal hal h.index h.index,
    if_pos ⟨rfl, rfl⟩, h.linkEntry_eq]

theorem entry_new (hj : j < 512) :
    (t.linkPoolTable table i).entry (t.poolBase + t.poolUsed) j = 0 := by
  have hne := h.new_ne h.within₃ h.reached
  rw [linkPoolTable, entry_setEntry_of_aligned _ h.linkEntry_lt (tableAt_aligned h.wf h.reached)
    h.new_aligned h.index hj, if_neg (fun hsame => hne hsame.1.symm)]
  exact zeroEntries_entry_inside _ _ hj

theorem entry_other {p : List Nat} {x : Nat} (hp : Within 512 3 p) (hx : t.tableAt p = some x)
    (hj : j < 512) (hne : ¬ (x = table ∧ j = i)) :
    (t.linkPoolTable table i).entry x j = t.entry x j := by
  have hout := h.new_apart hp hx
  rw [linkPoolTable, entry_setEntry_of_aligned _ h.linkEntry_lt (tableAt_aligned h.wf h.reached)
    (tableAt_aligned h.wf hx) h.index hj, if_neg hne]
  exact zeroEntries_entry_outside _ (by omega)

theorem child_agree :
    AgreeExcept t.childTable (t.linkPoolTable table i).childTable t.pml4 512 3 table i := by
  intro p x k hp hx hk hne
  simp only [childTable, h.entry_other hp hx hk hne]

theorem child_link :
    (t.linkPoolTable table i).childTable table i = some (t.poolBase + t.poolUsed) := by
  have hal := h.new_aligned
  have hpresent : Present (t.poolBase + t.poolUsed + 3) := by
    unfold Present
    omega
  rw [childTable, h.entry_link, if_pos hpresent]
  congr 1
  unfold pageAlign
  omega

theorem child_new (k : Nat) (hk : k < 512) :
    (t.linkPoolTable table i).childTable (t.poolBase + t.poolUsed) k = none := by
  rw [childTable, h.entry_new hk]
  rfl

theorem tableAt_cases {p : List Nat} {x : Nat} (hp : Within 512 3 p)
    (hx : (t.linkPoolTable table i).tableAt p = some x) :
    (p = path ++ [i] ∧ x = t.poolBase + t.poolUsed) ∨ t.tableAt p = some x := by
  rw [tableAt, link_pml4] at hx
  exact walk_link_cases h.wf.separated h.within₃ h.reached h.child_agree h.child_link h.child_new
    hp hx

theorem tableAt_link :
    (t.linkPoolTable table i).tableAt (path ++ [i]) = some (t.poolBase + t.poolUsed) := by
  have hbelow := walk_below_link h.wf.separated h.within₃ h.reached h.child_agree h.child_link
    h.child_new [] (by simp)
  rw [tableAt, link_pml4]
  simpa using hbelow

theorem wellFormed : (t.linkPoolTable table i).WellFormed := by
  have hal := h.new_aligned
  have hbd := h.new_bound
  have hused := h.wf.usedAligned
  have hnewUsed := link_poolUsed t table i
  have hnewBase := link_poolBase t table i
  refine ⟨?_, ?_, ?_, ?_, ?_, ?_, ?_, ?_⟩
  · rw [link_pml4]
    exact separated_link h.wf.separated h.within₃ h.reached h.child_agree h.child_link
      h.child_new (fun p hp hx => h.new_ne hp hx rfl)
  · rw [link_pml4]
    exact h.wf.rootAligned
  · intro p x k hp hx hk hpresent
    have hp₃ : Within 512 3 p := ⟨Nat.le_succ_of_le hp.1, hp.2⟩
    rcases h.tableAt_cases hp₃ hx with ⟨_, rfl⟩ | hold
    · rw [h.entry_new hk] at hpresent
      exact absurd hpresent (by decide)
    · by_cases hsame : x = table ∧ k = i
      · obtain ⟨rfl, rfl⟩ := hsame
        rw [h.entry_link]
        omega
      · rw [h.entry_other hp₃ hold hk hsame] at hpresent ⊢
        exact h.wf.noHuge p x k hp hold hk hpresent
  · rw [hnewBase]
    exact h.wf.poolAligned
  · rw [hnewBase]
    exact h.wf.poolBound
  · rw [hnewUsed]
    omega
  · rw [hnewUsed]
    exact hbd
  · intro p x hp hx
    rw [hnewBase, hnewUsed]
    rcases h.tableAt_cases hp hx with ⟨_, rfl⟩ | hold
    · omega
    · have hout := h.wf.outsidePool p x hp hold
      omega

theorem fromPool {S : List Nat → Prop} (hS : t.FromPool S) :
    (t.linkPoolTable table i).FromPool S := by
  intro p x hpS hp hx
  rw [link_poolBase, link_poolUsed]
  rcases h.tableAt_cases hp hx with ⟨-, rfl⟩ | hold
  · omega
  · have hin := hS p x hpS hp hold
    omega

/-- A fresh table has no present entry, so no page changes its translation. -/
theorem translate_eq : (t.linkPoolTable table i).translate = t.translate := by
  funext n
  unfold translate
  by_cases hn : n < 2 ^ 36
  · rw [if_pos hn, if_pos hn]
    have hleaf : n % 512 < 512 := Nat.mod_lt _ (by decide)
    by_cases hbelow : (path ++ [i]) <+: tablePath n
    · -- Pages below the new link: untranslated before, an empty table after.
      obtain ⟨q, hq⟩ := hbelow
      have hqlt : ∀ k ∈ q, k < 512 := fun k hk =>
        (tablePath_within n).2 k (by rw [← hq]; exact List.mem_append_right _ hk)
      have hold : t.tableAt (tablePath n) = none := by
        have hchild : t.childTable table i = none := if_neg h.absent
        have hreach : walk t.childTable t.pml4 path = some table := h.reached
        rw [← hq, tableAt, walk_append, walk_snoc, hreach]
        simp [hchild]
      have hnew : (t.linkPoolTable table i).tableAt (tablePath n) =
          if q = [] then some (t.poolBase + t.poolUsed) else none := by
        rw [← hq, tableAt, link_pml4]
        exact walk_below_link h.wf.separated h.within₃ h.reached h.child_agree h.child_link
          h.child_new q hqlt
      rw [hold, hnew]
      by_cases hnil : q = []
      · simp [hnil, h.entry_new hleaf, decodeLeaf_zero]
      · simp [hnil]
    · have hkeep : (t.linkPoolTable table i).tableAt (tablePath n) = t.tableAt (tablePath n) := by
        rw [tableAt, link_pml4]
        exact walk_frame h.wf.separated h.within₃ h.reached h.child_agree _ (tablePath_within n)
          hbelow
      rw [hkeep]
      cases hpt : t.tableAt (tablePath n) with
      | none => simp only [Option.bind_none]
      | some pt =>
          have hne : ¬ (pt = table ∧ n % 512 = i) := by
            rintro ⟨rfl, _⟩
            have hpath := h.wf.separated _ _ pt (tablePath_within n) h.within₃ hpt h.reached
            have hlen := h.within.1
            rw [← hpath] at hlen
            simp [tablePath] at hlen
          simp only [Option.bind_some, h.entry_other (tablePath_within n) hpt hleaf hne]
  · rw [if_neg hn, if_neg hn]

end MissingAt

end Link

/-! ## Links along one path -/

def freeTables (t : PageTables) : Nat := (poolSize - t.poolUsed) / 4096

def missingTables (t : PageTables) (n : Nat) : Nat := missing t.childTable t.pml4 (tablePath n)

theorem flushTlb_freeTables (t : PageTables) : t.flushTlb.freeTables = t.freeTables := rfl

theorem flushTlb_missingTables (t : PageTables) (n : Nat) :
    t.flushTlb.missingTables n = t.missingTables n := rfl

/-- `t'` is `t` after missing tables on the path `target` have been linked. -/
inductive Linked (target : List Nat) : PageTables → PageTables → Prop
  | refl (t : PageTables) : Linked target t t
  | link {t t' : PageTables} {path : List Nat} {table i : Nat} (h : Linked target t t')
      (missing : t'.MissingAt path table i) (below : path ++ [i] <+: target) :
      Linked target t (t'.linkPoolTable table i).flushTlb

section Linked

variable {t t' t'' : PageTables} {target path : List Nat} {table i n m : Nat}

theorem link_tlb (t : PageTables) (table i : Nat) : (t.linkPoolTable table i).tlb = t.tlb := by
  have hzero : ∀ (x : PageTables) (new k : Nat), (x.zeroEntries new k).tlb = x.tlb := by
    intro x new k
    induction k with
    | zero => rfl
    | succ k ih => simpa [zeroEntries, setEntry] using ih
  simp [linkPoolTable, setEntry, hzero]

theorem Linked.trans (h : Linked target t t') (h' : Linked target t' t'') :
    Linked target t t'' := by
  induction h' with
  | refl => exact h
  | link _ hm hp ih => exact .link ih hm hp

theorem Linked.wellFormed (h : Linked target t t') (hwf : t.WellFormed) : t'.WellFormed := by
  cases h with
  | refl => exact hwf
  | link _ hm _ => exact hm.wellFormed.flushTlb

theorem Linked.translate_eq (h : Linked target t t') : t'.translate = t.translate := by
  induction h with
  | refl => rfl
  | link _ hm _ ih => rw [flushTlb_translate, hm.translate_eq, ih]

theorem Linked.fromPool {S : List Nat → Prop} (h : Linked target t t') (hS : t.FromPool S) :
    t'.FromPool S := by
  induction h with
  | refl => exact hS
  | link _ hm _ ih => exact (hm.fromPool ih).flushTlb

theorem Linked.tlb_le (h : Linked target t t') {e : Nat} (he : t'.tlb n = some e) :
    t.tlb n = some e := by
  induction h with
  | refl => exact he
  | @link t' path table i _ _ _ ih =>
      apply ih
      rw [← link_tlb t' table i]
      exact (Option.filter_eq_some_iff.mp he).1

theorem MissingAt.freeTables_link (h : t.MissingAt path table i) :
    (t.linkPoolTable table i).freeTables + 1 = t.freeTables := by
  have hbd := h.new_bound
  unfold freeTables
  rw [link_poolUsed]
  unfold poolSize at *
  omega

/-- A link supplies one of the tables missing below it. -/
theorem MissingAt.missing_link (h : t.MissingAt path table i) {rest : List Nat}
    (hrest : ∀ k ∈ rest, k < 512) :
    missing (t.linkPoolTable table i).childTable t.pml4 (path ++ [i] ++ rest) + 1 =
      missing t.childTable t.pml4 (path ++ [i] ++ rest) := by
  have hbefore : missing t.childTable t.pml4 (path ++ [i] ++ rest) = rest.length + 1 := by
    rw [List.append_assoc, missing_append h.reached]
    exact missing_of_none (if_neg h.absent) rest
  have hlinked : walk (t.linkPoolTable table i).childTable t.pml4 (path ++ [i]) =
      some (t.poolBase + t.poolUsed) := by
    rw [← link_pml4 t table i]
    exact h.tableAt_link
  rw [hbefore, missing_append hlinked, missing_empty h.child_new hrest]

/-- What the pool supplies is no longer missing. -/
theorem Linked.supply (h : Linked (tablePath n) t t') :
    t.missingTables n + t'.freeTables = t'.missingTables n + t.freeTables := by
  induction h with
  | refl => rfl
  | @link t' path table i _ hm hp ih =>
      obtain ⟨rest, hrest⟩ := hp
      have hlt : ∀ k ∈ rest, k < 512 := fun k hk =>
        (tablePath_within n).2 k (by rw [← hrest]; exact List.mem_append_right _ hk)
      have hone := hm.missing_link hlt
      have hfree := hm.freeTables_link
      rw [hrest] at hone
      have hmiss : (t'.linkPoolTable table i).missingTables n + 1 = t'.missingTables n := by
        rw [missingTables, link_pml4]
        exact hone
      rw [flushTlb_missingTables, flushTlb_freeTables]
      omega

/-- Pages in another region of the root table miss the same tables as before. -/
theorem Linked.missing_other (h : Linked (tablePath n) t t')
    (hother : m / 2 ^ 27 % 512 ≠ n / 2 ^ 27 % 512) : t'.missingTables m = t.missingTables m := by
  induction h with
  | refl => rfl
  | @link t' path table i _ hm hp ih =>
      rw [← ih, flushTlb_missingTables, missingTables, link_pml4]
      refine missing_congr fun q hq => ?_
      have hq₃ : Within 512 3 q := by
        obtain ⟨rest, hrest⟩ := hq
        exact Within.of_append (hrest ▸ tablePath_within m)
      refine walk_frame hm.wf.separated hm.within₃ hm.reached hm.child_agree q hq₃ fun hbelow => ?_
      -- Both paths would start with the same index.
      have hsame : (path ++ [i]) <+: tablePath m := hbelow.trans hq
      cases path with
      | nil =>
          obtain ⟨_, hn⟩ := hp
          obtain ⟨_, hm⟩ := hsame
          simp only [tablePath, List.nil_append, List.cons_append, List.cons.injEq] at hn hm
          exact hother (hm.1.symm.trans hn.1)
      | cons j path =>
          obtain ⟨_, hn⟩ := hp
          obtain ⟨_, hm⟩ := hsame
          simp only [tablePath, List.cons_append, List.cons.injEq] at hn hm
          exact hother (hm.1.symm.trans hn.1)

end Linked

end PageTables

end Kaviz.Paging
