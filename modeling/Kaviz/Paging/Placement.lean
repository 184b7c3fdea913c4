import Kaviz.Paging.Pool
import Kaviz.Paging.Tlb

/-! # Where tables are found again

`map_page` goes on from the pointer that `bootstrap_alloc` returned, every later
walk from the entry masked with `~0xFFF`. The pool is an array of bytes and is
placed by the linker without regard to pages, so the two need not agree. Nothing
is assumed here about the alignment of the pool, nor that different entries lead
to different tables.
-/

namespace Kaviz.Paging

open Bytes Radix

namespace PageTables

/-- The tables `map_page` goes through on a path, by the pointers it uses, and the
state it has reached with the last of them. -/
def descend (t : PageTables) (table : Nat) : List Nat → Option (List Nat × PageTables)
  | [] => some ([], t)
  | i :: is =>
      match t.nextTable table i with
      | none => none
      | some (next, t') => (descend t' next is).map fun r => (next :: r.1, r.2)

/-- The tables found along present entries. -/
def visit (t : PageTables) (table : Nat) : List Nat → Option (List Nat)
  | [] => some []
  | i :: is => (t.childTable table i).bind fun next => (t.visit next is).map fun l => next :: l

/-- `n` bytes at `a` outside the unused part of the pool. -/
def Settled (t : PageTables) (a n : Nat) : Prop :=
  a + n ≤ t.poolBase + t.poolUsed ∨ t.poolBase + poolSize ≤ a

/-- Tables on a path from `table` are not in the unused part of the pool. -/
def Apart (t : PageTables) (table : Nat) (path : List Nat) : Prop :=
  ∀ q x, q <+: path → walk t.childTable table q = some x → t.Settled x 4096

/-- The pool lies in the address space, with the counter inside. -/
structure PoolFits (t : PageTables) : Prop where
  poolBound : t.poolBase + poolSize ≤ 2 ^ 64
  usedBound : t.poolUsed ≤ poolSize

/-- What every state of the tables keeps, wherever the pool was placed. -/
structure PoolApart (t : PageTables) : Prop extends PoolFits t where
  /-- `vmm.pml4` is `cr3 & ~0xFFF`. -/
  rootAligned : t.pml4 % 4096 = 0
  apart : ∀ path table, Within 512 3 path → t.tableAt path = some table → t.Settled table 4096

/-- After `map_page`, walks for the same address visit the tables it used, ending at the
entry it wrote, and a second `map_page` creates nothing. -/
def FoundAgain (t : PageTables) (v p f : Nat) : Prop :=
  ∃ tables t₁, t.descend t.pml4 (tablePath (pageNumber v)) = some (tables, t₁) ∧
    (t.mapPage v p f).2.visit t.pml4 (tablePath (pageNumber v)) = some tables ∧
    (t.mapPage v p f).2.descend t.pml4 (tablePath (pageNumber v)) =
      some (tables, (t.mapPage v p f).2) ∧
    (t.mapPage v p f).2.entry (tables.getLastD t.pml4) (ptIndex (pageAlign v)) =
      pageAlign p ||| f ||| pagePresent

/-- No entry on the way to the page table is the leaf entry itself, unless the new leaf
points to the same table. -/
def LeafHarmless (t : PageTables) (v e : Nat) : Prop :=
  ∀ q j, q ++ [j] <+: tablePath (pageNumber v) →
    t.tableAt q = t.tableAt (tablePath (pageNumber v)) → j = ptIndex (pageAlign v) →
    t.tableAt (q ++ [j]) = some (pageAlign e)

/-! ## The walks -/

section Walks

variable {t t' : PageTables} {table i next v p f : Nat} {is l : List Nat}

/-- The checks of `unmap_page` and `set_page_flags` walk the same entries. -/
theorem findTable_visit (t : PageTables) (v : Nat) :
    t.findTable (pageAlign v) =
      (t.visit t.pml4 (tablePath (pageNumber v))).map fun l => l.getLastD t.pml4 := by
  rw [tablePath_pageNumber, findTable]
  simp only [visit, Option.bind_eq_bind]
  cases t.childTable t.pml4 (pml4Index (pageAlign v)) with
  | none => rfl
  | some pdpt =>
      simp only [Option.bind_some]
      cases t.childTable pdpt (pdptIndex (pageAlign v)) with
      | none => rfl
      | some pd =>
          simp only [Option.bind_some]
          cases t.childTable pd (pdIndex (pageAlign v)) <;> rfl

theorem nextTable_present (h : Present (t.entry table i)) :
    t.nextTable table i = some (pageAlign (t.entry table i), t) := if_pos h

theorem childTable_present (h : Present (t.entry table i)) :
    t.childTable table i = some (pageAlign (t.entry table i)) := if_pos h

theorem childTable_absent (h : ¬ Present (t.entry table i)) : t.childTable table i = none :=
  if_neg h

/-- Where every table is there, `map_page` walks like the others. -/
theorem descend_of_visit (h : t.visit table is = some l) : t.descend table is = some (l, t) := by
  induction is generalizing table l with
  | nil =>
      cases h
      rfl
  | cons i is ih =>
      rw [visit] at h
      by_cases hpresent : Present (t.entry table i)
      · rw [childTable_present hpresent, Option.bind_some, Option.map_eq_some_iff] at h
        obtain ⟨rest, hrest, rfl⟩ := h
        rw [descend, nextTable_present hpresent]
        dsimp only
        rw [ih hrest]
        rfl
      · rw [childTable_absent hpresent] at h
        cases h

theorem visit_of_missing (h : missing t.childTable table is = 0) :
    ∃ l, t.visit table is = some l := by
  induction is generalizing table with
  | nil => exact ⟨[], rfl⟩
  | cons i is ih =>
      rw [missing] at h
      cases hchild : t.childTable table i with
      | none =>
          rw [hchild] at h
          cases h
      | some next =>
          rw [hchild] at h
          obtain ⟨l, hl⟩ := ih h
          exact ⟨next :: l, by simp [visit, hchild, hl]⟩

/-- `map_page` writes the leaf into the last table it goes through. -/
theorem mapPage_descend (h : (t.mapPage v p f).1 = 0) :
    ∃ l t₁, t.descend t.pml4 (tablePath (pageNumber v)) = some (l, t₁) ∧
      (t.mapPage v p f).2 = (t₁.setEntry (l.getLastD t.pml4) (ptIndex (pageAlign v))
        (pageAlign p ||| f ||| pagePresent)).flushTlbSingle (pageAlign v) := by
  rw [tablePath_pageNumber]
  unfold mapPage at h ⊢
  dsimp only at h ⊢
  cases h₁ : t.nextTable t.pml4 (pml4Index (pageAlign v)) with
  | none => simp [h₁] at h
  | some r₁ =>
    obtain ⟨pdpt, t₁⟩ := r₁
    cases h₂ : t₁.nextTable pdpt (pdptIndex (pageAlign v)) with
    | none => simp [h₁, h₂] at h
    | some r₂ =>
      obtain ⟨pd, t₂⟩ := r₂
      cases h₃ : t₂.nextTable pd (pdIndex (pageAlign v)) with
      | none => simp [h₁, h₂, h₃] at h
      | some r₃ =>
        obtain ⟨pt, t₃⟩ := r₃
        exact ⟨[pdpt, pd, pt], t₃, by simp [descend, h₁, h₂, h₃], by simp [h₂, h₃]⟩

end Walks

/-! ## Creation -/

section Creation

variable {t t' t'' : PageTables} {table i j next a n : Nat} {is l : List Nat}

theorem bootstrapAlloc_page (hused : t.poolUsed ≤ poolSize) :
    t.bootstrapAlloc (8 * 512) =
      if t.poolUsed + 4096 > poolSize then (none, t)
      else (some (t.poolBase + t.poolUsed), { t with poolUsed := t.poolUsed + 4096 }) := by
  have hsize : (t.poolUsed + (8 * 512 + 3) % 2 ^ 32 / 4 * 4) % 2 ^ 32 = t.poolUsed + 4096 := by
    unfold poolSize at hused
    omega
  unfold bootstrapAlloc
  simp only [hsize]

/-- Words away from the linking entry and the new table stay. -/
theorem read_link (t : PageTables) (hslot : a + n ≤ table + 8 * i ∨ table + 8 * i + 8 ≤ a)
    (hnew : a + n ≤ t.poolBase + t.poolUsed ∨ t.poolBase + t.poolUsed + 4096 ≤ a) :
    readLE (t.linkPoolTable table i).mem a n = readLE t.mem a n := by
  have hzero : ∀ k, k ≤ 512 →
      readLE ({ t with poolUsed := t.poolUsed + 4096 }.zeroEntries
        (t.poolBase + t.poolUsed) k).mem a n = readLE t.mem a n := by
    intro k hk
    induction k with
    | zero => rfl
    | succ k ih =>
        rw [zeroEntries, setEntry]
        dsimp only
        rw [readLE_writeLE_disjoint _ _ (by omega)]
        exact ih (by omega)
  rw [linkPoolTable, setEntry]
  dsimp only
  rw [readLE_writeLE_disjoint _ _ hslot]
  exact hzero 512 (Nat.le_refl _)

theorem entry_link_self (hbound : t.poolBase + t.poolUsed < 2 ^ 64) :
    (t.linkPoolTable table i).entry table i =
      t.poolBase + t.poolUsed ||| pagePresent ||| pageWritable := by
  have hlt : t.poolBase + t.poolUsed ||| pagePresent ||| pageWritable < 2 ^ 64 :=
    Nat.or_lt_two_pow (Nat.or_lt_two_pow hbound (by decide)) (by decide)
  rw [linkPoolTable]
  exact readLE8_writeLE8_same _ _ hlt

theorem entry_link_fresh (hj : j < 512)
    (hslot : table + 8 * i + 8 ≤ t.poolBase + t.poolUsed ∨
      t.poolBase + t.poolUsed + 4096 ≤ table + 8 * i) :
    (t.linkPoolTable table i).entry (t.poolBase + t.poolUsed) j = 0 := by
  rw [linkPoolTable, entry, setEntry]
  dsimp only
  rw [readLE_writeLE_disjoint _ _ (by omega)]
  exact zeroEntries_entry_inside _ _ hj

/-- The link sets flags only, so that masking gives the page the pool table starts in. -/
theorem link_masked (x : Nat) : Present (x ||| pagePresent ||| pageWritable) ∧
    pageAlign (x ||| pagePresent ||| pageWritable) = pageAlign x := by
  have hdiv : (x ||| pagePresent ||| pageWritable) / 2 ^ 12 = x / 2 ^ 12 := by
    rw [Nat.or_div_two_pow, Nat.or_div_two_pow]
    simp [pagePresent, pageWritable]
  have hodd : (x ||| pagePresent ||| pageWritable) % 2 = 1 := by
    rw [Nat.or_assoc, Nat.or_comm, Nat.or_assoc, Nat.or_comm]
    simp [pagePresent, pageWritable]
  exact ⟨hodd, congrArg (· * 4096) hdiv⟩

/-- What taking a table for entry `i` of `table` does. -/
structure Creates (t : PageTables) (table i : Nat) (t' : PageTables) : Prop where
  absent : ¬ Present (t.entry table i)
  room : t.poolUsed + 4096 ≤ poolSize
  poolBase : t'.poolBase = t.poolBase
  poolUsed : t'.poolUsed = t.poolUsed + 4096
  linked : t'.entry table i = t.poolBase + t.poolUsed ||| pagePresent ||| pageWritable
  read : ∀ a n, (a + n ≤ table + 8 * i ∨ table + 8 * i + 8 ≤ a) →
    (a + n ≤ t.poolBase + t.poolUsed ∨ t.poolBase + t.poolUsed + 4096 ≤ a) →
    readLE t'.mem a n = readLE t.mem a n
  clear : ∀ j, j < 512 → (table + 8 * i + 8 ≤ t.poolBase + t.poolUsed ∨
      t.poolBase + t.poolUsed + 4096 ≤ table + 8 * i) →
    t'.entry (t.poolBase + t.poolUsed) j = 0

theorem creates_link (hfits : t.PoolFits) (habsent : ¬ Present (t.entry table i))
    (hroom : t.poolUsed + 4096 ≤ poolSize) : t.Creates table i (t.linkPoolTable table i) where
  absent := habsent
  room := hroom
  poolBase := link_poolBase t table i
  poolUsed := link_poolUsed t table i
  linked := by
    have hbound := hfits.poolBound
    exact entry_link_self (by omega)
  read _ _ hslot hnew := read_link t hslot hnew
  clear _ hj hslot := entry_link_fresh hj hslot

theorem Creates.flushTlb (h : t.Creates table i t') : t.Creates table i t'.flushTlb :=
  ⟨h.absent, h.room, h.poolBase, h.poolUsed, h.linked, h.read, h.clear⟩

/-- One level of `map_page` goes on in a table that is there, or creates one. -/
theorem nextTable_cases (hfits : t.PoolFits) (h : t.nextTable table i = some (next, t')) :
    (Present (t.entry table i) ∧ next = pageAlign (t.entry table i) ∧ t' = t) ∨
      (next = t.poolBase + t.poolUsed ∧ t.Creates table i t') := by
  by_cases hpresent : Present (t.entry table i)
  · rw [nextTable_present hpresent] at h
    cases h
    exact Or.inl ⟨hpresent, rfl, rfl⟩
  · unfold nextTable at h
    rw [if_neg hpresent, bootstrapAlloc_page hfits.usedBound] at h
    by_cases hfull : t.poolUsed + 4096 > poolSize
    · rw [if_pos hfull] at h
      cases h
    · rw [if_neg hfull] at h
      have hcreates := (creates_link hfits hpresent (Nat.le_of_not_lt hfull)).flushTlb
      rw [linkPoolTable] at hcreates
      cases h
      exact Or.inr ⟨rfl, hcreates⟩

theorem exists_nextTable (t : PageTables) (table i : Nat) (hroom : t.poolUsed + 4096 ≤ poolSize) :
    ∃ next t', t.nextTable table i = some (next, t') ∧ t'.poolUsed ≤ t.poolUsed + 4096 := by
  by_cases hpresent : Present (t.entry table i)
  · exact ⟨_, t, nextTable_present hpresent, Nat.le_add_right _ _⟩
  · have hlink : t.nextTable table i =
        some (t.poolBase + t.poolUsed, (t.linkPoolTable table i).flushTlb) := by
      unfold nextTable
      rw [if_neg hpresent, bootstrapAlloc_page (by omega), if_neg (by omega), linkPoolTable]
    have hflush : ∀ s : PageTables, s.flushTlb.poolUsed = s.poolUsed := fun _ => rfl
    refine ⟨_, _, hlink, ?_⟩
    rw [hflush, link_poolUsed]

theorem mapPage_of_room (v p f : Nat) (hroom : t.poolUsed + 3 * 4096 ≤ poolSize) :
    (t.mapPage v p f).1 = 0 := by
  obtain ⟨pdpt, t₁, h₁, hused₁⟩ := t.exists_nextTable t.pml4 (pml4Index (pageAlign v)) (by omega)
  obtain ⟨pd, t₂, h₂, hused₂⟩ := t₁.exists_nextTable pdpt (pdptIndex (pageAlign v)) (by omega)
  obtain ⟨pt, t₃, h₃, -⟩ := t₂.exists_nextTable pd (pdIndex (pageAlign v)) (by omega)
  simp only [mapPage, h₁, h₂, h₃]

theorem Creates.fits (h : t.Creates table i t') (hfits : t.PoolFits) : t'.PoolFits := by
  have hbound := hfits.poolBound
  have hroom := h.room
  exact ⟨by rw [h.poolBase]; exact hbound, by rw [h.poolUsed]; exact hroom⟩

theorem Creates.settled (h : t.Creates table i t') (ha : t.Settled a n) : t'.Settled a n := by
  unfold Settled at *
  rw [h.poolBase, h.poolUsed]
  omega

theorem Creates.settled_new (h : t.Creates table i t') :
    t'.Settled (t.poolBase + t.poolUsed) 4096 := by
  unfold Settled
  rw [h.poolBase, h.poolUsed]
  omega

theorem descend_cons (h : t.descend table (i :: is) = some (l, t')) :
    ∃ next t₁ rest, t.nextTable table i = some (next, t₁) ∧
      t₁.descend next is = some (rest, t') ∧ l = next :: rest := by
  rw [descend] at h
  cases hnext : t.nextTable table i with
  | none =>
      rw [hnext] at h
      cases h
  | some r =>
      rw [hnext] at h
      obtain ⟨⟨rest, t₂⟩, hrest, heq⟩ := Option.map_eq_some_iff.mp h
      cases heq
      exact ⟨r.1, r.2, rest, rfl, hrest, rfl⟩

/-- A table taken from the pool: cleared, and clear of the rest of the pool. -/
structure Fresh (t : PageTables) (table : Nat) : Prop where
  settled : t.Settled table 4096
  clear : ∀ j, j < 512 → t.entry table j = 0

theorem Creates.fresh (h : t.Creates table i t') (hslot : t.Settled (table + 8 * i) 8) :
    t'.Fresh (t.poolBase + t.poolUsed) := by
  have hroom := h.room
  unfold Settled at hslot
  exact ⟨h.settled_new, fun j hj => h.clear j hj (by omega)⟩

theorem Fresh.slot (hfresh : t.Fresh table) (hi : i < 512) : t.Settled (table + 8 * i) 8 := by
  have hsettled := hfresh.settled
  unfold Settled at *
  omega

theorem Fresh.absent (hfresh : t.Fresh table) (hi : i < 512) : ¬ Present (t.entry table i) := by
  rw [hfresh.clear i hi]
  decide

/-- Below a new table nothing but that table and the rest of the pool is written. -/
theorem Fresh.read_descend (hfresh : t.Fresh table) (hfits : t.PoolFits)
    (his : ∀ i ∈ is, i < 512) (h : t.descend table is = some (l, t')) (ha : t.Settled a n)
    (haway : a + n ≤ table ∨ table + 4096 ≤ a) :
    readLE t'.mem a n = readLE t.mem a n := by
  induction is generalizing t table l with
  | nil =>
      cases h
      rfl
  | cons i is ih =>
      rw [List.forall_mem_cons] at his
      obtain ⟨next, t₁, rest, hnext, hrest, -⟩ := descend_cons h
      rcases nextTable_cases hfits hnext with ⟨hpresent, -⟩ | ⟨rfl, hcreates⟩
      · exact absurd hpresent (hfresh.absent his.1)
      · have hroom := hcreates.room
        have hnew : a + n ≤ t.poolBase + t.poolUsed ∨ t.poolBase + t.poolUsed + 4096 ≤ a := by
          unfold Settled at ha
          omega
        have hstep := hcreates.read a n (by omega) hnew
        exact (ih (hcreates.fresh (hfresh.slot his.1)) (hcreates.fits hfits) his.2 hrest
          (hcreates.settled ha) hnew).trans hstep

theorem Fresh.missing_eq (hfresh : t.Fresh table) (his : ∀ i ∈ is, i < 512) :
    missing t.childTable table is = is.length := by
  cases is with
  | nil => rfl
  | cons i is => exact missing_of_none (childTable_absent (hfresh.absent (his i (by simp)))) is

theorem Fresh.apart (hfresh : t.Fresh table) (his : ∀ i ∈ is, i < 512) : t.Apart table is := by
  intro q x hq hx
  cases q with
  | nil =>
      cases hx
      exact hfresh.settled
  | cons i q =>
      have hi : i < 512 := his i (hq.subset (by simp))
      rw [walk, childTable_absent (hfresh.absent hi)] at hx
      cases hx

theorem Apart.tail (h : t.Apart table (i :: is)) (hpresent : Present (t.entry table i)) :
    t.Apart (pageAlign (t.entry table i)) is := by
  intro q x hq hx
  apply h (i :: q) x (List.cons_prefix_cons.mpr ⟨rfl, hq⟩)
  rw [walk, childTable_present hpresent]
  exact hx

theorem Apart.slot (h : t.Apart table is) (hi : i < 512) : t.Settled (table + 8 * i) 8 := by
  have hsettled := h [] table List.nil_prefix rfl
  unfold Settled at *
  omega

theorem missing_present (hpresent : Present (t.entry table i)) :
    missing t.childTable table (i :: is) =
      missing t.childTable (pageAlign (t.entry table i)) is := by
  rw [missing, childTable_present hpresent]

/-- Entries that are present stay: links are only written where nothing was present. -/
theorem read_descend (hfits : t.PoolFits) (hal : table % 4096 = 0) (hapart : t.Apart table is)
    (his : ∀ i ∈ is, i < 512) (h : t.descend table is = some (l, t')) (ha : t.Settled a 8)
    (hword : a % 8 = 0) (hpresent : Present (readLE t.mem a 8)) :
    readLE t'.mem a 8 = readLE t.mem a 8 := by
  induction is generalizing table l with
  | nil =>
      cases h
      rfl
  | cons i is ih =>
      obtain ⟨next, t₁, rest, hnext, hrest, -⟩ := descend_cons h
      have hslot := hapart.slot (his i (by simp))
      rw [List.forall_mem_cons] at his
      rcases nextTable_cases hfits hnext with ⟨hentry, rfl, rfl⟩ | ⟨rfl, hcreates⟩
      · exact ih (pageAlign_mod _) (hapart.tail hentry) his.2 hrest
      · have hroom := hcreates.room
        have hne : a ≠ table + 8 * i := by
          rintro rfl
          exact hcreates.absent hpresent
        have hnew : a + 8 ≤ t.poolBase + t.poolUsed ∨ t.poolBase + t.poolUsed + 4096 ≤ a := by
          unfold Settled at ha
          omega
        exact ((hcreates.fresh hslot).read_descend (hcreates.fits hfits) his.2 hrest
          (hcreates.settled ha) hnew).trans (hcreates.read a 8 (by omega) hnew)

/-- The last table of a path that misses some is a new one. -/
theorem last_new (hfits : t.PoolFits) (hapart : t.Apart table is) (his : ∀ i ∈ is, i < 512)
    (h : t.descend table is = some (l, t')) (hmiss : 0 < missing t.childTable table is) :
    t.poolBase + t.poolUsed ≤ l.getLastD table ∧
      l.getLastD table + 4096 ≤ t.poolBase + poolSize := by
  induction is generalizing t table l with
  | nil => cases hmiss
  | cons i is ih =>
      obtain ⟨next, t₁, rest, hnext, hrest, rfl⟩ := descend_cons h
      have hslot := hapart.slot (his i (by simp))
      rw [List.forall_mem_cons] at his
      rw [List.getLastD_cons]
      rcases nextTable_cases hfits hnext with ⟨hentry, rfl, rfl⟩ | ⟨rfl, hcreates⟩
      · rw [missing_present hentry] at hmiss
        exact ih hfits (hapart.tail hentry) his.2 hrest hmiss
      · have hroom := hcreates.room
        have hfresh := hcreates.fresh hslot
        cases is with
        | nil =>
            cases hrest
            rw [List.getLastD_nil]
            omega
        | cons j is =>
            have hlast := ih (hcreates.fits hfits) (hfresh.apart his.2) his.2 hrest
              (by rw [hfresh.missing_eq his.2]; exact Nat.succ_pos _)
            rw [hcreates.poolBase, hcreates.poolUsed] at hlast
            omega

theorem visit_cons_iff {x : Nat} (hchild : t.childTable table i = some x) :
    t.visit table (i :: is) = some (next :: l) ↔ x = next ∧ t.visit next is = some l := by
  rw [visit, hchild, Option.bind_some, Option.map_eq_some_iff]
  constructor
  · rintro ⟨l', hl', heq⟩
    obtain ⟨rfl, rfl⟩ := List.cons.inj heq
    exact ⟨rfl, hl'⟩
  · rintro ⟨rfl, hl⟩
    exact ⟨l, hl, rfl⟩

/-- Created tables are found again exactly when the pool hands out whole pages. `t''` is
the state after anything has been written into the last table. -/
theorem visit_created (hfits : t.PoolFits) (hal : table % 4096 = 0) (hapart : t.Apart table is)
    (his : ∀ i ∈ is, i < 512) (h : t.descend table is = some (l, t'))
    (hmiss : 0 < missing t.childTable table is)
    (hagree : ∀ a, a < l.getLastD table ∨ l.getLastD table + 4096 ≤ a → t''.mem a = t'.mem a) :
    t''.visit table is = some l ↔ (t.poolBase + t.poolUsed) % 4096 = 0 := by
  induction is generalizing t table l with
  | nil => cases hmiss
  | cons i is ih =>
      have hlast := last_new hfits hapart his h hmiss
      obtain ⟨next, t₁, rest, hnext, hrest, rfl⟩ := descend_cons h
      have hslot := hapart.slot (his i (by simp))
      have hentry'' : t''.entry table i = t'.entry table i := by
        apply readLE_congr
        intro x hlo hhi
        apply hagree
        unfold Settled at hslot
        omega
      rw [List.forall_mem_cons] at his
      rw [List.getLastD_cons] at hagree
      rcases nextTable_cases hfits hnext with ⟨hentry, rfl, rfl⟩ | ⟨rfl, hcreates⟩
      · rw [missing_present hentry] at hmiss
        have hkept : t'.entry table i = t₁.entry table i :=
          read_descend hfits (pageAlign_mod _) (hapart.tail hentry) his.2 hrest hslot (by omega)
            hentry
        rw [hkept] at hentry''
        have hchild : t''.childTable table i = some (pageAlign (t₁.entry table i)) := by
          rw [childTable, hentry'', if_pos hentry]
        rw [visit_cons_iff hchild]
        exact (and_iff_right rfl).trans
          (ih hfits (pageAlign_mod _) (hapart.tail hentry) his.2 hrest hmiss hagree)
      · have hroom := hcreates.room
        have hfresh := hcreates.fresh hslot
        have hkept : t'.entry table i = t₁.entry table i :=
          hfresh.read_descend (hcreates.fits hfits) his.2 hrest (hcreates.settled hslot) (by
            unfold Settled at hslot
            omega)
        have hmasked := link_masked (t.poolBase + t.poolUsed)
        have hchild : t''.childTable table i = some (pageAlign (t.poolBase + t.poolUsed)) := by
          rw [childTable, hentry'', hkept, hcreates.linked, if_pos hmasked.1, hmasked.2]
        rw [visit_cons_iff hchild]
        constructor
        · rintro ⟨hsame, -⟩
          rw [← hsame]
          exact pageAlign_mod _
        · intro hpool
          refine ⟨pageAlign_of_aligned hpool, ?_⟩
          cases is with
          | nil =>
              cases hrest
              rfl
          | cons j is =>
              refine (ih (hcreates.fits hfits) hpool (hfresh.apart his.2) his.2 hrest ?_ hagree).mpr ?_
              · rw [hfresh.missing_eq his.2]
                exact Nat.succ_pos _
              · rw [hcreates.poolBase, hcreates.poolUsed]
                omega

end Creation

/-! ## The leaf entry -/

section Leaf

variable {t t' : PageTables} {table pt i k e v p f : Nat} {is l : List Nat}

theorem childTable_aligned {x : Nat} (h : t.childTable table i = some x) : x % 4096 = 0 := by
  unfold childTable at h
  split at h
  · cases h
    exact pageAlign_mod _
  · cases h

theorem walk_aligned {x : Nat} (hal : table % 4096 = 0)
    (h : walk t.childTable table is = some x) : x % 4096 = 0 := by
  induction is generalizing table with
  | nil =>
      cases h
      exact hal
  | cons i is ih =>
      obtain ⟨next, hnext, hrest⟩ := Option.bind_eq_some_iff.mp h
      exact ih (childTable_aligned hnext) hrest

/-- Where no table is missing, only the leaf entry itself can lead a later walk astray. -/
theorem visit_setEntry (hal : table % 4096 = 0) (hpt : pt % 4096 = 0) (hk : k < 512)
    (he : e < 2 ^ 64) (hpresent : Present e) (his : ∀ i ∈ is, i < 512)
    (h : t.visit table is = some l) :
    (t.setEntry pt k e).visit table is = some l ↔
      ∀ q j, q ++ [j] <+: is → walk t.childTable table q = some pt → j = k →
        walk t.childTable table (q ++ [j]) = some (pageAlign e) := by
  induction is generalizing table l with
  | nil =>
      cases h
      refine iff_of_true rfl fun q j hq => ?_
      rw [List.prefix_nil] at hq
      cases List.append_ne_nil_of_right_ne_nil q (List.cons_ne_nil j []) hq
  | cons i is ih =>
      rw [List.forall_mem_cons] at his
      rw [visit] at h
      obtain ⟨next, hnext, hmapped⟩ := Option.bind_eq_some_iff.mp h
      obtain ⟨rest, hrest, rfl⟩ := Option.map_eq_some_iff.mp hmapped
      have hnextal := childTable_aligned hnext
      have hchild : (t.setEntry pt k e).childTable table i =
          some (if table = pt ∧ i = k then pageAlign e else next) := by
        rw [childTable, entry_setEntry_of_aligned t he hpt hal hk his.1]
        by_cases hself : table = pt ∧ i = k
        · rw [if_pos hself, if_pos hself, if_pos hpresent]
        · rw [if_neg hself, if_neg hself]
          exact hnext
      rw [visit_cons_iff hchild, ih hnextal his.2 hrest]
      constructor
      · rintro ⟨hhere, hbelow⟩ q j hq hwalk rfl
        cases q with
        | nil =>
            obtain ⟨rfl, -⟩ := List.cons_prefix_cons.mp hq
            cases hwalk
            rw [if_pos ⟨rfl, rfl⟩] at hhere
            rw [List.nil_append, walk, hnext, hhere]
            rfl
        | cons i' q =>
            obtain ⟨hhead, htail⟩ := List.cons_prefix_cons.mp hq
            subst hhead
            rw [walk, hnext, Option.bind_some] at hwalk
            rw [List.cons_append, walk, hnext, Option.bind_some]
            exact hbelow q j htail hwalk rfl
      · intro hall
        refine ⟨?_, fun q j hq hwalk hj => ?_⟩
        · by_cases hself : table = pt ∧ i = k
          · have hleaf := hall [] i (List.cons_prefix_cons.mpr ⟨rfl, List.nil_prefix⟩)
              (congrArg some hself.1) hself.2
            rw [List.nil_append, walk, hnext] at hleaf
            rw [if_pos hself]
            exact (Option.some.inj hleaf).symm
          · rw [if_neg hself]
        · have hleaf := hall (i :: q) j (List.cons_prefix_cons.mpr ⟨rfl, hq⟩) (by
            rw [walk, hnext]
            exact hwalk) hj
          rw [List.cons_append, walk, hnext] at hleaf
          exact hleaf

theorem walk_last (h : t.visit table is = some l) :
    walk t.childTable table is = some (l.getLastD table) := by
  induction is generalizing table l with
  | nil =>
      cases h
      rfl
  | cons i is ih =>
      rw [visit] at h
      obtain ⟨next, hnext, hmapped⟩ := Option.bind_eq_some_iff.mp h
      obtain ⟨rest, hrest, rfl⟩ := Option.map_eq_some_iff.mp hmapped
      rw [walk, hnext, Option.bind_some, List.getLastD_cons]
      exact ih hrest

theorem PoolApart.path (h : t.PoolApart) (v : Nat) :
    t.Apart t.pml4 (tablePath (pageNumber v)) := by
  intro q x hq hx
  obtain ⟨rest, hrest⟩ := hq
  exact h.apart q x (Within.of_append (hrest ▸ tablePath_within (pageNumber v))) hx

theorem flushTlbSingle_visit (t : PageTables) (a table : Nat) (is : List Nat) :
    (t.flushTlbSingle a).visit table is = t.visit table is := by
  induction is generalizing table with
  | nil => rfl
  | cons i is ih =>
      rw [visit, visit]
      simp only [ih]
      rfl

theorem foundAgain_iff_visit (hp : p < 2 ^ 64) (hf : f < 2 ^ 64) (hok : (t.mapPage v p f).1 = 0)
    (hdescend : t.descend t.pml4 (tablePath (pageNumber v)) = some (l, t')) :
    t.FoundAgain v p f ↔ (t'.setEntry (l.getLastD t.pml4) (ptIndex (pageAlign v))
      (pageAlign p ||| f ||| pagePresent)).visit t.pml4 (tablePath (pageNumber v)) = some l := by
  obtain ⟨l', t₁, hdescend', hmap⟩ := mapPage_descend hok
  rw [hdescend] at hdescend'
  obtain ⟨rfl, rfl⟩ := Prod.mk.inj (Option.some.inj hdescend')
  have hvisit := flushTlbSingle_visit (t'.setEntry (l.getLastD t.pml4) (ptIndex (pageAlign v))
    (pageAlign p ||| f ||| pagePresent)) (pageAlign v) t.pml4 (tablePath (pageNumber v))
  rw [← hmap] at hvisit
  rw [← hvisit]
  constructor
  · rintro ⟨tables, t₂, htables, hfound, -⟩
    rw [hdescend] at htables
    cases htables
    exact hfound
  · intro hfound
    refine ⟨l, t', hdescend, hfound, descend_of_visit hfound, ?_⟩
    rw [hmap]
    exact readLE8_writeLE8_same _ _ (leafEntry_lt_of_lt hp hf)

/-- Where tables are created they are found again exactly when the unused part of the
pool starts on a page. -/
theorem foundAgain_created (ht : t.PoolApart) (hp : p < 2 ^ 64) (hf : f < 2 ^ 64)
    (hok : (t.mapPage v p f).1 = 0) (hmiss : 0 < t.missingTables (pageNumber v)) :
    t.FoundAgain v p f ↔ (t.poolBase + t.poolUsed) % 4096 = 0 := by
  obtain ⟨l, t₁, hdescend, -⟩ := mapPage_descend hok
  rw [foundAgain_iff_visit hp hf hok hdescend]
  refine visit_created ht.toPoolFits ht.rootAligned (ht.path v) (tablePath_within _).2 hdescend
    hmiss fun a ha => ?_
  have hindex : ptIndex (pageAlign v) < 512 := Nat.mod_lt _ (by decide)
  exact writeLE_outside _ _ (by omega)

theorem foundAgain_present (ht : t.PoolApart) (hp : p < 2 ^ 64) (hf : f < 2 ^ 64)
    (hok : (t.mapPage v p f).1 = 0) (hmiss : t.missingTables (pageNumber v) = 0) :
    t.FoundAgain v p f ↔ t.LeafHarmless v (pageAlign p ||| f ||| pagePresent) := by
  obtain ⟨l, hvisit⟩ := visit_of_missing hmiss
  have hlast := walk_last hvisit
  have hodd : Present (pageAlign p ||| f ||| pagePresent) := flags_present_odd _
  have hindex : ptIndex (pageAlign v) < 512 := Nat.mod_lt _ (by decide)
  rw [foundAgain_iff_visit hp hf hok (descend_of_visit hvisit),
    visit_setEntry ht.rootAligned (walk_aligned ht.rootAligned hlast) hindex
      (leafEntry_lt_of_lt hp hf) hodd (tablePath_within _).2 hvisit]
  unfold LeafHarmless tableAt
  rw [hlast]

end Leaf

end PageTables

theorem emptyTree_poolApart : emptyTree.PoolApart where
  poolBound := emptyTree_wellFormed.poolBound
  usedBound := emptyTree_wellFormed.usedBound
  rootAligned := rfl
  apart := emptyTree_wellFormed.outsidePool

/-- After a successful `map_page` later walks find its tables and its entry exactly when
every table created lies on a page and, with none created, the leaf entry written is none
of those walked over. -/
theorem tables_found_again_iff (t : PageTables) (v p f : Nat) (ht : t.PoolApart)
    (hp : p < 2 ^ 64) (hf : f < 2 ^ 64) (hok : (t.mapPage v p f).1 = 0) :
    t.FoundAgain v p f ↔
      (0 < t.missingTables (pageNumber v) → (t.poolBase + t.poolUsed) % 4096 = 0) ∧
      (t.missingTables (pageNumber v) = 0 →
        t.LeafHarmless v (pageAlign p ||| f ||| pagePresent)) := by
  rcases Nat.eq_zero_or_pos (t.missingTables (pageNumber v)) with hmiss | hmiss
  · rw [PageTables.foundAgain_present ht hp hf hok hmiss]
    simp [hmiss]
  · rw [PageTables.foundAgain_created ht hp hf hok hmiss]
    simp [hmiss, hmiss.ne']

/-- With the pool on a page, three tables are created and found again. -/
theorem tables_found_again_emptyTree : emptyTree.FoundAgain 0x400000 0x200000 3 := by
  have hmiss : 0 < emptyTree.missingTables (pageNumber 0x400000) := by decide
  have hok : (emptyTree.mapPage 0x400000 0x200000 3).1 = 0 :=
    PageTables.mapPage_of_room _ _ _ (by decide)
  exact (tables_found_again_iff emptyTree 0x400000 0x200000 3 emptyTree_poolApart (by decide)
    (by decide) hok).mpr ⟨fun _ => rfl, fun h => absurd h hmiss.ne'⟩

/-- `emptyTree` with the pool where an array of bytes may be placed. -/
def shiftedTree : PageTables := { emptyTree with poolBase := 0x110020 }

theorem shiftedTree_poolApart : shiftedTree.PoolApart where
  poolBound := by decide
  usedBound := by decide
  rootAligned := rfl
  apart path table _ h := by
    obtain ⟨-, rfl⟩ := emptyTree_tableAt h
    exact Or.inl (by decide)

/-- The tables created in a pool that starts 32 bytes into a page are not found again. -/
theorem tables_lost : shiftedTree.PoolApart ∧
    (shiftedTree.mapPage 0x400000 0x200000 3).1 = 0 ∧
    ¬ shiftedTree.FoundAgain 0x400000 0x200000 3 := by
  have hok : (shiftedTree.mapPage 0x400000 0x200000 3).1 = 0 :=
    PageTables.mapPage_of_room _ _ _ (by decide)
  refine ⟨shiftedTree_poolApart, hok, fun hfound => ?_⟩
  have hpool := (PageTables.foundAgain_created shiftedTree_poolApart (by decide) (by decide) hok
    (by decide)).mp hfound
  exact absurd hpool (by decide)

end Kaviz.Paging
