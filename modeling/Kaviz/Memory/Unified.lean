import Kaviz.Memory.Physical

/-! # Page tables in the memory they map

The kernel edits its page tables at their physical addresses, in the same memory as
everything else, so a byte store through a mapping of a table changes translations.
`unified` is the machine with one memory for both. It records where its stores go:
as long as none of them hits the tables or the pool new tables come from, the tables
are those that `map_page` has made.
-/

namespace Kaviz.Memory

open Bytes Radix Paging

structure Unified where
  /-- The tables, and all of physical memory around them. -/
  tables : PageTables
  /-- Physical addresses of the bytes stored, newest first. -/
  stored : List Nat

abbrev UnifiedState := MemState Unified

def Unified.resolve (s : Unified) (a : Nat) : Option Nat :=
  PhysState.resolve tableMapper ⟨s.tables, s.tables.mem⟩ a

def Unified.setByte (s : Unified) (q : Nat) (b : UInt8) : Unified where
  tables := { s.tables with mem := fun x => bif Nat.beq x q then b else s.tables.mem x }
  stored := q :: s.stored

/-- Bytes are stored wherever the translation leads. -/
def unified : Machine Unified where
  load s a := (s.resolve a).map s.tables.mem
  store s a b := (s.resolve a).map fun q => s.setByte q b
  mapPage s v p f :=
    let r := s.tables.mapPage v p f
    (r.1, { s with tables := r.2 })

theorem unified_mapPage (s : Unified) (v p f : Nat) : unified.mapPage s v p f =
    ((s.tables.mapPage v p f).1, { s with tables := (s.tables.mapPage v p f).2 }) := rfl

/-- The bytes of the tables that are linked, and of the pool. -/
inductive TableMemory (t : PageTables) (q : Nat) : Prop
  | linked {path : List Nat} {table : Nat} (hpath : Within 512 3 path)
      (htable : t.tableAt path = some table) (hlo : table ≤ q) (hhi : q < table + 4096)
  | pool (hlo : t.poolBase ≤ q) (hhi : q < t.poolBase + poolSize)

/-- The second tables differ outside the memory of the first at most. -/
structure SameTables (t t' : PageTables) : Prop where
  pml4 : t'.pml4 = t.pml4
  poolBase : t'.poolBase = t.poolBase
  poolUsed : t'.poolUsed = t.poolUsed
  mem : ∀ q, TableMemory t q → t'.mem q = t.mem q

section Store

variable {t t' : PageTables}

theorem SameTables.entry (h : SameTables t t') {path : List Nat} {table i : Nat}
    (hpath : Within 512 3 path) (htable : t.tableAt path = some table) (hi : i < 512) :
    t'.entry table i = t.entry table i := by
  unfold PageTables.entry
  apply readLE_congr
  intro q hlo hhi
  exact h.mem q (.linked hpath htable (by omega) (by omega))

theorem SameTables.tableAt (h : SameTables t t') (path : List Nat) (hpath : Within 512 3 path) :
    t'.tableAt path = t.tableAt path := by
  induction path using List.reverseRecOn with
  | nil => exact congrArg some h.pml4
  | append_singleton path i ih =>
      have hparent := ih hpath.of_append
      unfold PageTables.tableAt at hparent ⊢
      rw [walk_snoc, walk_snoc, hparent]
      cases htable : walk t.childTable t.pml4 path with
      | none => rw [Option.bind_none, Option.bind_none]
      | some table =>
          rw [Option.bind_some, Option.bind_some, PageTables.childTable, PageTables.childTable,
            h.entry hpath.of_append htable hpath.last_lt]

theorem SameTables.translate (h : SameTables t t') : t'.translate = t.translate := by
  funext n
  unfold PageTables.translate
  rw [h.tableAt _ (tablePath_within n)]
  cases htable : t.tableAt (tablePath n) with
  | none => rw [Option.bind_none, Option.bind_none]
  | some table =>
      rw [Option.bind_some, Option.bind_some,
        h.entry (tablePath_within n) htable (Nat.mod_lt n (by decide))]

theorem SameTables.wellFormed (h : SameTables t t') (hwf : t.WellFormed) : t'.WellFormed where
  separated p q x hp hq hpx hqx := by
    have hpt := h.tableAt p hp
    have hqt := h.tableAt q hq
    exact hwf.separated p q x hp hq (hpt.symm.trans hpx) (hqt.symm.trans hqx)
  rootAligned := h.pml4 ▸ hwf.rootAligned
  noHuge p x i hp hx hi hpresent := by
    have hp₃ : Within 512 3 p := ⟨Nat.le_succ_of_le hp.1, hp.2⟩
    rw [h.tableAt p hp₃] at hx
    rw [h.entry hp₃ hx hi] at hpresent ⊢
    exact hwf.noHuge p x i hp hx hi hpresent
  poolAligned := h.poolBase ▸ hwf.poolAligned
  poolBound := h.poolBase ▸ hwf.poolBound
  usedAligned := h.poolUsed ▸ hwf.usedAligned
  usedBound := h.poolUsed ▸ hwf.usedBound
  outsidePool p x hp hx := by
    rw [h.tableAt p hp] at hx
    rw [h.poolBase, h.poolUsed]
    exact hwf.outsidePool p x hp hx

theorem SameTables.tableMemory (h : SameTables t t') {q : Nat} (hq : TableMemory t' q) :
    TableMemory t q := by
  cases hq with
  | linked hpath htable hlo hhi =>
      rw [h.tableAt _ hpath] at htable
      exact .linked hpath htable hlo hhi
  | pool hlo hhi =>
      rw [h.poolBase] at hlo hhi
      exact .pool hlo hhi

theorem setByte_mem (s : Unified) {q x : Nat} (b : UInt8) (h : x ≠ q) :
    (s.setByte q b).tables.mem x = s.tables.mem x := by
  have hne : Nat.beq x q = false := by
    cases hbeq : Nat.beq x q with
    | false => rfl
    | true => exact absurd (Nat.eq_of_beq_eq_true hbeq) h
  simp only [Unified.setByte, hne, cond_false]

theorem setByte_sameTables {s : Unified} {q : Nat} (hq : ¬ TableMemory s.tables q) (b : UInt8) :
    SameTables s.tables (s.setByte q b).tables where
  pml4 := rfl
  poolBase := rfl
  poolUsed := rfl
  mem x hx := setByte_mem s b fun (hxq : x = q) => hq (hxq ▸ hx)

end Store

section Map

variable {t t' : PageTables} {target : List Nat} {q : Nat}

/-- New tables come from the pool, so the memory of the tables does not grow. -/
theorem MissingAt.tableMemory {path : List Nat} {table i : Nat} (h : t.MissingAt path table i)
    (hq : TableMemory (t.linkPoolTable table i) q) : TableMemory t q := by
  cases hq with
  | linked hp hx hlo hhi =>
      rcases h.tableAt_cases hp hx with ⟨-, rfl⟩ | hold
      · have hbound := h.new_bound
        exact .pool (by omega) (by omega)
      · exact .linked hp hold hlo hhi
  | pool hlo hhi =>
      rw [PageTables.link_poolBase] at hlo hhi
      exact .pool hlo hhi

theorem flushTlb_tableMemory (h : TableMemory t.flushTlb q) : TableMemory t q := by
  cases h with
  | linked hp hx hlo hhi => exact .linked hp hx hlo hhi
  | pool hlo hhi => exact .pool hlo hhi

theorem Linked.tableMemory (h : PageTables.Linked target t t') (hq : TableMemory t' q) :
    TableMemory t q := by
  induction h with
  | refl => exact hq
  | link _ hmissing _ ih => exact ih (MissingAt.tableMemory hmissing (flushTlb_tableMemory hq))

theorem mapPage_tableMemory {v p f : Nat} (hwf : t.WellFormed) (hp : p < 2 ^ 64) (hf : f < 4096)
    (hq : TableMemory (t.mapPage v p f).2 q) : TableMemory t q := by
  rcases PageTables.mapPage_cases (v := v) (p := p) (f := f) hwf with
    ⟨t', heq, hlinked, -⟩ | ⟨t', pt, hlinked, hpt, heq⟩
  · rw [heq] at hq
    exact Linked.tableMemory hlinked hq
  · have he := leafEntry_lt (pageAlign_mod p) (Nat.lt_of_le_of_lt (pageAlign_le p) hp) hf
    rw [heq] at hq
    apply Linked.tableMemory hlinked
    cases hq with
    | linked hpath hx hlo hhi =>
        have hleaf := PageTables.setEntry_leaf_tableAt (hlinked.wellFormed hwf) hpt
          (i := ptIndex (pageAlign v)) (Nat.mod_lt _ (by decide)) he _ hpath
        exact .linked hpath (hleaf.symm.trans hx) hlo hhi
    | pool hlo hhi => exact .pool hlo hhi

end Map

/-! ## One step -/

section Step

variable {s s' : UnifiedState} {a v f : Nat} {b : UInt8}

theorem store8_setByte (h : s.store8 unified a b = some s') :
    ∃ q, s' = { s with mach := s.mach.setByte q b, trace := .store a :: s.trace } := by
  obtain ⟨x, hx, rfl⟩ := Option.map_eq_some_iff.mp h
  obtain ⟨q, -, rfl⟩ := Option.map_eq_some_iff.mp hx
  exact ⟨q, rfl⟩

theorem mapFresh_grows (s : UnifiedState) (v f : Nat) :
    (∃ es, (s.mapFresh unified v f).2.trace = es ++ s.trace) ∧
      (s.mapFresh unified v f).2.mach.stored = s.mach.stored := by
  have htrace := alloc_trace s
  have hsame := alloc_mach s
  rw [mapFresh_eq, unified_mapPage]
  generalize s.mach.tables.mapPage v s.allocPhysicalPage.1 f = r
  generalize s.allocPhysicalPage = page at htrace hsame
  by_cases hnull : page.1 = 0
  · simp only [hnull, if_true, htrace, hsame]
    exact ⟨⟨[], rfl⟩, trivial⟩
  · simp only [hnull, if_false]
    exact ⟨⟨[_], rfl⟩, trivial⟩

/-- One fresh page: mapped and recorded, or refused. -/
theorem mapFresh_unified (hwf : s.mach.tables.WellFormed) (hf : f < 4096) :
    (s.mapFresh unified v f).2.mach.tables.WellFormed ∧
      (∀ q, TableMemory (s.mapFresh unified v f).2.mach.tables q → TableMemory s.mach.tables q) ∧
      (((s.mapFresh unified v f).1 = true ∧ ∃ p,
          (s.mapFresh unified v f).2.trace = .map v p f 0 :: s.trace ∧
          (s.mapFresh unified v f).2.mach.tables.translate =
            PageMap.update s.mach.tables.translate (pageNumber v)
              (some (pageAlign p, f ||| pagePresent))) ∨
        ((s.mapFresh unified v f).1 = false ∧
          (s.mapFresh unified v f).2.mach.tables.translate = s.mach.tables.translate)) := by
  have hbound := alloc_lt s
  have hsame := alloc_mach s
  rw [mapFresh_eq, unified_mapPage]
  generalize s.allocPhysicalPage = page at hbound hsame
  by_cases hnull : page.1 = 0
  · simp only [hnull, if_true, hsame]
    exact ⟨hwf, fun _ hq => hq, Or.inr ⟨trivial, trivial⟩⟩
  · obtain ⟨hwf', hspec⟩ := PageTables.mapPage_spec (v := v) hwf hbound hf
    have hmemory := fun q => mapPage_tableMemory (v := v) (q := q) hwf hbound hf
    generalize s.mach.tables.mapPage v page.1 f = r at hwf' hspec hmemory
    simp only [hnull, if_false]
    refine ⟨hwf', hmemory, ?_⟩
    rcases hspec with ⟨hret, htr⟩ | ⟨hret, htr⟩
    · exact Or.inl ⟨by rw [hret]; rfl, page.1, by rw [hret], htr⟩
    · exact Or.inr ⟨by rw [hret]; rfl, htr⟩

end Step

end Kaviz.Memory
