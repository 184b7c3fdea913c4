import Mathlib.Algebra.Order.Ring.Nat
import Mathlib.Data.Finset.Card
import Kaviz.Paging.Refinement

/-! # What the bootstrap pool can cover

The bootloader leaves no tables for the upper half of the address space, so all
of them come from the pool of sixteen. One page table covers 2 MiB: seventeen
neighbouring 2 MiB regions cannot all be translated, which keeps the kernel heap
far below `heap_max`.
-/

namespace Kaviz.Paging

open Bytes Radix

/-- Paths of pages with bit 47 set. -/
def UpperHalf (path : List Nat) : Prop := ∃ i rest, path = i :: rest ∧ 256 ≤ i

theorem tablePath_upperHalf {n : Nat} (hlo : 2 ^ 35 ≤ n) (hhi : n < 2 ^ 36) :
    UpperHalf (tablePath n) :=
  ⟨n / 2 ^ 27 % 512, _, rfl, by omega⟩

namespace PageTables

variable {t : PageTables} {v p f : Nat}

theorem FromPool.mapPage {S : List Nat → Prop} (h : t.FromPool S) (hwf : t.WellFormed)
    (hp : p < 2 ^ 64) (hf : f < 4096) : (t.mapPage v p f).2.FromPool S := by
  rcases mapPage_cases (v := v) (p := p) (f := f) hwf with
    ⟨t', heq, hlinked, -⟩ | ⟨t', pt, hlinked, hpt, heq⟩
  · rw [heq]
    exact hlinked.fromPool h
  · have hle := pageAlign_le p
    have he := leafEntry_lt (pageAlign_mod p) (Nat.lt_of_le_of_lt hle hp) hf
    rw [heq]
    exact (hlinked.fromPool h).setEntry_leaf (hlinked.wellFormed hwf) hpt (Nat.mod_lt _ (by decide)) he

/-- A page table that is there misses nothing on its path. -/
theorem missingTables_eq_zero {n pt : Nat} (h : t.tableAt (tablePath n) = some pt) :
    t.missingTables n = 0 := by
  rw [missingTables, missing_eq_zero]
  change (t.tableAt (tablePath n)).isSome
  rw [h]
  rfl

/-- `map_page` succeeds exactly when the pool holds the tables missing. -/
theorem mapPage_ok_iff (hwf : t.WellFormed) :
    (t.mapPage v p f).1 = 0 ↔ t.missingTables (pageNumber v) ≤ t.freeTables := by
  rcases mapPage_cases (v := v) (p := p) (f := f) hwf with
    ⟨t', heq, hlinked, hfree, hmiss⟩ | ⟨t', pt, hlinked, hpt, heq⟩
  · have hsupply := hlinked.supply
    rw [heq]
    exact iff_of_false (show ¬ (-1 : Int) = 0 by decide) (by omega)
  · have hsupply := hlinked.supply
    have hzero := missingTables_eq_zero hpt
    rw [heq]
    exact iff_of_true rfl (by omega)

theorem setEntry_leaf_missingTables {n pt i e : Nat} (hwf : t.WellFormed)
    (hpt : t.tableAt (tablePath n) = some pt) (hi : i < 512) (he : e < 2 ^ 64) (m : Nat) :
    (t.setEntry pt i e).missingTables m = t.missingTables m := by
  refine missing_congr fun q hq => ?_
  obtain ⟨rest, hrest⟩ := hq
  exact setEntry_leaf_tableAt hwf hpt hi he q (Within.of_append (hrest ▸ tablePath_within m))

/-- A page with room gets its tables from the pool. -/
theorem mapPage_supplied (hwf : t.WellFormed) (hp : p < 2 ^ 64) (hf : f < 4096)
    (hroom : t.missingTables (pageNumber v) ≤ t.freeTables) :
    (t.mapPage v p f).2.missingTables (pageNumber v) = 0 ∧
      (t.mapPage v p f).2.freeTables + t.missingTables (pageNumber v) = t.freeTables ∧
      ∀ m, m / 2 ^ 27 % 512 ≠ pageNumber v / 2 ^ 27 % 512 →
        (t.mapPage v p f).2.missingTables m = t.missingTables m := by
  rcases mapPage_cases (v := v) (p := p) (f := f) hwf with
    ⟨t', -, hlinked, hfree, hmiss⟩ | ⟨t', pt, hlinked, hpt, heq⟩
  · have hsupply := hlinked.supply
    omega
  · have hle := pageAlign_le p
    have he := leafEntry_lt (pageAlign_mod p) (Nat.lt_of_le_of_lt hle hp) hf
    have hkeep := setEntry_leaf_missingTables (hlinked.wellFormed hwf) hpt
      (i := ptIndex (pageAlign v)) (Nat.mod_lt _ (by decide)) he
    have hsupply := hlinked.supply
    have hzero := missingTables_eq_zero hpt
    rw [heq]
    refine ⟨(hkeep _).trans hzero, ?_, fun m hother => (hkeep m).trans (hlinked.missing_other hother)⟩
    show t'.freeTables + _ = _
    omega

/-- A page without room uses the pool up and stays without. -/
theorem mapPage_starved (hwf : t.WellFormed)
    (hroom : ¬ t.missingTables (pageNumber v) ≤ t.freeTables) :
    (t.mapPage v p f).2.freeTables < (t.mapPage v p f).2.missingTables (pageNumber v) := by
  rcases mapPage_cases (v := v) (p := p) (f := f) hwf with
    ⟨t', heq, -, hfree, hmiss⟩ | ⟨t', pt, hlinked, hpt, -⟩
  · rw [heq]
    dsimp only
    omega
  · have hsupply := hlinked.supply
    have hzero := missingTables_eq_zero hpt
    omega

/-- Aligned tables in one slot of the pool are the same table. -/
theorem table_eq_of_slot {base x y : Nat} (hbase : base % 4096 = 0) (hx : x % 4096 = 0)
    (hy : y % 4096 = 0) (hlx : base ≤ x) (hly : base ≤ y)
    (h : (x - base) / 4096 = (y - base) / 4096) : x = y := by
  omega

/-- Sixteen tables do not cover seventeen regions. -/
theorem upper_half_bounded (hwf : t.WellFormed) (hpool : t.FromPool UpperHalf) {n : Nat}
    (hlo : 2 ^ 35 ≤ n) (haligned : n % 512 = 0) (hhi : n + 512 * 17 ≤ 2 ^ 36) :
    ∃ k, k < 17 ∧ t.tableAt (tablePath (n + 512 * k)) = none := by
  by_contra hall
  have htable : ∀ k, ∃ x, k < 17 → t.tableAt (tablePath (n + 512 * k)) = some x := by
    intro k
    cases hx : t.tableAt (tablePath (n + 512 * k)) with
    | none => exact ⟨0, fun hk => absurd ⟨k, hk, hx⟩ hall⟩
    | some x => exact ⟨x, fun _ => rfl⟩
  choose table hreach using htable
  have hslot : ∀ k, k < 17 → t.poolBase ≤ table k ∧ table k + 4096 ≤ t.poolBase + t.poolUsed :=
    fun k hk => hpool _ _ (tablePath_upperHalf (by omega) (by omega)) (tablePath_within _)
      (hreach k hk)
  have hmaps : ∀ k ∈ Finset.range 17, (table k - t.poolBase) / 4096 ∈ Finset.range 16 := by
    intro k hk
    have hin := hslot k (Finset.mem_range.mp hk)
    have hused := hwf.usedBound
    unfold poolSize at hused
    rw [Finset.mem_range]
    omega
  have hcard : (Finset.range 16).card < (Finset.range 17).card := by simp
  obtain ⟨j, hj, k, hk, hne, hsame⟩ := Finset.exists_ne_map_eq_of_card_lt_of_maps_to hcard hmaps
  rw [Finset.mem_range] at hj hk
  have heq := table_eq_of_slot hwf.poolAligned (tableAt_aligned hwf (hreach j hj))
    (tableAt_aligned hwf (hreach k hk)) (hslot j hj).1 (hslot k hk).1 hsame
  have hpath := hwf.separated _ _ _ (tablePath_within _) (tablePath_within _) (hreach j hj)
    (heq ▸ hreach k hk)
  have hpage := page_eq_of_path (by omega) (by omega) hpath (by omega)
  omega

end PageTables

theorem emptyTree_mapPage (v p f : Nat) : (emptyTree.mapPage v p f).1 = 0 := by
  rw [PageTables.mapPage_ok_iff emptyTree_wellFormed]
  have hfew : emptyTree.missingTables (pageNumber v) ≤ 3 :=
    missing_le emptyTree.childTable emptyTree.pml4 (tablePath (pageNumber v))
  exact Nat.le_trans hfew (by decide)

end Kaviz.Paging
