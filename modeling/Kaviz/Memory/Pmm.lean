import Mathlib.Algebra.Order.BigOperators.Group.List
import Mathlib.Data.List.Nodup
import Kaviz.Boot.Handover
import Kaviz.Memory.State

/-! # The physical memory manager

`init_pmm` keeps the usable part of the memory map of the firmware, whose
addresses and lengths have 64 bits, in words of 32. `alloc_physical_page` counts
upwards from two megabytes and asks neither the table nor the totals.
-/

namespace Kaviz.Memory

open Bytes Boot

/-! ## The memory map -/

structure E820Entry where
  baseLow : Nat
  baseHigh : Nat
  lengthLow : Nat
  lengthHigh : Nat
  type : Nat
  acpi : Nat
  deriving DecidableEq

namespace E820Entry

def ofBytes (m : Mem) (a : Nat) : E820Entry where
  baseLow := readLE m a 4
  baseHigh := readLE m (a + 4) 4
  lengthLow := readLE m (a + 8) 4
  lengthHigh := readLE m (a + 12) 4
  type := readLE m (a + 16) 4
  acpi := readLE m (a + 20) 4

def base (e : E820Entry) : Nat := e.baseLow + 2 ^ 32 * e.baseHigh
def length (e : E820Entry) : Nat := e.lengthLow + 2 ^ 32 * e.lengthHigh

end E820Entry

def e820Ram : Nat := 1

def maxMemoryMapEntries : Nat := 128

structure MemoryRegion where
  base : Nat
  length : Nat
  type : Nat
  deriving DecidableEq

/-- `struct pmm_info`: the first `region_count` regions, and the totals. -/
structure PmmInfo where
  regions : List MemoryRegion
  totalMemory : Nat
  freeMemory : Nat

namespace PmmInfo

/-- What the loop of `init_pmm` does with a usable entry. -/
def record (p : PmmInfo) (e : E820Entry) : PmmInfo where
  regions := p.regions ++ [⟨e.baseLow, e.lengthLow, e.type⟩]
  totalMemory := (p.totalMemory + e.lengthLow) % 2 ^ 32
  freeMemory := if e.baseLow ≥ 0x100000 then (p.freeMemory + e.lengthLow) % 2 ^ 32 else p.freeMemory

/-- The loop of `init_pmm` from entry `i` on (`n` left). -/
def processEntries (m : Mem) (mmap : Nat) : Nat → Nat → PmmInfo → PmmInfo
  | _, 0, p => p
  | i, n + 1, p =>
      let e := E820Entry.ofBytes m (mmap + 24 * i)
      if e.type = e820Ram ∧ e.baseHigh = 0 then
        let p := p.record e
        if p.regions.length ≥ maxMemoryMapEntries then p else processEntries m mmap (i + 1) n p
      else processEntries m mmap (i + 1) n p

end PmmInfo

def initPmm (m : Mem) (p : PmmInfo) : PmmInfo :=
  let boot := bootParams m
  if boot.signature ≠ bootInfoSignature then p
  else PmmInfo.processEntries m boot.memoryMap 0 (min boot.memoryEntries maxMemoryMapEntries) ⟨[], 0, 0⟩

def e820Map (m : Mem) : List E820Entry :=
  (List.range (bootParams m).memoryEntries).map fun i =>
    E820Entry.ofBytes m ((bootParams m).memoryMap + 24 * i)

/-- Entries for RAM that starts below four gigabytes. -/
def ramBelow4G (es : List E820Entry) : List E820Entry :=
  es.filter fun e => e.type = e820Ram ∧ e.base < 2 ^ 32

def aboveOneMegabyte (es : List E820Entry) : List E820Entry := es.filter fun e => 0x100000 ≤ e.base

/-! ## What `init_pmm` records -/

section

variable {m : Mem} {mmap i n : Nat} {p : PmmInfo}

theorem ofBytes_lt (m : Mem) (a : Nat) :
    (E820Entry.ofBytes m a).baseLow < 2 ^ 32 ∧ (E820Entry.ofBytes m a).lengthLow < 2 ^ 32 :=
  ⟨readLE_lt m a 4, readLE_lt m (a + 8) 4⟩

theorem baseHigh_eq_zero {e : E820Entry} (h : e.baseLow < 2 ^ 32) : e.baseHigh = 0 ↔ e.base < 2 ^ 32 := by
  unfold E820Entry.base
  omega

theorem ramBelow4G_cons {e : E820Entry} (es : List E820Entry) (h : e.baseLow < 2 ^ 32) :
    ramBelow4G (e :: es) =
      if e.type = e820Ram ∧ e.baseHigh = 0 then e :: ramBelow4G es else ramBelow4G es := by
  simp only [baseHigh_eq_zero h, ramBelow4G, List.filter_cons, decide_eq_true_eq]

theorem aboveOneMegabyte_cons (e : E820Entry) (es : List E820Entry) :
    aboveOneMegabyte (e :: es) =
      if 0x100000 ≤ e.base then e :: aboveOneMegabyte es else aboveOneMegabyte es := by
  simp only [aboveOneMegabyte, List.filter_cons, decide_eq_true_eq]

/-- Up to the length of the table the loop takes the usable entries one after another. -/
theorem processEntries_eq (h : p.regions.length + n ≤ maxMemoryMapEntries) :
    PmmInfo.processEntries m mmap i n p =
      (ramBelow4G ((List.range' i n).map fun k => E820Entry.ofBytes m (mmap + 24 * k))).foldl
        PmmInfo.record p := by
  induction n generalizing i p with
  | zero => rfl
  | succ n ih =>
      rw [PmmInfo.processEntries, List.range'_succ, List.map_cons, ramBelow4G_cons _ (ofBytes_lt m _).1]
      generalize E820Entry.ofBytes m (mmap + 24 * i) = e
      by_cases huse : e.type = e820Ram ∧ e.baseHigh = 0
      · have hlength : (p.record e).regions.length = p.regions.length + 1 := by
          rw [PmmInfo.record, List.length_append]
          rfl
        rw [if_pos huse, if_pos huse, List.foldl_cons]
        dsimp only
        by_cases hfull : (p.record e).regions.length ≥ maxMemoryMapEntries
        · obtain rfl : n = 0 := by omega
          rw [if_pos hfull]
          rfl
        · rw [if_neg hfull]
          exact ih (by omega)
      · rw [if_neg huse, if_neg huse]
        exact ih (by omega)

/-- What a run over usable entries adds to the table and the totals. -/
theorem foldl_record (es : List E820Entry) (htotal : p.totalMemory < 2 ^ 32)
    (hfree : p.freeMemory < 2 ^ 32) (hbase : ∀ e ∈ es, e.baseHigh = 0) :
    (es.foldl PmmInfo.record p).regions =
        p.regions ++ es.map (fun e => ⟨e.baseLow, e.lengthLow, e.type⟩) ∧
      (es.foldl PmmInfo.record p).totalMemory =
        (p.totalMemory + (es.map E820Entry.length).sum) % 2 ^ 32 ∧
      (es.foldl PmmInfo.record p).freeMemory =
        (p.freeMemory + ((aboveOneMegabyte es).map E820Entry.length).sum) % 2 ^ 32 := by
  induction es generalizing p with
  | nil => exact ⟨(List.append_nil _).symm, (Nat.mod_eq_of_lt htotal).symm, (Nat.mod_eq_of_lt hfree).symm⟩
  | cons e es ih =>
      rw [List.forall_mem_cons] at hbase
      have hlow : e.base = e.baseLow := by
        rw [E820Entry.base, hbase.1]
        rfl
      have hword : ∀ t, (t + e.lengthLow) % 2 ^ 32 = (t + e.length) % 2 ^ 32 := fun t => by
        unfold E820Entry.length
        omega
      have hfree₁ : (p.record e).freeMemory < 2 ^ 32 := by
        unfold PmmInfo.record
        dsimp only
        split
        · exact Nat.mod_lt _ (by decide)
        · exact hfree
      obtain ⟨hregions, htotals, hfrees⟩ := ih (p := p.record e) (Nat.mod_lt _ (by decide)) hfree₁ hbase.2
      rw [List.foldl_cons]
      refine ⟨?_, ?_, ?_⟩
      · rw [hregions, PmmInfo.record, List.append_assoc]
        rfl
      · rw [htotals, PmmInfo.record, List.map_cons, List.sum_cons, hword p.totalMemory,
          Nat.mod_add_mod, Nat.add_assoc]
      · rw [hfrees, aboveOneMegabyte_cons, hlow, PmmInfo.record]
        by_cases hhigh : 0x100000 ≤ e.baseLow
        · rw [if_pos hhigh, if_pos hhigh]
          dsimp only
          rw [hword p.freeMemory, Nat.mod_add_mod, List.map_cons, List.sum_cons, Nat.add_assoc]
        · rw [if_neg hhigh, if_neg hhigh]

/-- The entries `init_pmm` works with: those of the map that fit the table. -/
def recorded (m : Mem) : List E820Entry := ramBelow4G ((e820Map m).take maxMemoryMapEntries)

theorem recorded_mem {e : E820Entry} (h : e ∈ recorded m) :
    e.type = e820Ram ∧ e.baseHigh = 0 ∧ e.baseLow < 2 ^ 32 ∧ e.lengthLow < 2 ^ 32 := by
  obtain ⟨hmem, huse⟩ := List.mem_filter.mp h
  obtain ⟨i, -, rfl⟩ := List.mem_map.mp (List.mem_of_mem_take hmem)
  obtain ⟨hlow, hlength⟩ := ofBytes_lt m ((bootParams m).memoryMap + 24 * i)
  have hboth := of_decide_eq_true huse
  exact ⟨hboth.1, (baseHigh_eq_zero hlow).mpr hboth.2, hlow, hlength⟩

/-- `init_pmm` records them, one after another. -/
theorem initPmm_eq (p : PmmInfo) (hsig : (bootParams m).signature = bootInfoSignature) :
    initPmm m p = (recorded m).foldl PmmInfo.record ⟨[], 0, 0⟩ := by
  rw [initPmm, if_neg (not_not.mpr hsig), processEntries_eq (by rw [List.length_nil]; omega),
    recorded, e820Map, ← List.map_take, List.take_range, Nat.min_comm, List.range_eq_range']

theorem initPmm_spec (p : PmmInfo) (hsig : (bootParams m).signature = bootInfoSignature) :
    (initPmm m p).regions = (recorded m).map (fun e => ⟨e.baseLow, e.lengthLow, e.type⟩) ∧
      (initPmm m p).totalMemory = ((recorded m).map E820Entry.length).sum % 2 ^ 32 ∧
      (initPmm m p).freeMemory =
        ((aboveOneMegabyte (recorded m)).map E820Entry.length).sum % 2 ^ 32 := by
  have hspec := foldl_record (p := ⟨[], 0, 0⟩) (recorded m) (by decide) (by decide)
    fun e he => (recorded_mem he).2.1
  rw [initPmm_eq p hsig]
  simpa only [List.nil_append, Nat.zero_add] using hspec

end

/-! ## Totals -/

/-- The table has every usable entry of the map as it is, and the totals are sums of lengths. -/
structure ExactTotals (es : List E820Entry) (p : PmmInfo) : Prop where
  regions_eq : p.regions = (ramBelow4G es).map fun e => ⟨e.base, e.length, e.type⟩
  total_eq : p.totalMemory = ((ramBelow4G es).map E820Entry.length).sum
  free_eq : p.freeMemory = ((aboveOneMegabyte (ramBelow4G es)).map E820Entry.length).sum
  free_le : p.freeMemory ≤ p.totalMemory

/-- For a map that fits the table they are, exactly when the lengths add up to less than
four gigabytes. -/
theorem pmm_totals_exact_iff (m : Mem) (p : PmmInfo)
    (hsig : (bootParams m).signature = bootInfoSignature)
    (hentries : (bootParams m).memoryEntries ≤ maxMemoryMapEntries) :
    ExactTotals (e820Map m) (initPmm m p) ↔
      ((ramBelow4G (e820Map m)).map E820Entry.length).sum < 2 ^ 32 := by
  have hall : recorded m = ramBelow4G (e820Map m) := by
    rw [recorded, List.take_of_length_le]
    rw [e820Map, List.length_map, List.length_range]
    exact hentries
  obtain ⟨hregions, htotal, hfree⟩ := initPmm_spec p hsig
  rw [← hall]
  constructor
  · intro h
    rw [hall, ← h.total_eq, htotal]
    exact Nat.mod_lt _ (by decide)
  · intro hless
    have hsum : ((aboveOneMegabyte (recorded m)).map E820Entry.length).sum ≤
        ((recorded m).map E820Entry.length).sum :=
      (List.filter_sublist.map E820Entry.length).sum_le_sum fun _ _ => Nat.zero_le _
    rw [Nat.mod_eq_of_lt hless] at htotal
    rw [Nat.mod_eq_of_lt (Nat.lt_of_le_of_lt hsum hless)] at hfree
    refine ⟨?_, by rw [htotal, hall], by rw [hfree, hall], by rw [hfree, htotal]; exact hsum⟩
    rw [hregions, ← hall]
    apply List.map_congr_left
    intro e he
    -- With a small sum no length needs its upper word.
    have hlength : e.length < 2 ^ 32 := Nat.lt_of_le_of_lt
      (List.single_le_sum (fun _ _ => Nat.zero_le _) _ (List.mem_map_of_mem he)) hless
    have hbase := (recorded_mem he).2.1
    have hsame : e.base = e.baseLow ∧ e.length = e.lengthLow := by
      unfold E820Entry.length at hlength ⊢
      unfold E820Entry.base
      omega
    rw [hsame.1, hsame.2]

/-- Boot information with one entry, for RAM at a megabyte of a given length. -/
def oneRegion (lengthByte lengthHigh : UInt8) : Mem := fun x =>
  if x = 0x9000 then 0x02 else if x = 0x9001 then 0xB0 else if x = 0x9002 then 0xAD
  else if x = 0x9003 then 0x1B else if x = 0x9005 then 0x80 else if x = 0x900C then 1
  else if x = 0x8002 then 0x10 else if x = 0x800A then lengthByte else if x = 0x800C then lengthHigh
  else if x = 0x8010 then 1 else 0

/-- Four gigabytes of RAM count for nothing. -/
theorem pmm_totals_lost : (bootParams (oneRegion 0 1)).signature = bootInfoSignature ∧
    (bootParams (oneRegion 0 1)).memoryEntries ≤ maxMemoryMapEntries ∧
    ¬ ExactTotals (e820Map (oneRegion 0 1)) (initPmm (oneRegion 0 1) ⟨[], 0, 0⟩) := by
  refine ⟨by decide, by decide, fun h => ?_⟩
  have htotal := h.total_eq
  revert htotal
  decide

theorem pmm_totals_small : ExactTotals (e820Map (oneRegion 0x10 0)) (initPmm (oneRegion 0x10 0) ⟨[], 0, 0⟩) :=
  (pmm_totals_exact_iff (oneRegion 0x10 0) _ (by decide) (by decide)).mpr (by decide)

/-! ## Frames -/

section

variable {σ : Type}

/-- The results of `n` calls of `alloc_physical_page`, and the state behind them. -/
def MemState.takePages : Nat → MemState σ → List Nat × MemState σ
  | 0, s => ([], s)
  | n + 1, s =>
      let (page, s) := s.allocPhysicalPage
      let (pages, s) := takePages n s
      (page :: pages, s)

def PmmInfo.Covers (p : PmmInfo) (page : Nat) : Prop :=
  ∃ r ∈ p.regions, r.base ≤ page ∧ page + 4096 ≤ r.base + r.length

/-- The results count upwards from the frame the counter is at. -/
theorem takePages_eq (n : Nat) {s : MemState σ} (ha : s.nextFreePage % 4096 = 0)
    (hb : s.nextFreePage < 2 ^ 64) :
    (s.takePages n).1 = (List.range n).map fun k => (s.nextFreePage + 4096 * k) % 2 ^ 64 := by
  induction n generalizing s with
  | zero => rfl
  | succ n ih =>
      rw [List.range_succ_eq_map, List.map_cons, List.map_map, MemState.takePages, alloc_eq s ha hb]
      dsimp only
      have hfirst : (s.nextFreePage + 4096 * 0) % 2 ^ 64 = s.nextFreePage := Nat.mod_eq_of_lt hb
      rw [ih (by dsimp only; omega) (Nat.mod_lt _ (by decide)), hfirst]
      refine congrArg (s.nextFreePage :: ·) (List.map_congr_left ?_)
      intro k _
      rw [Function.comp_apply]
      dsimp only
      omega

def InRam (m : Mem) (page : Nat) : Prop :=
  ∃ e ∈ recorded m, e.base ≤ page ∧ page + 4096 ≤ e.base + e.length

/-- What `n` calls of `alloc_physical_page` return. -/
structure HandedOut (m : Mem) (p : PmmInfo) (n : Nat) (pages : List Nat) : Prop where
  pages_eq : pages = (List.range n).map fun k => (0x200000 + 4096 * k) % 2 ^ 64
  aligned : ∀ page ∈ pages, page % 4096 = 0
  distinct : n ≤ 2 ^ 52 → pages.Nodup
  null_iff : 0 ∈ pages ↔ 2 ^ 52 - 512 < n
  inside : (∀ page ∈ pages, p.Covers page) → ∀ k, k < n → InRam m (0x200000 + 4096 * k)
  covers : (∀ e ∈ recorded m, e.length < 2 ^ 32) → (∀ k, k < n → InRam m (0x200000 + 4096 * k)) →
    ∀ page ∈ pages, p.Covers page

section Covers

variable {m : Mem} {p : PmmInfo} {page : Nat}

theorem initPmm_covers (hsig : (bootParams m).signature = bootInfoSignature) :
    (initPmm m p).Covers page ↔
      ∃ e ∈ recorded m, e.baseLow ≤ page ∧ page + 4096 ≤ e.baseLow + e.lengthLow := by
  rw [PmmInfo.Covers, (initPmm_spec p hsig).1]
  constructor
  · rintro ⟨r, hr, hcovers⟩
    obtain ⟨e, he, rfl⟩ := List.mem_map.mp hr
    exact ⟨e, he, hcovers⟩
  · rintro ⟨e, he, hcovers⟩
    exact ⟨_, List.mem_map_of_mem he, hcovers⟩

/-- The table has the lower word of a length, and so no more than the map. -/
theorem inRam_of_covers (hsig : (bootParams m).signature = bootInfoSignature)
    (h : (initPmm m p).Covers page) : InRam m page ∧ page < 2 ^ 33 := by
  obtain ⟨e, he, hstart, hend⟩ := (initPmm_covers hsig).mp h
  obtain ⟨-, hbase, hlow, hlength⟩ := recorded_mem he
  refine ⟨⟨e, he, ?_, ?_⟩, by omega⟩
  · unfold E820Entry.base
    omega
  · unfold E820Entry.base E820Entry.length
    omega

theorem covers_of_inRam (hsig : (bootParams m).signature = bootInfoSignature)
    (hsize : ∀ e ∈ recorded m, e.length < 2 ^ 32) (h : InRam m page) :
    (initPmm m p).Covers page := by
  obtain ⟨e, he, hstart, hend⟩ := h
  obtain ⟨-, hbase, -, -⟩ := recorded_mem he
  have hlength := hsize e he
  unfold E820Entry.base at hstart hend
  unfold E820Entry.length at hlength hend
  exact (initPmm_covers hsig).mpr ⟨e, he, by omega, by omega⟩

end Covers

/-- The calls return the frames from two megabytes on, one after another, whatever the memory
map: aligned, each one once, and `NULL` only where the addresses of 64 bits end. They lie in the
table only as far as entries of the map cover these frames, and when they do, if the lengths of
these entries fit the words of the table. -/
theorem alloc_ignores_map (m : Mem) (p : PmmInfo)
    (hsig : (bootParams m).signature = bootInfoSignature) (mach : σ) (n : Nat) :
    HandedOut m (initPmm m p) n ((MemState.initVmm mach).takePages n).1 := by
  have hpages : ((MemState.initVmm mach).takePages n).1 =
      (List.range n).map fun k => (0x200000 + 4096 * k) % 2 ^ 64 :=
    takePages_eq n (s := MemState.initVmm mach) (by show 0x200000 % 4096 = 0; decide)
      (by show 0x200000 < 2 ^ 64; decide)
  rw [hpages]
  refine ⟨rfl, ?_, ?_, ?_, ?_, ?_⟩
  · intro page hpage
    obtain ⟨k, -, rfl⟩ := List.mem_map.mp hpage
    omega
  · intro hn
    apply List.Nodup.map_on _ List.nodup_range
    intro x hx y hy hsame
    rw [List.mem_range] at hx hy
    omega
  · rw [List.mem_map]
    constructor
    · rintro ⟨k, hk, hnull⟩
      rw [List.mem_range] at hk
      omega
    · intro hn
      exact ⟨2 ^ 52 - 512, List.mem_range.mpr hn, by decide⟩
  · rw [List.forall_mem_map]
    simp only [List.mem_range]
    intro h k hk
    by_cases hwrap : k < 2 ^ 52 - 512
    · have hsame : (0x200000 + 4096 * k) % 2 ^ 64 = 0x200000 + 4096 * k := by omega
      rw [← hsame]
      exact (inRam_of_covers hsig (h k hk)).1
    · -- The table ends below eight gigabytes, long before the addresses wrap.
      have hlow := (inRam_of_covers hsig (h (2 ^ 52 - 513) (by omega))).2
      omega
  · intro hsize hinside
    rw [List.forall_mem_map]
    intro k hk
    have hram := hinside k (List.mem_range.mp hk)
    have hcovers := covers_of_inRam (p := p) hsig hsize hram
    have hlow := (inRam_of_covers hsig hcovers).2
    have hsame : (0x200000 + 4096 * k) % 2 ^ 64 = 0x200000 + 4096 * k := by omega
    rw [hsame]
    exact hcovers

/-- With a single megabyte of RAM the first frame handed out is none of it. -/
theorem alloc_outside_ram : (bootParams (oneRegion 0x10 0)).signature = bootInfoSignature ∧
    ¬ ∀ page ∈ ((MemState.initVmm ()).takePages 1).1, page ≠ 0 →
      page % 4096 = 0 ∧ (initPmm (oneRegion 0x10 0) ⟨[], 0, 0⟩).Covers page := by
  refine ⟨by decide, fun h => ?_⟩
  obtain ⟨-, r, hr, -, hend⟩ := h 0x200000 (by decide) (by decide)
  have hregions : (initPmm (oneRegion 0x10 0) ⟨[], 0, 0⟩).regions = [⟨0x100000, 0x100000, 1⟩] := by decide
  rw [hregions, List.mem_singleton] at hr
  rw [hr] at hend
  revert hend
  decide

theorem alloc_inside_ram : List.Forall (initPmm (oneRegion 0x20 0) ⟨[], 0, 0⟩).Covers
    ((MemState.initVmm ()).takePages 256).1 := by
  have hlast : ∀ k, k < 256 → 0x100000 ≤ 0x200000 + 4096 * k ∧
      0x200000 + 4096 * k + 4096 ≤ 0x100000 + 0x200000 := fun k hk => by omega
  rw [List.forall_iff_forall_mem]
  refine (alloc_ignores_map (oneRegion 0x20 0) ⟨[], 0, 0⟩ (by decide) () 256).covers (by decide)
    fun k hk => ⟨E820Entry.ofBytes (oneRegion 0x20 0) 0x8000, ?_, hlast k hk⟩
  exact List.mem_filter.mpr ⟨List.mem_cons_self, by decide⟩

end

end Kaviz.Memory
