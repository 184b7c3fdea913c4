import Kaviz.Fat.Directory
import Kaviz.Fat.Mount
import Kaviz.Lib.Orbit

/-! # Searches that do not end

`lookup_file_in_dir` leaves its loop at a match, at the end mark, at a number that
is no cluster and when the drive fails. A FAT that leads in a circle through
clusters with none of these keeps it there for ever, and nothing else does.
-/

namespace Kaviz.Fat

open Bytes Orbit

/-- What the search sees of a cluster: its sectors, and behind them what the buffer
held before. -/
def seen (v : FatVolume) (sector : Nat → Mem) (stack : Mem) (cluster : Nat) : Mem := fun x =>
  if x < v.sectorsPerCluster * 512 then clusterByte v sector cluster x else stack x

structure PassesOn (v : FatVolume) (sector : Nat → Mem) (stack : Mem) (name : List UInt8)
    (cluster : Nat) : Prop where
  inside : cluster < (v.clusterCount + 2) % 2 ^ 32
  quiet : ∀ e ∈ entriesFrom (seen v sector stack cluster) 0 (v.clusterSize / 32),
    ¬ e.Ends ∧ ¬ e.Matches name
  linked : v.readFatEntry cluster < endOfChain

section

variable {v : FatVolume} {name : List UInt8} {d : Disk} {buf stack : Mem} {cluster fuel : Nat}

/-- The search goes on behind a cluster exactly when the cluster passes it on and the
drive delivers all its sectors. -/
theorem lookupLoop_succ (fuel : Nat) (name : List UInt8) (d : Disk) (cluster : Nat)
    (hbuf : ∀ x, v.sectorsPerCluster * 512 ≤ x → buf x = stack x) :
    (¬ (PassesOn v d.sector stack name cluster ∧
        ∀ k, k < v.sectorsPerCluster → d.succeeds (d.reads + k) = true) ∧
      ∃ r, lookupLoop v name (fuel + 1) cluster d buf = some r) ∨
    (PassesOn v d.sector stack name cluster ∧
      (∀ k, k < v.sectorsPerCluster → d.succeeds (d.reads + k) = true) ∧
      lookupLoop v name (fuel + 1) cluster d buf =
        lookupLoop v name fuel (v.readFatEntry cluster)
          { d with reads := d.reads + v.sectorsPerCluster } (seen v d.sector stack cluster)) := by
  rw [lookupLoop]
  by_cases hin : cluster < (v.clusterCount + 2) % 2 ^ 32
  · rw [if_pos hin, FatVolume.readCluster]
    rcases readSectors_cases d (v.clusterToSector cluster) 0 v.sectorsPerCluster buf with
      ⟨hall, hrun⟩ | ⟨k, hk, hfail, hrun⟩
    · have hseen : withSectors d (v.clusterToSector cluster) 0 v.sectorsPerCluster buf =
          seen v d.sector stack cluster := by
        funext x
        rw [withSectors, seen, Nat.zero_mul, Nat.zero_add]
        by_cases hx : x < v.sectorsPerCluster * 512
        · rw [if_pos ⟨Nat.zero_le x, hx⟩, if_pos hx]
          rfl
        · rw [if_neg fun h => hx h.2, if_neg hx, hbuf x (Nat.le_of_not_lt hx)]
      have hquiet := scanEntries_more (seen v d.sector stack cluster) name (v.clusterSize / 32)
      rw [hrun, hseen]
      dsimp only
      cases hscan : scanEntries (seen v d.sector stack cluster) name 0 (v.clusterSize / 32) with
      | found e =>
          rw [hscan] at hquiet
          exact Or.inl ⟨fun h => Scan.noConfusion (hquiet.mpr h.1.quiet), _, rfl⟩
      | ended =>
          rw [hscan] at hquiet
          exact Or.inl ⟨fun h => Scan.noConfusion (hquiet.mpr h.1.quiet), _, rfl⟩
      | more =>
          dsimp only
          by_cases hlast : v.readFatEntry cluster ≥ endOfChain
          · rw [if_pos hlast]
            exact Or.inl ⟨fun h => absurd h.1.linked (Nat.not_lt.mpr hlast), _, rfl⟩
          · rw [if_neg hlast]
            exact Or.inr ⟨⟨hin, hquiet.mp hscan, Nat.not_le.mp hlast⟩, hall, rfl⟩
    · rw [hrun]
      refine Or.inl ⟨fun h => ?_, _, rfl⟩
      rw [h.2 k hk] at hfail
      cases hfail
  · rw [if_neg hin]
    exact Or.inl ⟨fun h => hin h.1.inside, _, rfl⟩

/-- The search has not ended within `fuel` clusters exactly when all of them passed
it on. -/
theorem lookupLoop_eq_none (buf : Mem) (hbuf : ∀ x, v.sectorsPerCluster * 512 ≤ x → buf x = stack x) :
    lookupLoop v name fuel cluster d buf = none ↔
      (∀ k, k < fuel → PassesOn v d.sector stack name (v.readFatEntry^[k] cluster)) ∧
      ∀ k, k < fuel * v.sectorsPerCluster → d.succeeds (d.reads + k) = true := by
  induction fuel generalizing cluster d buf with
  | zero => simp [lookupLoop]
  | succ fuel ih =>
      have hpasses : (∀ k, k < fuel + 1 →
            PassesOn v d.sector stack name (v.readFatEntry^[k] cluster)) ↔
          PassesOn v d.sector stack name cluster ∧ ∀ k, k < fuel →
            PassesOn v d.sector stack name (v.readFatEntry^[k] (v.readFatEntry cluster)) := by
        rw [Nat.forall_lt_succ_left]
        rfl
      rw [forall_reads_succ, hpasses]
      rcases lookupLoop_succ fuel name d cluster hbuf with
        ⟨hstop, r, hrun⟩ | ⟨hpass, hall, hrun⟩
      · rw [hrun]
        exact iff_of_false (Option.some_ne_none r) fun h => hstop ⟨h.1.1, h.2.1⟩
      · have hseen : ∀ x, v.sectorsPerCluster * 512 ≤ x → seen v d.sector stack cluster x = stack x :=
          fun x hx => if_neg (Nat.not_lt.mpr hx)
        rw [hrun, ih _ hseen]
        constructor
        · intro h
          exact ⟨⟨hpass, h.1⟩, hall, h.2⟩
        · intro h
          exact ⟨h.1.2, h.2.2⟩

end

/-- On a mounted volume the search ends exactly when a sector read fails from now on, or
the chain does not come back to a cluster through clusters that all pass it on. -/
theorem lookup_ends_iff (fs fs' : FatFilesystem) (b : BootSector) (hmount : fs.configure b = some fs')
    (memory : Mem) (d : Disk) (cluster : Nat) (filename : List UInt8) (stack : Mem) :
    (∃ fuel r, lookupFileInDir (fs'.volume memory) fuel cluster filename d stack = some r) ↔
      (∃ k, d.reads ≤ k ∧ d.succeeds k = false) ∨
      ¬ ∃ i j, i < j ∧ (fs'.volume memory).readFatEntry^[i] cluster =
          (fs'.volume memory).readFatEntry^[j] cluster ∧
        ∀ k, k < j → PassesOn (fs'.volume memory) d.sector stack (fatName filename)
          ((fs'.volume memory).readFatEntry^[k] cluster) := by
  have hpos : 0 < (fs'.volume memory).sectorsPerCluster := FatFilesystem.configure_sectors hmount
  generalize fs'.volume memory = v at hpos
  have hplaces : ∀ c, PassesOn v d.sector stack (fatName filename) c →
      c ∈ Finset.range ((v.clusterCount + 2) % 2 ^ 32) :=
    fun c hc => Finset.mem_range.mpr hc.inside
  rw [← forall_iterate_iff _ hplaces]
  have hnone : ∀ fuel, lookupFileInDir v fuel cluster filename d stack = none ↔ _ :=
    fun fuel => lookupLoop_eq_none stack fun _ _ => rfl
  constructor
  · rintro ⟨fuel, r, hrun⟩
    by_contra hstays
    rw [not_or, not_not, not_exists] at hstays
    have hstuck := (hnone fuel).mpr ⟨fun k _ => hstays.2 k, fun k _ => ?_⟩
    · rw [hrun] at hstuck
      cases hstuck
    · have hnofail := hstays.1 (d.reads + k)
      rw [not_and] at hnofail
      exact Bool.eq_true_of_not_eq_false (hnofail (Nat.le_add_right _ _))
  · intro hleaves
    by_contra hnever
    have hall : ∀ fuel, lookupFileInDir v fuel cluster filename d stack = none := by
      intro fuel
      cases hrun : lookupFileInDir v fuel cluster filename d stack with
      | none => rfl
      | some r => exact absurd ⟨fuel, r, hrun⟩ hnever
    rcases hleaves with ⟨k, hk, hfail⟩ | hcomes
    · -- By then more sectors would have been read.
      have hreads := ((hnone (k + 1)).mp (hall (k + 1))).2 (k - d.reads) (by
        have hmul := Nat.le_mul_of_pos_right (k + 1) hpos
        omega)
      rw [Nat.add_sub_cancel' hk, hfail] at hreads
      cases hreads
    · exact hcomes fun k => ((hnone (k + 1)).mp (hall (k + 1))).1 k (Nat.lt_succ_self k)

/-! ### A circle of one cluster -/

/-- A FAT32 volume of 80000 sectors, one for a cluster, with its root directory on cluster 2. -/
def fat32Boot : BootSector := ⟨fun i =>
  if i = 12 then 2 else if i = 13 then 1 else if i = 14 then 1 else if i = 16 then 1
  else if i = 32 then 0x80 else if i = 33 then 0x38 else if i = 34 then 1
  else if i = 36 then 0x23 else if i = 37 then 2 else if i = 44 then 2 else 0⟩

def fat32Mounted : FatFilesystem where
  boot := fat32Boot
  fatStart := 1
  fatSize := 547
  rootStart := 548
  rootCluster := 2
  dataStart := 548
  clusterCount := 79452
  clusterSize := 512
  fatType := .fat32
  fat := 0

theorem fat32_mounted :
    (unmounted fun _ => true).2.fs.configure fat32Boot = some fat32Mounted := by
  have hbytes : fat32Boot.bytesPerSector = 512 := by decide
  have hsectors : fat32Boot.sectorsPerCluster = 1 := by decide
  have hreserved : fat32Boot.reservedSectors = 1 := by decide
  have hfats : fat32Boot.numFats = 1 := by decide
  have hroot : fat32Boot.rootEntries = 0 := by decide
  have hsize : fat32Boot.fatSize = 547 := by decide
  have htotal : fat32Boot.totalSectors = 80000 := by decide
  have hcluster : fat32Boot.rootCluster = 2 := by decide
  simp [FatFilesystem.configure, fat32Mounted, unmounted, hbytes, hsectors, hreserved, hfats, hroot,
    hsize, htotal, hcluster]

/-- A FAT whose entry for cluster 2 names cluster 2. -/
def circleFat : Mem := fun i => if i = 8 then 2 else 0

def deletedDrive : Disk := ⟨fun _ _ => 0xE5, fun _ => true, 0⟩

set_option maxRecDepth 20000 in
theorem circle_passesOn (name : List UInt8) :
    PassesOn (fat32Mounted.volume circleFat) deletedDrive.sector (fun _ => 0) name 2 where
  inside := by decide
  quiet e he := by
    obtain ⟨k, hk, rfl⟩ := List.mem_map.mp he
    have hlt : k < 16 := (List.mem_range'_1.mp hk).2
    have hfirst : (DirEntry.ofBytes (seen (fat32Mounted.volume circleFat) deletedDrive.sector
        (fun _ => 0) 2) (32 * k)).firstByte = 0xE5 := by
      have hin : 32 * k < 512 := by omega
      exact if_pos hin
    refine ⟨fun hend => ?_, fun hmatch => hmatch.1 hfirst⟩
    rw [DirEntry.Ends, hfirst] at hend
    cases hend
  linked := by decide

/-- The search for a name in a directory that leads back to itself does not end. -/
theorem lookup_circles : (unmounted fun _ => true).2.fs.configure fat32Boot = some fat32Mounted ∧
    ¬ ∃ fuel r, lookupFileInDir (fat32Mounted.volume circleFat) fuel 2 [0x61] deletedDrive
      (fun _ => 0) = some r := by
  refine ⟨fat32_mounted, ?_⟩
  rintro ⟨fuel, r, hrun⟩
  have hself : (fat32Mounted.volume circleFat).readFatEntry 2 = 2 := by decide
  have hstuck : lookupFileInDir (fat32Mounted.volume circleFat) fuel 2 [0x61] deletedDrive
      (fun _ => 0) = none := by
    refine (lookupLoop_eq_none _ fun _ _ => rfl).mpr ⟨fun k _ => ?_, fun _ _ => rfl⟩
    rw [Function.iterate_fixed hself k]
    exact circle_passesOn _
  rw [hrun] at hstuck
  cases hstuck

theorem lookup_ends_failing :
    ∃ fuel r, lookupFileInDir (fat32Mounted.volume circleFat) fuel 2 [0x61]
      ⟨fun _ _ => 0xE5, fun k => k != 5, 0⟩ (fun _ => 0) = some r :=
  (lookup_ends_iff _ _ _ fat32_mounted circleFat ⟨fun _ _ => 0xE5, fun k => k != 5, 0⟩ 2 [0x61]
    fun _ => 0).mpr (Or.inl ⟨5, by decide, rfl⟩)

end Kaviz.Fat
