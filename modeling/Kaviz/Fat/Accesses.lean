import Kaviz.Fat.Arithmetic
import Kaviz.Fat.Bounds
import Kaviz.Fat.Directory

/-! # Accesses of a mounted volume

The buffer for one cluster is 4096 bytes on the stack, and the cached FAT is what
`fat_mount` has asked `kmalloc` for. Here one turn of either loop that reads
clusters is run with every access checked: sectors go into the buffer, entries and
bytes come from the part a cluster has just filled, and the next cluster comes from
the cache. The sizes on both sides are different fields of the boot sector.
-/

namespace Kaviz.Fat

open Bytes

/-! ## Turns with their accesses checked -/

inductive Turn
  | answer (r : Option DirEntry) (d : Disk)
  | next (cluster : Nat) (d : Disk) (buf : Mem)

namespace FatVolume

def filledBytes (v : FatVolume) : Nat := v.sectorsPerCluster * 512

def EntryInside (v : FatVolume) (capacity cluster : Nat) : Prop :=
  v.fatType.entryBytes * cluster + v.fatType.entryBytes ≤ capacity

instance (v : FatVolume) (capacity cluster : Nat) : Decidable (v.EntryInside capacity cluster) :=
  inferInstanceAs (Decidable (_ ≤ _))

end FatVolume

/-- The loop over the entries of a cluster; `none` is an entry behind the filled part. -/
def scanEntriesBounded (filled : Nat) (buf : Mem) (name : List UInt8) : Nat → Nat → Option Scan
  | _, 0 => some .more
  | i, n + 1 =>
      if 32 * i + 32 ≤ filled then
        if buf (32 * i) = 0 then some .ended
        else if buf (32 * i) = 0xE5 then scanEntriesBounded filled buf name (i + 1) n
        else if (List.range 11).map (fun k => buf (32 * i + k)) = name then
          some (.found (.ofBytes buf (32 * i)))
        else scanEntriesBounded filled buf name (i + 1) n
      else none

section

variable (v : FatVolume)

def lookupTurn (name : List UInt8) (cluster : Nat) (d : Disk) (buf : Mem) : Turn :=
  match v.readCluster d cluster buf with
  | (false, d, _) => .answer none d
  | (true, d, buf) =>
      match scanEntries buf name 0 (v.clusterSize / 32) with
      | .found entry => .answer (some entry) d
      | .ended => .answer none d
      | .more =>
          let next := v.readFatEntry cluster
          if next ≥ endOfChain then .answer none d else .next next d buf

variable (capacity : Nat)

/-- The loop body of `lookup_file_in_dir`; `none` is an access out of bounds. -/
def lookupTurnBounded (name : List UInt8) (cluster : Nat) (d : Disk) (buf : Mem) : Option Turn :=
  match readSectorsBounded (v.clusterToSector cluster) 0 v.sectorsPerCluster d buf with
  | none => none
  | some (false, d, _) => some (.answer none d)
  | some (true, d, buf) =>
      match scanEntriesBounded v.filledBytes buf name 0 (v.clusterSize / 32) with
      | none => none
      | some (.found entry) => some (.answer (some entry) d)
      | some .ended => some (.answer none d)
      | some .more =>
          if v.EntryInside capacity cluster then
            let next := v.readFatEntry cluster
            some (if next ≥ endOfChain then .answer none d else .next next d buf)
          else none

/-- The loop body of `fat_read`; `none` is an access out of bounds. -/
def readTurnBounded (count : Nat) (st : ReadState) : Option (Bool × ReadState) :=
  readStepChecked v v.filledBytes (v.EntryInside capacity) count st

end

/-! ## The checks are all that differs -/

theorem lookupLoop_turn (v : FatVolume) (name : List UInt8) (fuel cluster : Nat) (d : Disk) (buf : Mem) :
    lookupLoop v name (fuel + 1) cluster d buf =
      if cluster < (v.clusterCount + 2) % 2 ^ 32 then
        match lookupTurn v name cluster d buf with
        | .answer r d => some (r, d)
        | .next cluster d buf => lookupLoop v name fuel cluster d buf
      else some (none, d) := by
  rw [lookupLoop, lookupTurn]
  split
  · cases hread : v.readCluster d cluster buf with
    | mk ok rest =>
      cases ok with
      | false => rfl
      | true =>
          dsimp only
          cases scanEntries rest.2 name 0 (v.clusterSize / 32) with
          | found e => rfl
          | ended => rfl
          | more =>
              dsimp only
              split <;> rfl
  · rfl

theorem scanEntriesBounded_eq {filled : Nat} {buf : Mem} {name : List UInt8} {i n : Nat} {r : Scan}
    (h : scanEntriesBounded filled buf name i n = some r) : scanEntries buf name i n = r := by
  induction n generalizing i with
  | zero => exact Option.some.inj h
  | succ n ih =>
      rw [scanEntriesBounded] at h
      rw [scanEntries]
      by_cases hinside : 32 * i + 32 ≤ filled
      · rw [if_pos hinside] at h
        by_cases hend : buf (32 * i) = 0
        · rw [if_pos hend] at h ⊢
          exact Option.some.inj h
        · rw [if_neg hend] at h ⊢
          by_cases hdeleted : buf (32 * i) = 0xE5
          · rw [if_pos hdeleted] at h ⊢
            exact ih h
          · rw [if_neg hdeleted] at h ⊢
            by_cases hname : (List.range 11).map (fun k => buf (32 * i + k)) = name
            · rw [if_pos hname] at h ⊢
              exact Option.some.inj h
            · rw [if_neg hname] at h ⊢
              exact ih h
      · rw [if_neg hinside] at h
        cases h

/-- Entries that end inside the filled part are looked at without leaving it. -/
theorem scanEntriesBounded_inside {filled : Nat} {i n : Nat} (h : 32 * (i + n) ≤ filled) (buf : Mem)
    (name : List UInt8) : scanEntriesBounded filled buf name i n = some (scanEntries buf name i n) := by
  induction n generalizing i with
  | zero => rfl
  | succ n ih =>
      have hrest := ih (i := i + 1) (by omega)
      rw [scanEntriesBounded, scanEntries, if_pos (by omega), hrest]
      split
      · rfl
      · split
        · rfl
        · split <;> rfl

section

variable {v : FatVolume} {capacity count cluster : Nat} {name : List UInt8} {d : Disk} {buf : Mem}
  {st st' : ReadState}

theorem lookupTurnBounded_eq {t : Turn} (h : lookupTurnBounded v capacity name cluster d buf = some t) :
    lookupTurn v name cluster d buf = t := by
  unfold lookupTurnBounded at h
  unfold lookupTurn FatVolume.readCluster
  cases hread : readSectorsBounded (v.clusterToSector cluster) 0 v.sectorsPerCluster d buf with
  | none =>
      rw [hread] at h
      cases h
  | some r =>
      obtain ⟨ok, d₁, buf₁⟩ := r
      rw [hread] at h
      rw [readSectorsBounded_eq hread]
      cases ok with
      | false => exact Option.some.inj h
      | true =>
          dsimp only at h ⊢
          cases hscan : scanEntriesBounded v.filledBytes buf₁ name 0 (v.clusterSize / 32) with
          | none =>
              rw [hscan] at h
              cases h
          | some r =>
              rw [hscan] at h
              rw [scanEntriesBounded_eq hscan]
              cases r with
              | found e => exact Option.some.inj h
              | ended => exact Option.some.inj h
              | more =>
                  dsimp only at h ⊢
                  by_cases hentry : v.EntryInside capacity cluster
                  · rw [if_pos hentry] at h
                    exact Option.some.inj h
                  · rw [if_neg hentry] at h
                    cases h

end

/-! ## Turns that stay inside -/

section

variable {v : FatVolume} {capacity count : Nat} {st : ReadState}

/-- A cluster of the size of the buffer does not overrun it. -/
theorem not_overruns (hper : v.sectorsPerCluster ≤ 8) (d : Disk) : ¬ Overruns v d := by
  rintro ⟨k, hk, hover, -⟩
  rw [clusterBufferSize] at hover
  omega

/-- Clusters fit the buffer and the sectors they are read from, and the cache has an entry
for each of them. -/
structure BufferedClusters (v : FatVolume) (capacity : Nat) : Prop where
  sectors : v.sectorsPerCluster ≤ 8
  filled : v.clusterSize ≤ v.filledBytes
  entries : v.fatType.entryBytes * (v.clusterCount + 2) ≤ capacity

/-- Every turn of `lookup_file_in_dir` and of `fat_read` on a cluster of the volume stays
inside the buffer, what it has filled of it, and the cache. -/
structure AccessesInside (v : FatVolume) (capacity : Nat) : Prop where
  lookup : ∀ name cluster d buf, cluster < 2 ^ 32 → cluster < v.clusterCount + 2 →
    lookupTurnBounded v capacity name cluster d buf ≠ none
  read : ∀ count st, st.file.currentCluster < 2 ^ 32 → st.file.currentCluster < v.clusterCount + 2 →
    st.total < count → st.file.position < st.file.size → readTurnBounded v capacity count st ≠ none

theorem BufferedClusters.entryInside (h : BufferedClusters v capacity) {cluster : Nat}
    (hc : cluster < v.clusterCount + 2) : v.EntryInside capacity cluster := by
  rw [FatVolume.EntryInside, ← Nat.mul_succ]
  exact Nat.le_trans (Nat.mul_le_mul_left _ hc) h.entries

theorem BufferedClusters.lookup (h : BufferedClusters v capacity) {cluster : Nat}
    (hc : cluster < v.clusterCount + 2) (name : List UInt8) (d : Disk) (buf : Mem) :
    lookupTurnBounded v capacity name cluster d buf ≠ none := by
  have hfilled := h.filled
  have hscan : 32 * (0 + v.clusterSize / 32) ≤ v.filledBytes := by omega
  unfold lookupTurnBounded
  rcases readSectorsBounded_cases v d cluster buf with
    ⟨hover, -⟩ | ⟨-, -, hread⟩ | ⟨-, -, d', buf', hread⟩
  · exact absurd hover (not_overruns h.sectors d)
  · rw [hread]
    dsimp only
    rw [scanEntriesBounded_inside hscan, if_pos (h.entryInside hc)]
    cases scanEntries _ name 0 (v.clusterSize / 32) with
    | found e => exact Option.some_ne_none _
    | ended => exact Option.some_ne_none _
    | more => exact Option.some_ne_none _
  · rw [hread]
    exact Option.some_ne_none _

theorem BufferedClusters.read (h : BufferedClusters v capacity) (hcs : 0 < v.clusterSize)
    (hc : st.file.currentCluster < v.clusterCount + 2) : readTurnBounded v capacity count st ≠ none := by
  have hfilled := h.filled
  have hoffset := Nat.mod_lt st.file.position hcs
  have hshare : st.share v count ≤ v.clusterSize - st.file.position % v.clusterSize := Nat.min_le_left _ _
  rw [Ne, readTurnBounded, readStepChecked_none hcs]
  rintro (hover | ⟨-, hcopy | ⟨-, hentry⟩⟩)
  · exact not_overruns h.sectors _ hover
  · omega
  · exact hentry (h.entryInside hc)

def lastByte (v : FatVolume) (cluster : Nat) : ReadState where
  file := ⟨v.clusterSize - 1, v.clusterSize, cluster, cluster⟩
  disk := ⟨fun _ _ => 0, fun _ => true, 0⟩
  total := 0
  buffer _ := 0
  clusterBuffer _ := 0

/-- The last byte of a cluster needs everything at once. -/
theorem AccessesInside.buffered (h : AccessesInside v capacity) (hcs : 0 < v.clusterSize)
    (hcapacity : capacity < 2 ^ 32) : BufferedClusters v capacity := by
  -- the last cluster, or the last one with a 32-bit number
  have hturn := h.read 1 (lastByte v (min (v.clusterCount + 1) (2 ^ 32 - 1)))
    (show min _ _ < 2 ^ 32 by omega) (show min _ _ < v.clusterCount + 2 by omega) Nat.one_pos
    (Nat.sub_lt hcs Nat.one_pos)
  rw [Ne, readTurnBounded, readStepChecked_none hcs, not_or, not_and, not_or, not_and, not_not] at hturn
  have hoffset : (v.clusterSize - 1) % v.clusterSize = v.clusterSize - 1 :=
    Nat.mod_eq_of_lt (Nat.sub_lt hcs Nat.one_pos)
  have hend : (v.clusterSize - 1) % v.clusterSize +
      (lastByte v (min (v.clusterCount + 1) (2 ^ 32 - 1))).share v 1 = v.clusterSize := by
    show (v.clusterSize - 1) % v.clusterSize +
      min (v.clusterSize - (v.clusterSize - 1) % v.clusterSize)
        (min (1 - 0) (v.clusterSize - (v.clusterSize - 1))) = v.clusterSize
    rw [hoffset]
    omega
  obtain ⟨hcopy, hentry⟩ := hturn.2 fun _ _ => rfl
  rw [show (lastByte v _).file.position = v.clusterSize - 1 from rfl, hend] at hcopy hentry
  refine ⟨?_, Nat.not_lt.mp hcopy, ?_⟩
  · by_contra hper
    refine hturn.1 ⟨8, by omega, by decide, fun _ _ => rfl⟩
  · have hinside : v.fatType.entryBytes * min (v.clusterCount + 1) (2 ^ 32 - 1) +
        v.fatType.entryBytes ≤ capacity := hentry (Nat.le_refl _)
    rcases Nat.le_total (v.clusterCount + 1) (2 ^ 32 - 1) with hle | hge
    · rw [Nat.min_eq_left hle, ← Nat.mul_succ] at hinside
      exact hinside
    · rw [Nat.min_eq_right hge, ← Nat.mul_succ] at hinside
      have hzero : v.fatType.entryBytes = 0 := by omega
      rw [hzero, Nat.zero_mul]
      exact Nat.zero_le _

theorem accessesInside_iff (hcs : 0 < v.clusterSize) (hcapacity : capacity < 2 ^ 32) :
    AccessesInside v capacity ↔ BufferedClusters v capacity := by
  constructor
  · intro h
    exact h.buffered hcs hcapacity
  · intro h
    exact ⟨fun name _ d buf _ hc => h.lookup hc name d buf, fun _ _ _ hc _ _ => h.read hcs hc⟩

end

/-! ## Mounted volumes -/

section

variable {kmalloc : Allocator} {s s' : MountState} {fs fs' : FatFilesystem} {b : BootSector}

theorem configure_cluster (h : fs.configure b = some fs') :
    fs'.clusterSize = b.sectorsPerCluster * b.bytesPerSector ∧ 0 < fs'.clusterSize := by
  unfold FatFilesystem.configure at h
  split at h
  · cases h
  · rename_i hzero
    obtain ⟨hbytes, hsectors⟩ := not_or.mp hzero
    cases h
    exact ⟨rfl, Nat.mul_pos (Nat.pos_of_ne_zero hsectors) (Nat.pos_of_ne_zero hbytes)⟩

/-- A mount that returns 1 has configured the volume, and has a buffer for the cache. -/
theorem fatMount_one (h : fatMount kmalloc s = some (1, s')) :
    ∃ fs, s.fs.configure s.bootSector = some fs ∧
      s'.fs = { fs with fat := kmalloc s.heap fs.boot.cacheSize } := by
  rw [fatMount, ataReadSector] at h
  cases hboot : s.disk.succeeds s.disk.reads with
  | false =>
      rw [hboot] at h
      cases h
  | true =>
      rw [hboot] at h
      obtain ⟨fs, hfs, h⟩ := Option.bind_eq_some_iff.mp h
      refine ⟨fs, hfs, ?_⟩
      dsimp only at h
      split at h
      · cases h
      · split at h
        · cases h
          rfl
        · cases h

theorem cacheSize_lt (b : BootSector) : b.cacheSize < 2 ^ 32 := Nat.mod_lt _ (by decide)

/-- The clusters of a mounted volume have the size of their sectors. -/
theorem fatMount_cluster (h : fatMount kmalloc s = some (1, s')) :
    (s'.fs.volume s'.memory).clusterSize = s'.fs.boot.sectorsPerCluster * s'.fs.boot.bytesPerSector ∧
      0 < (s'.fs.volume s'.memory).clusterSize ∧ 0 < s'.fs.boot.sectorsPerCluster := by
  obtain ⟨fs, hfs, heq⟩ := fatMount_one h
  obtain ⟨hsize, hpos⟩ := configure_cluster hfs
  have hsectors := FatFilesystem.configure_sectors hfs
  rw [← (FatFilesystem.configure_boot hfs).1] at hsize
  rw [heq]
  exact ⟨hsize, hpos, hsectors⟩

/-- On a volume that is mounted all accesses are inside their buffers if and only if a cluster
has at most eight sectors, a sector at most 512 bytes, and the cached FAT an entry for every
cluster. -/
theorem fat_accesses_inside_iff (h : fatMount kmalloc s = some (1, s')) :
    AccessesInside (s'.fs.volume s'.memory) s'.fs.boot.cacheSize ↔
      s'.fs.boot.sectorsPerCluster ≤ 8 ∧ s'.fs.boot.bytesPerSector ≤ 512 ∧
        s'.fs.fatType.entryBytes * (s'.fs.clusterCount + 2) ≤ s'.fs.boot.cacheSize := by
  obtain ⟨hsize, hpos, hsectors⟩ := fatMount_cluster h
  have hfilled : (s'.fs.volume s'.memory).filledBytes = s'.fs.boot.sectorsPerCluster * 512 := rfl
  rw [accessesInside_iff hpos (cacheSize_lt _)]
  constructor
  · intro hbuffered
    have hle := hbuffered.filled
    rw [hsize, hfilled] at hle
    exact ⟨hbuffered.sectors, Nat.le_of_mul_le_mul_left hle hsectors, hbuffered.entries⟩
  · rintro ⟨hper, hbytes, hentries⟩
    refine ⟨hper, ?_, hentries⟩
    rw [hsize, hfilled]
    exact Nat.mul_le_mul_left _ hbytes

end

theorem configure_fatType {fs fs' : FatFilesystem} {b : BootSector} (h : fs.configure b = some fs') :
    fs'.fatType =
      if fs'.clusterCount < 4085 then .fat12 else if fs'.clusterCount < 65525 then .fat16 else .fat32 := by
  unfold FatFilesystem.configure at h
  split at h
  · cases h
  · cases h
    rfl

/-- What is mounted from a drive without errors, if the volume holds its tables. -/
theorem healthy_mount {sector : Mem} (hbytes : (bootSectorOf sector).bytesPerSector ≠ 0)
    (hsectors : (bootSectorOf sector).sectorsPerCluster ≠ 0)
    (htables : (bootSectorOf sector).metaSectors ≤ (bootSectorOf sector).totalSectors) :
    ∃ s', fatMount bumpAllocator (healthy sector) = some (1, s') ∧ s'.fs.boot = bootSectorOf sector ∧
      s'.fs.clusterCount = ((bootSectorOf sector).totalSectors - (bootSectorOf sector).metaSectors) /
        (bootSectorOf sector).sectorsPerCluster ∧
      s'.fs.fatType = if s'.fs.clusterCount < 4085 then .fat12
        else if s'.fs.clusterCount < 65525 then .fat16 else .fat32 := by
  obtain ⟨fs, hfs⟩ := configure_isSome (healthy sector).fs hbytes hsectors
  obtain ⟨s', hmount⟩ := fatMount_returns (fun _ => rfl) hfs (bumpAllocator_ne _)
  obtain ⟨fs', hfs', heq⟩ := fatMount_one hmount
  obtain ⟨hboot, -, hcount⟩ := configure_layout hfs' htables
  have htype := configure_fatType hfs'
  refine ⟨s', hmount, ?_⟩
  rw [heq]
  exact ⟨hboot, hcount, htype⟩

/-- A FAT16 volume of 4200 sectors with one reserved sector and one FAT of so many sectors. -/
def fat16Sector (sectorsPerCluster fatSectors : UInt8) : Mem := fun i =>
  if i = 12 then 2 else if i = 13 then sectorsPerCluster else if i = 14 then 1 else if i = 16 then 1
  else if i = 19 then 0x68 else if i = 20 then 0x10 else if i = 22 then fatSectors else 0

theorem fat_accesses_inside_fat16 : ∃ s', fatMount bumpAllocator (healthy (fat16Sector 1 17)) = some (1, s') ∧
    s'.fs.fatType = .fat16 ∧ AccessesInside (s'.fs.volume s'.memory) s'.fs.boot.cacheSize := by
  obtain ⟨s', hmount, hboot, hcount, htype⟩ :=
    @healthy_mount (fat16Sector 1 17) (by decide) (by decide) (by decide)
  rw [show (_ : Nat) / _ = 4182 by decide] at hcount
  rw [hcount, if_neg (by decide), if_pos (by decide)] at htype
  refine ⟨s', hmount, htype, (fat_accesses_inside_iff hmount).mpr ?_⟩
  rw [hboot, hcount, htype]
  decide

/-- Clusters of sixteen sectors do not fit the buffer, and one sector has no entries for 4198
clusters. -/
theorem fat_accesses_leave :
    (∃ s', fatMount bumpAllocator (healthy (fat16Sector 16 17)) = some (1, s') ∧
      ¬ AccessesInside (s'.fs.volume s'.memory) s'.fs.boot.cacheSize) ∧
    ∃ s', fatMount bumpAllocator (healthy (fat16Sector 1 1)) = some (1, s') ∧
      ¬ AccessesInside (s'.fs.volume s'.memory) s'.fs.boot.cacheSize := by
  constructor
  · obtain ⟨s', hmount, hboot, -⟩ :=
      @healthy_mount (fat16Sector 16 17) (by decide) (by decide) (by decide)
    refine ⟨s', hmount, fun h => ?_⟩
    have hsectors : s'.fs.boot.sectorsPerCluster ≤ 8 :=
      (h.buffered (fatMount_cluster hmount).2.1 (cacheSize_lt _)).sectors
    rw [hboot] at hsectors
    exact absurd hsectors (by decide)
  · obtain ⟨s', hmount, hboot, hcount, htype⟩ :=
      @healthy_mount (fat16Sector 1 1) (by decide) (by decide) (by decide)
    rw [show (_ : Nat) / _ = 4198 by decide] at hcount
    rw [hcount, if_neg (by decide), if_pos (by decide)] at htype
    refine ⟨s', hmount, fun h => ?_⟩
    have hentries : s'.fs.fatType.entryBytes * (s'.fs.clusterCount + 2) ≤ s'.fs.boot.cacheSize :=
      (h.buffered (fatMount_cluster hmount).2.1 (cacheSize_lt _)).entries
    rw [hboot, hcount, htype] at hentries
    exact absurd hentries (by decide)

end Kaviz.Fat
