import Kaviz.Fat.Image

/-! # The root directory of FAT12 and FAT16 volumes

On these volumes the root directory has sectors of its own, between the FATs and
the clusters. `fat_open` takes cluster 0 in its place, which is the boot sector
and what follows it, and goes on through the FAT from there. Nothing it does
depends on the sectors of the root directory.
-/

namespace Kaviz.Fat

open Bytes

/-! ## A drive with other contents -/

def Disk.over (d : Disk) (sector : Nat → Mem) : Disk := { d with sector := sector }

@[simp] theorem Disk.over_sector (d : Disk) (sector : Nat → Mem) : (d.over sector).sector = sector := rfl

@[simp] theorem Disk.over_succeeds (d : Disk) (sector : Nat → Mem) :
    (d.over sector).succeeds = d.succeeds := rfl

@[simp] theorem Disk.over_reads (d : Disk) (sector : Nat → Mem) : (d.over sector).reads = d.reads := rfl

def overRead (sector : Nat → Mem) (r : Bool × Disk × Mem) : Bool × Disk × Mem :=
  (r.1, r.2.1.over sector, r.2.2)

section

variable {σ : Nat → Mem} {d : Disk} {buf memory : Mem} {v : FatVolume}

/-- A read of a sector that is the same does not see the difference. -/
theorem ataReadSector_over {lba : Nat} (h : σ lba = d.sector lba) (dstAt : Nat) :
    ataReadSector (d.over σ) lba buf dstAt = overRead σ (ataReadSector d lba buf dstAt) := by
  cases hread : d.succeeds d.reads with
  | false => simp [ataReadSector, overRead, hread, Disk.over]
  | true => simp [ataReadSector, overRead, hread, Disk.over, h]

theorem ataReadSector_sector (lba : Nat) (dstAt : Nat) :
    (ataReadSector d lba buf dstAt).2.1.sector = d.sector := by
  cases hread : d.succeeds d.reads with
  | false => simp [ataReadSector, hread]
  | true => simp [ataReadSector, hread]

theorem readSectors_over {sector i n : Nat}
    (h : ∀ k, k < n → σ ((sector + (i + k)) % 2 ^ 32) = d.sector ((sector + (i + k)) % 2 ^ 32)) :
    FatVolume.readSectors sector i n (d.over σ) buf =
      overRead σ (FatVolume.readSectors sector i n d buf) := by
  induction n generalizing i d buf with
  | zero => rfl
  | succ n ih =>
      have hsector := @ataReadSector_sector d buf ((sector + i) % 2 ^ 32) (i * 512)
      have hfirst : σ ((sector + i) % 2 ^ 32) = d.sector ((sector + i) % 2 ^ 32) := h 0 (Nat.succ_pos n)
      rw [FatVolume.readSectors, FatVolume.readSectors, ataReadSector_over hfirst]
      cases hread : ataReadSector d ((sector + i) % 2 ^ 32) buf (i * 512) with
      | mk ok rest =>
          obtain ⟨d', buf'⟩ := rest
          rw [hread] at hsector
          cases ok with
          | false => rfl
          | true =>
              apply ih
              intro k hk
              have hnext : i + 1 + k = i + (k + 1) := by omega
              rw [hnext, hsector]
              exact h (k + 1) (by omega)

def SameCluster (v : FatVolume) (σ sector : Nat → Mem) (cluster : Nat) : Prop :=
  ∀ k, k < v.sectorsPerCluster →
    σ ((v.clusterToSector cluster + k) % 2 ^ 32) = sector ((v.clusterToSector cluster + k) % 2 ^ 32)

theorem readCluster_over {cluster : Nat} (h : SameCluster v σ d.sector cluster) :
    v.readCluster (d.over σ) cluster buf = overRead σ (v.readCluster d cluster buf) := by
  apply readSectors_over
  intro k hk
  rw [Nat.zero_add]
  exact h k hk

theorem readCluster_sector (v : FatVolume) (d : Disk) (cluster : Nat) (buf : Mem) :
    (v.readCluster d cluster buf).2.1.sector = d.sector := by
  rw [FatVolume.readCluster]
  rcases readSectors_cases d (v.clusterToSector cluster) 0 v.sectorsPerCluster buf with
    ⟨-, hrun⟩ | ⟨k, -, -, hrun⟩
  · rw [hrun]
  · rw [hrun]

def Turn.over (sector : Nat → Mem) : Turn → Turn
  | .answer r d => .answer r (d.over sector)
  | .next cluster d buf => .next cluster (d.over sector) buf

def Turn.disk : Turn → Disk
  | .answer _ d => d
  | .next _ d _ => d

theorem lookupTurn_over {name : List UInt8} {cluster : Nat} (h : SameCluster v σ d.sector cluster) :
    lookupTurn v name cluster (d.over σ) buf = (lookupTurn v name cluster d buf).over σ ∧
      (lookupTurn v name cluster d buf).disk.sector = d.sector := by
  have hsector := readCluster_sector v d cluster buf
  rw [lookupTurn, lookupTurn, readCluster_over h]
  cases hread : v.readCluster d cluster buf with
  | mk ok rest =>
      obtain ⟨d', buf'⟩ := rest
      rw [hread] at hsector
      cases ok with
      | false => exact ⟨rfl, hsector⟩
      | true =>
          dsimp only [overRead]
          cases scanEntries buf' name 0 (v.clusterSize / 32) with
          | found e => exact ⟨rfl, hsector⟩
          | ended => exact ⟨rfl, hsector⟩
          | more =>
              dsimp only
              split
              · exact ⟨rfl, hsector⟩
              · exact ⟨rfl, hsector⟩

/-- A search sees the clusters of the volume only. -/
theorem lookupLoop_over {name : List UInt8} {fuel cluster : Nat}
    (h : ∀ c, c < (v.clusterCount + 2) % 2 ^ 32 → SameCluster v σ d.sector c) :
    lookupLoop v name fuel cluster (d.over σ) buf =
      (lookupLoop v name fuel cluster d buf).map fun r => (r.1, r.2.over σ) := by
  induction fuel generalizing cluster d buf with
  | zero => rfl
  | succ fuel ih =>
      rw [lookupLoop_turn, lookupLoop_turn]
      by_cases hin : cluster < (v.clusterCount + 2) % 2 ^ 32
      · obtain ⟨hturn, hsector⟩ := @lookupTurn_over σ d buf v name cluster (h cluster hin)
        rw [if_pos hin, if_pos hin, hturn]
        cases hlast : lookupTurn v name cluster d buf with
        | answer r d' => rfl
        | next c d' buf' =>
            rw [hlast] at hsector
            dsimp only [Turn.over]
            apply ih
            intro c hc
            rw [show d'.sector = d.sector from hsector]
            exact h c hc
      · rw [if_neg hin, if_neg hin]
        rfl

theorem readFat_over {fs : FatFilesystem} {i n : Nat}
    (h : ∀ k, k < n → σ ((fs.fatStart + (i + k)) % 2 ^ 32) = d.sector ((fs.fatStart + (i + k)) % 2 ^ 32)) :
    readFat fs i n (d.over σ) memory = overRead σ (readFat fs i n d memory) := by
  induction n generalizing i d memory with
  | zero => rfl
  | succ n ih =>
      have hsector := @ataReadSector_sector d memory ((fs.fatStart + i) % 2 ^ 32)
        (fs.fat + i * fs.boot.bytesPerSector % 2 ^ 32)
      have hfirst : σ ((fs.fatStart + i) % 2 ^ 32) = d.sector ((fs.fatStart + i) % 2 ^ 32) :=
        h 0 (Nat.succ_pos n)
      rw [readFat, readFat, ataReadSector_over hfirst]
      cases hread : ataReadSector d ((fs.fatStart + i) % 2 ^ 32) memory
          (fs.fat + i * fs.boot.bytesPerSector % 2 ^ 32) with
      | mk ok rest =>
          obtain ⟨d', memory'⟩ := rest
          rw [hread] at hsector
          cases ok with
          | false => rfl
          | true =>
              apply ih
              intro k hk
              have hnext : i + 1 + k = i + (k + 1) := by omega
              rw [hnext, hsector]
              exact h (k + 1) (by omega)

theorem readFat_sector (fs : FatFilesystem) (i n : Nat) (d : Disk) (memory : Mem) :
    (readFat fs i n d memory).2.1.sector = d.sector := by
  induction n generalizing i d memory with
  | zero => rfl
  | succ n ih =>
      rw [readFat, ataReadSector]
      cases hread : d.succeeds d.reads with
      | false => rfl
      | true => exact ih _ { d with reads := d.reads + 1 } _

end

/-! ## Mounting and opening -/

def MountState.over (s : MountState) (sector : Nat → Mem) : MountState :=
  { s with disk := s.disk.over sector }

section

variable {kmalloc : Allocator} {s s' : MountState} {σ : Nat → Mem} {b : BootSector}

/-- A mount sees the boot sector and the FAT. -/
theorem fatMount_over (hboot : σ 0 = s.disk.sector 0)
    (hfat : ∀ k, k < s.bootSector.fatSize →
      σ ((s.bootSector.reservedSectors + k) % 2 ^ 32) =
        s.disk.sector ((s.bootSector.reservedSectors + k) % 2 ^ 32)) :
    fatMount kmalloc (s.over σ) = (fatMount kmalloc s).map fun r => (r.1, r.2.over σ) := by
  rw [fatMount, fatMount, MountState.over, ataReadSector_over hboot, ataReadSector]
  cases hread : s.disk.succeeds s.disk.reads with
  | false => rfl
  | true =>
      simp only [overRead, if_true]
      have hsame : (⟨copyBytes (fun _ => 0) 0 (s.disk.sector 0) 0 512⟩ : BootSector) = s.bootSector := rfl
      rw [hsame]
      cases hfs : s.fs.configure s.bootSector with
      | none => rfl
      | some fs =>
          obtain ⟨hfsboot, -⟩ := FatFilesystem.configure_boot hfs
          have hstart : fs.fatStart = s.bootSector.reservedSectors := by
            unfold FatFilesystem.configure at hfs
            split at hfs
            · cases hfs
            · cases hfs
              rfl
          simp only [Option.bind_eq_bind, Option.bind_some]
          by_cases hnull : kmalloc s.heap fs.boot.cacheSize = 0
          · rw [if_pos hnull, if_pos hnull]
            rfl
          · have hloop := @readFat_over σ { s.disk with reads := s.disk.reads + 1 } s.memory
              { fs with fat := kmalloc s.heap fs.boot.cacheSize } 0 fs.boot.fatSize (by
                intro k hk
                rw [Nat.zero_add]
                dsimp only
                rw [hstart]
                rw [hfsboot] at hk
                exact hfat k hk)
            rw [if_neg hnull, if_neg hnull]
            dsimp only [Disk.over] at hloop ⊢
            rw [hloop]
            rcases readFat { fs with fat := kmalloc s.heap fs.boot.cacheSize } 0 fs.boot.fatSize
              { s.disk with reads := s.disk.reads + 1 } s.memory with ⟨ok, d', memory'⟩
            cases ok with
            | false => rfl
            | true => rfl

/-- The clusters that a search may visit have no sector in the root directory. -/
theorem sameCluster_of_front {v : FatVolume} {sector : Nat → Mem} (hdata : v.dataStart = b.metaSectors)
    (hcount : v.clusterCount = (b.totalSectors - b.metaSectors) / v.sectorsPerCluster)
    (hpos : 0 < v.sectorsPerCluster) (hareas : b.metaSectors ≤ b.totalSectors)
    (hfront : v.sectorsPerCluster ≤ b.reservedSectors + b.numFats * b.fatSize)
    (hsame : ∀ lba, lba ∉ b.rootArea → σ lba = sector lba) {c : Nat}
    (hc : c < (v.clusterCount + 2) % 2 ^ 32) : SameCluster v σ sector c := by
  intro k hk
  have htotal := b.totalSectors_lt
  have hmod := Nat.mod_le (v.clusterCount + 2) (2 ^ 32)
  apply hsame
  rw [BootSector.rootArea, Finset.mem_Ico]
  by_cases hlow : c < 2
  · -- Cluster 0 or 1 is the front of the volume.
    rw [FatVolume.clusterToSector, if_pos hlow, Nat.zero_add]
    have hle := Nat.mod_le k (2 ^ 32)
    omega
  · have hin : c ∈ v.clusters := Finset.mem_Ico.mpr ⟨by omega, by omega⟩
    obtain ⟨hstart, hend⟩ := clusterToSector_inside hdata hpos hcount hareas hin
    rw [hstart, Nat.mod_eq_of_lt (by omega)]
    rw [BootSector.metaSectors]
    omega

end

/-- On a volume whose areas fit it and whose first cluster of sectors lies in front of the root
directory, the sectors of the root directory decide nothing: neither what a mount answers nor what
opening any path answers. -/
theorem root_area_ignored (kmalloc : Allocator) (s : MountState) (σ : Nat → Mem)
    (hreserved : 0 < s.bootSector.reservedSectors) (hfats : 0 < s.bootSector.numFats)
    (hareas : s.bootSector.metaSectors ≤ s.bootSector.totalSectors)
    (hfront : s.bootSector.sectorsPerCluster ≤
      s.bootSector.reservedSectors + s.bootSector.numFats * s.bootSector.fatSize)
    (hsame : ∀ lba, lba ∉ s.bootSector.rootArea → σ lba = s.disk.sector lba) :
    fatMount kmalloc (s.over σ) = (fatMount kmalloc s).map (fun r => (r.1, r.2.over σ)) ∧
      ∀ s', fatMount kmalloc s = some (1, s') →
        ∀ (handle : FileHandle) (path : List UInt8) (flags fuel : Nat) (stack : Mem),
          fatOpen (s'.fs.volume s'.memory) s'.fs.rootCluster fuel handle path flags (s'.disk.over σ) stack =
            (fatOpen (s'.fs.volume s'.memory) s'.fs.rootCluster fuel handle path flags s'.disk stack).map
              fun r => (r.1, r.2.1.over σ, r.2.2) := by
  have htotal := s.bootSector.totalSectors_lt
  have hmany := Nat.le_mul_of_pos_left s.bootSector.fatSize hfats
  have hareas' := hareas
  rw [BootSector.metaSectors] at hareas'
  refine ⟨fatMount_over ?_ ?_, ?_⟩
  · apply hsame
    rw [BootSector.rootArea, Finset.mem_Ico]
    omega
  · intro k hk
    apply hsame
    rw [BootSector.rootArea, Finset.mem_Ico, Nat.mod_eq_of_lt (by omega)]
    omega
  · intro s' hmount handle path flags fuel stack
    obtain ⟨fs, hfs, heq⟩ := fatMount_one hmount
    obtain ⟨hboot, hdata, hcount⟩ := configure_layout hfs hareas
    have hper : (s'.fs.volume s'.memory).sectorsPerCluster = s.bootSector.sectorsPerCluster := by
      rw [heq, ← hboot]
      rfl
    have hpos := FatFilesystem.configure_sectors hfs
    rw [hboot] at hpos
    have hsector : s'.disk.sector = s.disk.sector := by
      obtain ⟨_, d, -, hdisk, -, hread⟩ := fatMount_read hmount
      have hkept := readFat_sector s'.fs 0 s'.fs.boot.fatSize d s.memory
      rw [hread] at hkept
      exact hkept.trans hdisk.sector
    have hlookup := @lookupLoop_over σ s'.disk stack (s'.fs.volume s'.memory) (fatName path) fuel
      (if (s'.fs.volume s'.memory).fatType = .fat32 then s'.fs.rootCluster else 0) (by
        intro c hc
        rw [hsector]
        apply sameCluster_of_front _ _ _ hareas _ hsame hc
        · rw [heq]
          exact hdata
        · rw [hper, heq]
          exact hcount
        · rw [hper]
          exact hpos
        · rw [hper]
          exact hfront)
    simp only [fatOpen, lookupFileInDir, Option.bind_eq_bind, hlookup]
    cases lookupLoop (s'.fs.volume s'.memory) (fatName path) fuel
        (if (s'.fs.volume s'.memory).fatType = .fat32 then s'.fs.rootCluster else 0) s'.disk stack with
    | none => rfl
    | some r =>
        obtain ⟨found, d'⟩ := r
        cases found with
        | none => rfl
        | some e =>
            simp only [Option.map_some, Option.bind_some]
            split
            · rfl
            · rfl

def namedRoot : Nat → Mem := fun lba =>
  if 19 ≤ lba ∧ lba < 33 then fun _ => 0x41 else floppyBoot.bytes

def filledName : List UInt8 := List.replicate 8 0x41 ++ [0x2E, 0x41, 0x41, 0x41]

/-- Whatever is in the root directory of the floppy, the mount is the same, and a name that stands there
is not found. -/
theorem root_area_ignored_floppy : ∃ s',
    fatMount bumpAllocator (healthy floppyBoot.bytes) = some (1, s') ∧
      fatMount bumpAllocator ((healthy floppyBoot.bytes).over namedRoot) = some (1, s'.over namedRoot) ∧
      (fatOpen (s'.fs.volume s'.memory) s'.fs.rootCluster 1 (handleAt 0) filledName 1
        (s'.disk.over namedRoot) fun _ => 0).map (·.1) = some 0 := by
  obtain ⟨s', hmount, -⟩ :=
    @healthy_mount floppyBoot.bytes (by decide) (by decide) (by decide)
  have hsame : ∀ lba, lba ∉ (healthy floppyBoot.bytes).bootSector.rootArea →
      namedRoot lba = (healthy floppyBoot.bytes).disk.sector lba := by
    intro lba hlba
    have harea : (healthy floppyBoot.bytes).bootSector.rootArea = Finset.Ico 19 33 := by decide
    rw [harea, Finset.mem_Ico] at hlba
    exact if_neg hlba
  obtain ⟨hover, hopen⟩ := root_area_ignored bumpAllocator (healthy floppyBoot.bytes) namedRoot
    (by decide) (by decide) (by decide) (by decide) hsame
  have hanswer : ((fatMount bumpAllocator (healthy floppyBoot.bytes)).bind fun r =>
      (fatOpen (r.2.fs.volume r.2.memory) r.2.fs.rootCluster 1 (handleAt 0) filledName 1 r.2.disk
        fun _ => 0).map (·.1)) = some 0 := by
    decide +kernel
  rw [hmount] at hover hanswer
  refine ⟨s', hmount, hover, ?_⟩
  rw [hopen s' hmount, Option.map_map]
  exact hanswer

end Kaviz.Fat
