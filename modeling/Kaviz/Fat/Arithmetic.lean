import Kaviz.Fat.Layout

/-! # The arithmetic of mounting

Six fields of the boot sector go through two divisions, a difference and three
products of `fat_mount`, none of which is checked. The sectors that survive all
of them are those of a volume that holds its own tables.
-/

namespace Kaviz.Fat

open Bytes Ledger

def bootSectorOf (sector : Mem) : BootSector := ⟨copyBytes (fun _ => 0) 0 sector 0 512⟩

theorem MountState.bootSector_of {s : MountState} {sector : Mem} (h : s.disk.sector 0 = sector) :
    s.bootSector = bootSectorOf sector := by
  rw [MountState.bootSector, bootSectorOf, h]

/-! ## Computations that wrap -/

namespace BootSector

/-- Every 32-bit computation of `fat_mount` has its exact value; those on fields
of 8 and 16 bits are signed. -/
structure NoWrap (b : BootSector) : Prop where
  /-- Numerator of `root_dir_sectors`. -/
  root_bytes : b.rootEntries * 32 + (b.bytesPerSector - 1) < 2 ^ 31
  fat_area : b.numFats * b.fatSize < 2 ^ 32
  root_start : b.reservedSectors + b.numFats * b.fatSize < 2 ^ 32
  /-- `data_start`, and the subtrahend of `data_sectors`. -/
  data_start : b.reservedSectors + b.numFats * b.fatSize + b.rootDirSectors < 2 ^ 32
  data_sectors : b.reservedSectors + b.numFats * b.fatSize + b.rootDirSectors ≤ b.totalSectors
  cluster_size : b.sectorsPerCluster * b.bytesPerSector < 2 ^ 31
  cache_size : b.fatSize * b.bytesPerSector < 2 ^ 32
  /-- Sector and buffer offset of each turn of the loop that reads the FAT. -/
  fat_sector : ∀ i, i < b.fatSize → b.reservedSectors + i < 2 ^ 32
  cache_offset : ∀ i, i < b.fatSize → i * b.bytesPerSector < 2 ^ 32

/-- The volume holds its reserved sectors, FATs and root directory, the FAT in bytes
is a 32-bit size, and the first FAT ends inside the 32-bit sector numbers. -/
structure HoldsTables (b : BootSector) : Prop where
  tables : b.metaSectors ≤ b.totalSectors
  bytes : b.fatSize * b.bytesPerSector < 2 ^ 32
  sectors : b.reservedSectors + b.fatSize ≤ 2 ^ 32

theorem bytesPerSector_lt (b : BootSector) : b.bytesPerSector < 2 ^ 16 := readLE_lt _ _ 2

theorem sectorsPerCluster_lt (b : BootSector) : b.sectorsPerCluster < 2 ^ 8 := readLE_lt _ _ 1

theorem reservedSectors_lt (b : BootSector) : b.reservedSectors < 2 ^ 16 := readLE_lt _ _ 2

theorem rootEntries_lt (b : BootSector) : b.rootEntries < 2 ^ 16 := readLE_lt _ _ 2

theorem NoWrap.holdsTables {b : BootSector} (h : b.NoWrap) : b.HoldsTables := by
  refine ⟨h.data_sectors, h.cache_size, ?_⟩
  have hreserved := b.reservedSectors_lt
  rcases Nat.eq_zero_or_pos b.fatSize with hzero | hpos
  · omega
  · have hlast := h.fat_sector (b.fatSize - 1) (Nat.sub_lt hpos Nat.one_pos)
    omega

theorem HoldsTables.noWrap {b : BootSector} (h : b.HoldsTables) : b.NoWrap := by
  have htotal := b.totalSectors_lt
  have hbytes := b.bytesPerSector_lt
  have htables : b.reservedSectors + b.numFats * b.fatSize + b.rootDirSectors ≤ b.totalSectors :=
    h.tables
  constructor
  case root_bytes =>
    have hroot := b.rootEntries_lt
    omega
  case fat_area => omega
  case root_start => omega
  case data_start => omega
  case data_sectors => exact htables
  case cluster_size =>
    calc b.sectorsPerCluster * b.bytesPerSector
        ≤ 2 ^ 8 * 2 ^ 16 := Nat.mul_le_mul b.sectorsPerCluster_lt.le hbytes.le
      _ < 2 ^ 31 := by decide
  case cache_size => exact h.bytes
  case fat_sector =>
    intro i hi
    have hsectors := h.sectors
    omega
  case cache_offset =>
    intro i hi
    exact Nat.lt_of_le_of_lt (Nat.mul_le_mul_right _ hi.le) h.bytes

end BootSector

/-! ## Mounting -/

/-- Before a drive with this first sector, whatever the heap and the rest of the
drive do, `fat_mount` divides by no zero, and nothing has wrapped when it returns 1. -/
def SurvivesMount (sector : Mem) : Prop :=
  ∀ (kmalloc : Allocator) (s : MountState), s.disk.sector 0 = sector →
    ∃ r s', fatMount kmalloc s = some (r, s') ∧ (r = 1 → (bootSectorOf sector).NoWrap)

section

variable {kmalloc : Allocator} {s : MountState} {fs : FatFilesystem}

theorem fatMount_isSome (hfs : s.fs.configure s.bootSector = some fs) :
    ∃ r s', fatMount kmalloc s = some (r, s') := by
  rw [fatMount, ataReadSector]
  cases s.disk.succeeds s.disk.reads with
  | false => exact ⟨_, _, rfl⟩
  | true =>
      have hconfigure : s.fs.configure ⟨copyBytes (fun _ => 0) 0 (s.disk.sector 0) 0 512⟩ = some fs := hfs
      simp only [reduceIte, hconfigure, Option.bind_eq_bind, Option.bind_some]
      split
      · exact ⟨_, _, rfl⟩
      · split
        · exact ⟨_, _, rfl⟩
        · exact ⟨_, _, rfl⟩

/-- A division by zero is reached as soon as the boot sector is there. -/
theorem fatMount_none (hboot : s.disk.succeeds s.disk.reads = true)
    (hfs : s.fs.configure s.bootSector = none) : fatMount kmalloc s = none := by
  have hconfigure : s.fs.configure ⟨copyBytes (fun _ => 0) 0 (s.disk.sector 0) 0 512⟩ = none := hfs
  rw [fatMount, ataReadSector, hboot]
  simp only [reduceIte, hconfigure, Option.bind_eq_bind, Option.bind_none]

/-- With a buffer and a drive that does not fail a mount that gets past the divisions
returns 1. -/
theorem fatMount_returns (hdrive : ∀ k, s.disk.succeeds k = true)
    (hfs : s.fs.configure s.bootSector = some fs)
    (hbuffer : ∀ size, kmalloc s.heap size ≠ 0) : ∃ s', fatMount kmalloc s = some (1, s') := by
  have hconfigure : s.fs.configure ⟨copyBytes (fun _ => 0) 0 (s.disk.sector 0) 0 512⟩ = some fs := hfs
  rw [fatMount, ataReadSector, hdrive]
  simp only [reduceIte, hconfigure, Option.bind_eq_bind, Option.bind_some, hbuffer]
  split
  · exact ⟨_, rfl⟩
  · rename_i hread
    have hok := (readFat_ok { fs with fat := kmalloc s.heap fs.boot.cacheSize } 0 fs.boot.fatSize
      { s.disk with reads := s.disk.reads + 1 } s.memory).mpr fun k _ => hdrive _
    rw [hread] at hok
    cases hok

end

section

variable {sector : Mem}

theorem survivesMount_of (hbytes : (bootSectorOf sector).bytesPerSector ≠ 0)
    (hsectors : (bootSectorOf sector).sectorsPerCluster ≠ 0)
    (htables : (bootSectorOf sector).HoldsTables) : SurvivesMount sector := by
  intro kmalloc s hsector
  obtain ⟨fs, hfs⟩ := configure_isSome s.fs hbytes hsectors
  rw [← MountState.bootSector_of hsector] at hfs
  obtain ⟨r, s', hmount⟩ := fatMount_isSome hfs
  exact ⟨r, s', hmount, fun _ => htables.noWrap⟩

/-- A heap with a buffer for everybody and a drive without errors, with this first
sector. -/
def healthy (sector : Mem) : MountState :=
  { (unmounted fun _ => true).2 with disk := ⟨fun _ => sector, fun _ => true, 0⟩ }

theorem bumpAllocator_ne (h : List (Entry Nat)) (size : Nat) : bumpAllocator h size ≠ 0 :=
  Nat.mul_ne_zero (by decide) (Nat.succ_ne_zero _)

theorem SurvivesMount.nonzero (h : SurvivesMount sector) :
    (bootSectorOf sector).bytesPerSector ≠ 0 ∧ (bootSectorOf sector).sectorsPerCluster ≠ 0 := by
  apply not_or.mp
  intro hzero
  have hfs : (healthy sector).fs.configure (healthy sector).bootSector = none := if_pos hzero
  obtain ⟨r, s', hmount, -⟩ := h bumpAllocator (healthy sector) rfl
  rw [fatMount_none rfl hfs] at hmount
  cases hmount

theorem SurvivesMount.holdsTables (h : SurvivesMount sector) : (bootSectorOf sector).HoldsTables := by
  obtain ⟨hbytes, hsectors⟩ := h.nonzero
  obtain ⟨fs, hfs⟩ := configure_isSome (healthy sector).fs hbytes hsectors
  obtain ⟨s', hmount⟩ := fatMount_returns (fun _ => rfl) hfs (bumpAllocator_ne _)
  obtain ⟨r, s'', hmount', hwrap⟩ := h bumpAllocator (healthy sector) rfl
  rw [hmount] at hmount'
  cases hmount'
  exact (hwrap rfl).holdsTables

/-- Mounting survives exactly the boot sectors with sectors and clusters of some size
on which the volume holds its tables. -/
theorem fat_mount_survives_iff (sector : Mem) : SurvivesMount sector ↔
    (bootSectorOf sector).bytesPerSector ≠ 0 ∧ (bootSectorOf sector).sectorsPerCluster ≠ 0 ∧
      (bootSectorOf sector).HoldsTables := by
  constructor
  · intro h
    exact ⟨h.nonzero.1, h.nonzero.2, h.holdsTables⟩
  · rintro ⟨hbytes, hsectors, htables⟩
    exact survivesMount_of hbytes hsectors htables

end

def cutFloppy : Mem := fun i => if i = 19 then 1 else if i = 20 then 0 else floppyBoot.bytes i

/-- A blank drive is divided by zero, and behind one sector `data_sectors` wraps. -/
theorem fat_mount_unchecked : ¬ SurvivesMount (fun _ => 0) ∧ ¬ SurvivesMount cutFloppy := by
  constructor
  · intro h
    exact h.nonzero.1 (by decide)
  · intro h
    exact absurd h.holdsTables.tables (by decide)

end Kaviz.Fat
