import Kaviz.Lib.Ledger
import Kaviz.Lib.Traces
import Kaviz.Fat.Volume

/-! # Mounting and unmounting

`fat_mount` and `fat_unmount` of `kernel/fs/fat.c` on one `struct
fat_filesystem`. The heap is seen through the history of the cache buffers: its
answers may depend on everything that was requested before. `fat_mount` frees
the buffer when a sector of the FAT cannot be read and keeps the pointer, which
is the only way to a pointer that was freed.
-/

namespace Kaviz.Fat

open Bytes Ledger Traces

/-! ## The boot sector -/

/-- `struct fat_boot_sector`, packed. -/
structure BootSector where
  bytes : Mem

namespace BootSector

def bytesPerSector (b : BootSector) : Nat := readLE b.bytes 11 2
def sectorsPerCluster (b : BootSector) : Nat := readLE b.bytes 13 1
def reservedSectors (b : BootSector) : Nat := readLE b.bytes 14 2
def numFats (b : BootSector) : Nat := readLE b.bytes 16 1
/-- The source reaches it through `fat16`, which has no such member. -/
def rootEntries (b : BootSector) : Nat := readLE b.bytes 17 2
def totalSectors16 (b : BootSector) : Nat := readLE b.bytes 19 2
def fatSize16 (b : BootSector) : Nat := readLE b.bytes 22 2
def totalSectors32 (b : BootSector) : Nat := readLE b.bytes 32 4
def fatSize32 (b : BootSector) : Nat := readLE b.bytes 36 4
def rootCluster (b : BootSector) : Nat := readLE b.bytes 44 4

def fatSize (b : BootSector) : Nat := if b.fatSize16 = 0 then b.fatSize32 else b.fatSize16

def totalSectors (b : BootSector) : Nat :=
  if b.totalSectors16 = 0 then b.totalSectors32 else b.totalSectors16

/-- Argument of `kmalloc` in `fat_mount`, a 32-bit product. -/
def cacheSize (b : BootSector) : Nat := b.fatSize * b.bytesPerSector % 2 ^ 32

end BootSector

/-- `struct fat_filesystem` behind its VFS part. -/
structure FatFilesystem where
  boot : BootSector
  fatStart : Nat
  fatSize : Nat
  rootStart : Nat
  rootCluster : Nat
  dataStart : Nat
  clusterCount : Nat
  clusterSize : Nat
  fatType : FatType
  /-- Address of the cached FAT; zero is `NULL`. -/
  fat : Nat

/-- Everything `fat_mount` derives from the boot sector, in 32-bit arithmetic.
`none` is a division by zero. -/
def FatFilesystem.configure (fs : FatFilesystem) (b : BootSector) : Option FatFilesystem :=
  if b.bytesPerSector = 0 ∨ b.sectorsPerCluster = 0 then none
  else
    let rootDirSectors := (b.rootEntries * 32 + (b.bytesPerSector - 1)) / b.bytesPerSector
    let rootStart := (b.reservedSectors + b.numFats * b.fatSize) % 2 ^ 32
    let metaSectors := (b.reservedSectors + b.numFats * b.fatSize + rootDirSectors) % 2 ^ 32
    let dataSectors := (b.totalSectors + 2 ^ 32 - metaSectors) % 2 ^ 32
    let clusterCount := dataSectors / b.sectorsPerCluster
    some
      { boot := b
        fatStart := b.reservedSectors
        fatSize := b.fatSize
        rootStart := rootStart
        rootCluster := if clusterCount < 65525 then fs.rootCluster else b.rootCluster
        dataStart := (rootStart + rootDirSectors) % 2 ^ 32
        clusterCount := clusterCount
        clusterSize := b.sectorsPerCluster * b.bytesPerSector
        fatType := if clusterCount < 4085 then .fat12 else if clusterCount < 65525 then .fat16 else .fat32
        fat := fs.fat }

theorem FatFilesystem.configure_boot {fs fs' : FatFilesystem} {b : BootSector}
    (h : fs.configure b = some fs') : fs'.boot = b ∧ fs'.fat = fs.fat := by
  unfold FatFilesystem.configure at h
  split at h
  · cases h
  · cases h
    exact ⟨rfl, rfl⟩

theorem FatFilesystem.configure_sectors {fs fs' : FatFilesystem} {b : BootSector}
    (h : fs.configure b = some fs') : 0 < fs'.boot.sectorsPerCluster := by
  rw [(FatFilesystem.configure_boot h).1]
  unfold FatFilesystem.configure at h
  split at h
  · cases h
  · rename_i hnonzero
    exact Nat.pos_of_ne_zero fun hzero => hnonzero (Or.inr hzero)

/-- The volume behind the structure `fat_mount` has filled in. -/
def FatFilesystem.volume (fs : FatFilesystem) (memory : Mem) : FatVolume where
  fatType := fs.fatType
  sectorsPerCluster := fs.boot.sectorsPerCluster
  dataStart := fs.dataStart
  clusterCount := fs.clusterCount
  clusterSize := fs.clusterSize
  fat i := memory (fs.fat + i)

/-! ## Mounting -/

structure MountState where
  fs : FatFilesystem
  disk : Disk
  /-- Kernel memory, with the cache in it. -/
  memory : Mem
  /-- `kmalloc` and `kfree` calls for the cache, newest first. -/
  heap : List (Entry Nat)

/-- Answers of `kmalloc`, from the history and the size; zero is `NULL`. -/
abbrev Allocator := List (Entry Nat) → Nat → Nat

/-- `kmalloc` never answers with an address that is in use. -/
def Allocator.Fresh (kmalloc : Allocator) : Prop :=
  ∀ h size, kmalloc h size ≠ 0 → kmalloc h size ∉ live h

/-- The loop that reads the FAT, from sector `i` on (`n` left). -/
def readFat (fs : FatFilesystem) : Nat → Nat → Disk → Mem → Bool × Disk × Mem
  | _, 0, d, memory => (true, d, memory)
  | i, n + 1, d, memory =>
      match ataReadSector d ((fs.fatStart + i) % 2 ^ 32) memory
        (fs.fat + i * fs.boot.bytesPerSector % 2 ^ 32) with
      | (true, d, memory) => readFat fs (i + 1) n d memory
      | (false, d, memory) => (false, d, memory)

section

variable (kmalloc : Allocator)

/-- `fat_mount`; `boot_sector` is a local array. `none` is a division by zero. -/
def fatMount (s : MountState) : Option (Nat × MountState) :=
  match ataReadSector s.disk 0 (fun _ => 0) 0 with
  | (false, disk, _) => some (0, { s with disk := disk })
  | (true, disk, bootSector) => do
      let fs ← s.fs.configure ⟨bootSector⟩
      let fat := kmalloc s.heap fs.boot.cacheSize
      let fs := { fs with fat := fat }
      if fat = 0 then return (0, { s with fs := fs, disk := disk })
      else
        let heap := .acquire fat :: s.heap
        match readFat fs 0 fs.boot.fatSize disk s.memory with
        | (true, disk, memory) => return (1, ⟨fs, disk, memory, heap⟩)
        | (false, disk, memory) => return (0, ⟨fs, disk, memory, .release fs.fat :: heap⟩)

def fatUnmount (s : MountState) : Nat × MountState :=
  if s.fs.fat ≠ 0 then
    (1, { s with fs := { s.fs with fat := 0 }, heap := .release s.fs.fat :: s.heap })
  else (1, s)

inductive MountOp
  | mount
  | unmount
  deriving DecidableEq

/-- One call; the state carries what the last call returned. -/
def mountStep (s : Nat × MountState) : MountOp → Option (Nat × MountState)
  | .mount => fatMount kmalloc s.2
  | .unmount => some (fatUnmount s.2)

end

/-! ## The buffer of the cache -/

def MountState.bootSector (s : MountState) : BootSector :=
  ⟨copyBytes (fun _ => 0) 0 (s.disk.sector 0) 0 512⟩

/-- Once a mount has its buffer, the drive delivers every sector of the FAT. -/
def FatReadable (kmalloc : Allocator) (s : MountState) : Prop :=
  s.disk.succeeds s.disk.reads = true → kmalloc s.heap s.bootSector.cacheSize ≠ 0 →
    ∀ k, k < s.bootSector.fatSize → s.disk.succeeds (s.disk.reads + 1 + k) = true

/-- The pointer of the structure is `NULL` or a buffer in use. -/
def MountState.Holds (s : MountState) : Prop := s.fs.fat = 0 ∨ s.fs.fat ∈ live s.heap

/-- No buffer has been freed more often than `kmalloc` delivered it, and a mount
that returns 0 leaves no pointer to a freed one. -/
def FreedOnce (t : Step (Nat × MountState) MountOp) : Prop :=
  ReleasedOnce t.after.2.heap ∧ (t.op = .mount → t.after.1 = 0 → t.after.2.Holds)

structure CacheInv (s : MountState) : Prop where
  disciplined : Disciplined s.heap
  holds : s.Holds

theorem readFat_ok (fs : FatFilesystem) (i n : Nat) (d : Disk) (memory : Mem) :
    (readFat fs i n d memory).1 = true ↔ ∀ k, k < n → d.succeeds (d.reads + k) = true := by
  induction n generalizing i d memory with
  | zero => simp [readFat]
  | succ n ih =>
      rw [readFat, ataReadSector]
      cases hread : d.succeeds d.reads with
      | false =>
          constructor
          · intro h
            cases h
          · intro h
            have hfirst := h 0 (Nat.succ_pos n)
            rw [Nat.add_zero, hread] at hfirst
            cases hfirst
      | true =>
          have hrest := ih (i + 1) { d with reads := d.reads + 1 }
            (copyBytes memory (fs.fat + i * fs.boot.bytesPerSector % 2 ^ 32)
              (d.sector ((fs.fatStart + i) % 2 ^ 32)) 0 512)
          apply hrest.trans
          constructor
          · intro h k hk
            cases k with
            | zero => exact hread
            | succ k =>
                have hnext := h k (by omega)
                rw [Nat.add_assoc, Nat.add_comm 1 k] at hnext
                exact hnext
          · intro h k hk
            rw [Nat.add_assoc, Nat.add_comm 1 k]
            exact h (k + 1) (by omega)

section

variable {kmalloc : Allocator}

theorem fatMount_cases {s s' : MountState} {r : Nat} (h : fatMount kmalloc s = some (r, s')) :
    (s.disk.succeeds s.disk.reads = false ∧ s'.fs = s.fs ∧ s'.heap = s.heap) ∨
    (kmalloc s.heap s.bootSector.cacheSize = 0 ∧ s'.fs.fat = 0 ∧ s'.heap = s.heap) ∨
    (kmalloc s.heap s.bootSector.cacheSize ≠ 0 ∧
      s'.fs.fat = kmalloc s.heap s.bootSector.cacheSize ∧
      s'.heap = .acquire s'.fs.fat :: s.heap ∧
      ∀ k, k < s.bootSector.fatSize → s.disk.succeeds (s.disk.reads + 1 + k) = true) ∨
    (s.disk.succeeds s.disk.reads = true ∧ r = 0 ∧
      kmalloc s.heap s.bootSector.cacheSize ≠ 0 ∧
      s'.fs.fat = kmalloc s.heap s.bootSector.cacheSize ∧
      s'.heap = .release s'.fs.fat :: .acquire s'.fs.fat :: s.heap ∧
      ¬ ∀ k, k < s.bootSector.fatSize → s.disk.succeeds (s.disk.reads + 1 + k) = true) := by
  rw [fatMount, ataReadSector] at h
  cases hboot : s.disk.succeeds s.disk.reads with
  | false =>
      rw [hboot] at h
      cases h
      exact .inl ⟨rfl, rfl, rfl⟩
  | true =>
      rw [hboot] at h
      obtain ⟨fs, hfs, h⟩ := Option.bind_eq_some_iff.mp h
      obtain ⟨hsector, -⟩ := FatFilesystem.configure_boot hfs
      have hsame : fs.boot = s.bootSector := hsector
      dsimp only at h
      rw [hsame] at h
      by_cases hnull : kmalloc s.heap s.bootSector.cacheSize = 0
      · rw [if_pos hnull] at h
        cases h
        exact .inr (.inl ⟨hnull, hnull, rfl⟩)
      · rw [if_neg hnull] at h
        have hok := fun fs => readFat_ok fs 0 s.bootSector.fatSize
          ⟨s.disk.sector, s.disk.succeeds, s.disk.reads + 1⟩ s.memory
        split at h
        · rename_i hread
          cases h
          exact .inr (.inr (.inl ⟨hnull, rfl, rfl, (hok _).mp (congrArg Prod.fst hread)⟩))
        · rename_i hread
          cases h
          refine .inr (.inr (.inr ⟨rfl, rfl, hnull, rfl, rfl, ?_⟩))
          intro hall
          have htrue := ((hok _).mpr hall).symm.trans (congrArg Prod.fst hread)
          cases htrue

theorem CacheInv.unmount {s : MountState} (h : CacheInv s) : CacheInv (fatUnmount s).2 := by
  unfold fatUnmount
  by_cases hnull : s.fs.fat ≠ 0
  · rw [if_pos hnull]
    have hlive : s.fs.fat ∈ live s.heap := h.holds.resolve_left hnull
    exact ⟨⟨hlive, h.disciplined⟩, .inl rfl⟩
  · rw [if_neg hnull]
    exact h

theorem CacheInv.mount {s s' : MountState} {r : Nat} (h : CacheInv s) (hread : FatReadable kmalloc s)
    (hmount : fatMount kmalloc s = some (r, s')) : CacheInv s' := by
  rcases fatMount_cases hmount with ⟨-, hfs, hheap⟩ | ⟨-, hnull, hheap⟩ | ⟨-, -, hheap, -⟩ |
    ⟨hboot, -, hbuffer, -, -, hfail⟩
  · refine ⟨hheap ▸ h.disciplined, ?_⟩
    rw [MountState.Holds, hfs, hheap]
    exact h.holds
  · exact ⟨hheap ▸ h.disciplined, .inl hnull⟩
  · constructor
    · rw [hheap]
      exact h.disciplined
    · refine .inr ?_
      rw [hheap]
      exact List.mem_cons_self
  · exact absurd (hread hboot hbuffer) hfail

theorem CacheInv.step {s s' : Nat × MountState} {op : MountOp} (h : CacheInv s.2)
    (hcond : op = .mount → FatReadable kmalloc s.2) (hstep : mountStep kmalloc s op = some s') :
    CacheInv s'.2 := by
  cases op with
  | mount => exact h.mount (hcond rfl) hstep
  | unmount =>
      cases hstep
      exact h.unmount

theorem CacheInv.freedOnce {t : Step (Nat × MountState) MountOp} (h : CacheInv t.after.2) :
    FreedOnce t := ⟨h.disciplined.releasedOnce, fun _ _ => h.holds⟩

/-- A mount that gives its buffer back keeps the address of it. -/
theorem fatReadable_of_freedOnce {s s' : Nat × MountState} {op : MountOp} (hfresh : kmalloc.Fresh)
    (hstep : mountStep kmalloc s op = some s') (hgood : FreedOnce ⟨s, op, s'⟩) (hop : op = .mount) :
    FatReadable kmalloc s.2 := by
  subst hop
  intro hboot hbuffer
  rcases fatMount_cases hstep with ⟨hfail, -, -⟩ | ⟨hnull, -, -⟩ | ⟨-, -, -, hall⟩ |
    ⟨-, hret, -, hfat, hheap, -⟩
  · rw [hboot] at hfail
    cases hfail
  · exact absurd hnull hbuffer
  · exact hall
  · have hholds : s'.2.Holds := hgood.2 rfl hret
    rw [MountState.Holds, hheap, live_release_acquire, hfat] at hholds
    rcases hholds with hnull | hlive
    · exact absurd hnull hbuffer
    · exact absurd hlive (hfresh _ _ hbuffer)

/-- Over every run of mounts and unmounts from a `NULL` pointer the buffers are
freed once if the drive never fails inside a mount's read of the FAT, and, for a
heap that does not hand out what is in use, only then. -/
theorem fat_cache_freed_once {s s' : Nat × MountState} {ts : List (Step (Nat × MountState) MountOp)}
    (hnull : s.2.fs.fat = 0) (hheap : s.2.heap = []) (h : Trace (mountStep kmalloc) s ts s') :
    ((∀ t ∈ ts, t.op = .mount → FatReadable kmalloc t.before.2) → ∀ t ∈ ts, FreedOnce t) ∧
      (kmalloc.Fresh → (∀ t ∈ ts, FreedOnce t) →
        ∀ t ∈ ts, t.op = .mount → FatReadable kmalloc t.before.2) := by
  have hinv : CacheInv s.2 := ⟨by rw [hheap]; trivial, .inl hnull⟩
  constructor
  · intro hcond t ht
    have hafter := @Trace.forall_inv _ _ _ _ _ _ (fun s => CacheInv s.2)
      (fun t => t.op = .mount → FatReadable kmalloc t.before.2) h hinv
      (fun hs hstep hcond => hs.step hcond hstep) hcond t ht
    exact hafter.2.freedOnce
  · intro hfresh hgood t ht
    have hstep := @Trace.inv_of_mem _ _ _ _ _ _ (fun _ => True) h trivial (fun _ _ => trivial) t ht
    exact fatReadable_of_freedOnce hfresh hstep.2 (hgood t ht)

end

def emptyVolume : Mem := fun i => if i = 12 then 2 else if i = 13 then 1 else if i = 22 then 1 else 0

def unmounted (succeeds : Nat → Bool) : Nat × MountState :=
  (0, ⟨⟨⟨fun _ => 0⟩, 0, 0, 0, 0, 0, 0, 0, .fat12, 0⟩, ⟨fun _ => emptyVolume, succeeds, 0⟩,
    fun _ => 0, []⟩)

def bumpAllocator : Allocator := fun h _ => 0x1000 * (h.length + 1)

set_option maxRecDepth 20000 in
theorem fat_cache_freed_once_unmounted :
    ∃ s s', Trace (mountStep bumpAllocator) (unmounted fun _ => true)
        [⟨unmounted fun _ => true, .mount, s⟩, ⟨s, .unmount, s'⟩] s' ∧
      s.1 = 1 ∧ FreedOnce ⟨unmounted fun _ => true, .mount, s⟩ ∧ FreedOnce ⟨s, .unmount, s'⟩ := by
  obtain ⟨s, s', htrace, hret⟩ : ∃ s s', Trace (mountStep bumpAllocator) (unmounted fun _ => true)
      [⟨unmounted fun _ => true, .mount, s⟩, ⟨s, .unmount, s'⟩] s' ∧ s.1 = 1 :=
    ⟨_, _, .cons rfl (.cons rfl (.nil _)), rfl⟩
  have hgood := (fat_cache_freed_once rfl rfl htrace).1 (by
    intro t ht hop _ _ k _
    rcases List.mem_cons.mp ht with rfl | ht
    · rfl
    · rw [List.mem_singleton.mp ht] at hop
      cases hop)
  exact ⟨s, s', htrace, hret, hgood _ List.mem_cons_self,
    hgood _ (List.mem_cons_of_mem _ List.mem_cons_self)⟩

set_option maxRecDepth 20000 in
/-- The second sector read fails: the mount frees its buffer and returns 0, and
the unmount after it frees the buffer again. -/
theorem fat_cache_freed_twice :
    ∃ s s', Trace (mountStep bumpAllocator) (unmounted fun k => k == 0)
        [⟨unmounted fun k => k == 0, .mount, s⟩, ⟨s, .unmount, s'⟩] s' ∧
      s.1 = 0 ∧ ¬ s.2.Holds ∧ ¬ ReleasedOnce s'.2.heap := by
  refine ⟨_, _, .cons rfl (.cons rfl (.nil _)), rfl, ?_, ?_⟩
  · intro h
    rcases h with h | h
    · cases h
    · cases h
  · intro h
    exact absurd (h 0x1000) (by decide)

end Kaviz.Fat
