import Kaviz.Lib.Bytes

/-! # FAT volumes and open files

`read_cluster`, `read_fat_entry`, `fat_read` and `fat_seek` of
`kernel/fs/fat.c`, with the fields they use of `struct fat_filesystem`,
`struct vfs_file` and `struct fat_file`. The drive answers each sector read by
success or failure; which of them fail is part of the drive.
-/

namespace Kaviz.Fat

open Bytes

inductive FatType
  | fat12 | fat16 | fat32
  deriving DecidableEq

structure FatVolume where
  /-- `fat_type`. -/
  fatType : FatType
  /-- `boot.sectors_per_cluster`. -/
  sectorsPerCluster : Nat
  /-- `data_start`. -/
  dataStart : Nat
  /-- `cluster_count`. -/
  clusterCount : Nat
  /-- `cluster_size`. -/
  clusterSize : Nat
  /-- The cached FAT, byte by byte. -/
  fat : Mem

structure Disk where
  /-- Bytes delivered for a sector. -/
  sector : Nat → Mem
  /-- Whether the `k`-th sector read succeeds. -/
  succeeds : Nat → Bool
  /-- Sector reads so far. -/
  reads : Nat

structure FatFile where
  /-- `vfs_file.position`. -/
  position : Nat
  /-- `vfs_file.size`. -/
  size : Nat
  /-- `first_cluster`. -/
  firstCluster : Nat
  /-- `current_cluster`. -/
  currentCluster : Nat

/-- `memcpy(dst + dstAt, src + start, n)`. -/
def copyBytes (dst : Mem) (dstAt : Nat) (src : Mem) (start n : Nat) : Mem :=
  fun x => if dstAt ≤ x ∧ x < dstAt + n then src (start + (x - dstAt)) else dst x

/-- `ata_read_sector(drive, lba, buf + dstAt)`. -/
def ataReadSector (d : Disk) (lba : Nat) (buf : Mem) (dstAt : Nat) : Bool × Disk × Mem :=
  let d' := { d with reads := d.reads + 1 }
  if d.succeeds d.reads then (true, d', copyBytes buf dstAt (d.sector lba) 0 512) else (false, d', buf)

/-- End-of-chain marks are from here on. -/
def endOfChain : Nat := 0x0FFFFFF8

namespace FatVolume

def clusterToSector (v : FatVolume) (cluster : Nat) : Nat :=
  if cluster < 2 then 0 else (v.dataStart + (cluster - 2) * v.sectorsPerCluster) % 2 ^ 32

/-- The loop of `read_cluster` over sectors `i`, `i + 1`, … (`n` of them). -/
def readSectors (sector : Nat) : Nat → Nat → Disk → Mem → Bool × Disk × Mem
  | _, 0, d, buf => (true, d, buf)
  | i, n + 1, d, buf =>
      match ataReadSector d ((sector + i) % 2 ^ 32) buf (i * 512) with
      | (true, d, buf) => readSectors sector (i + 1) n d buf
      | (false, d, buf) => (false, d, buf)

def readCluster (v : FatVolume) (d : Disk) (cluster : Nat) (buf : Mem) : Bool × Disk × Mem :=
  readSectors (v.clusterToSector cluster) 0 v.sectorsPerCluster d buf

def readFatEntry (v : FatVolume) (cluster : Nat) : Nat :=
  match v.fatType with
  | .fat32 => readLE v.fat (4 * cluster) 4 % 2 ^ 28
  | .fat16 => readLE v.fat (2 * cluster) 2
  | .fat12 => 0

end FatVolume

/-! ## `fat_read` -/

structure ReadState where
  file : FatFile
  disk : Disk
  /-- `total_bytes_read`. -/
  total : Nat
  /-- The caller's buffer. -/
  buffer : Mem
  /-- `cluster_buffer`. -/
  clusterBuffer : Mem

/-- Advance to the next cluster when the current one is used up; `false` leaves
the loop at the end of the chain. -/
def nextCluster (v : FatVolume) (used : Nat) (file : FatFile) : Bool × FatFile :=
  if used ≥ v.clusterSize then
    let next := v.readFatEntry file.currentCluster
    if next ≥ endOfChain then (false, file) else (true, { file with currentCluster := next })
  else (true, file)

/-- The loop body; the flag is `false` when it breaks, and `none` is the
division by a zero cluster size. No 32-bit sum wraps, since the position stays
at most the file size and the total at most the count. -/
def readStep (v : FatVolume) (count : Nat) (st : ReadState) : Option (Bool × ReadState) :=
  let bytesToRead := min (count - st.total) (st.file.size - st.file.position)
  match v.readCluster st.disk st.file.currentCluster st.clusterBuffer with
  | (false, disk, clusterBuffer) => some (false, { st with disk, clusterBuffer })
  | (true, disk, clusterBuffer) =>
      if v.clusterSize = 0 then none
      else
        let offset := st.file.position % v.clusterSize
        let n := min (v.clusterSize - offset) bytesToRead
        let buffer := copyBytes st.buffer st.total clusterBuffer offset n
        let moved := nextCluster v (offset + n)
          { st.file with position := st.file.position + n }
        some (moved.1, ⟨moved.2, disk, st.total + n, buffer, clusterBuffer⟩)

/-- The loop. An iteration that goes on has delivered a byte, so `count + 1`
iterations are enough. -/
def readLoop (v : FatVolume) (count : Nat) : Nat → ReadState → Option ReadState
  | 0, _ => none
  | fuel + 1, st =>
      if st.total < count ∧ st.file.position < st.file.size then do
        let (continues, st) ← readStep v count st
        if continues then readLoop v count fuel st else some st
      else some st

/-- `fat_read`: the state after the call, whose `total` is `*bytes_read`. It
always returns 1. `stack` is what `cluster_buffer` holds at entry. -/
def fatRead (v : FatVolume) (d : Disk) (file : FatFile) (buffer : Mem) (count : Nat) (stack : Mem) :
    Option ReadState :=
  readLoop v count (count + 1) ⟨file, d, 0, buffer, stack⟩

/-! ## `fat_seek` -/

/-- The position a seek goes to, in 32-bit unsigned arithmetic and clamped to
the file size; `none` is an invalid `whence`. The second bound check of the
source can never fire on an unsigned value. -/
def seekTarget (size position : Nat) (offset whence : Int) : Option Nat :=
  let clamp := fun (p : Int) => min (p % 2 ^ 32).toNat size
  if whence = 0 then some (clamp offset)
  else if whence = 1 then some (clamp (position + offset))
  else if whence = 2 then some (clamp (size + offset))
  else none

def fatSeek (file : FatFile) (offset whence : Int) : Int × FatFile :=
  match seekTarget file.size file.position offset whence with
  | some p => (1, { file with position := p })
  | none => (0, file)

/-! ## Contents -/

def clusterByte (v : FatVolume) (sector : Nat → Mem) (cluster i : Nat) : UInt8 :=
  sector ((v.clusterToSector cluster + i / 512) % 2 ^ 32) (i % 512)

/-- The cluster chain of a file: it starts at the first cluster, follows the FAT
and covers the file. -/
structure ClusterChain (v : FatVolume) (first size : Nat) where
  length : Nat
  cluster : Nat → Nat
  starts : cluster 0 = first
  valid : ∀ i, i < length → 2 ≤ cluster i
  follows : ∀ i, i + 1 < length →
    v.readFatEntry (cluster i) = cluster (i + 1) ∧ cluster (i + 1) < endOfChain
  covers : size ≤ length * v.clusterSize

def ClusterChain.byte {v : FatVolume} {first size : Nat} (c : ClusterChain v first size)
    (sector : Nat → Mem) (i : Nat) : UInt8 :=
  clusterByte v sector (c.cluster (i / v.clusterSize)) (i % v.clusterSize)

def ClusterChain.content {v : FatVolume} {first size : Nat} (c : ClusterChain v first size)
    (sector : Nat → Mem) : List UInt8 := (List.range size).map (c.byte sector)

end Kaviz.Fat
