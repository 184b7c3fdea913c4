import Kaviz.Fat.Seek

/-! # Opening a file

`lookup_file_in_dir`, `fat_open` and `fat_tell` of `kernel/fs/fat.c`. `fat_open`
fills in every field that later calls consult except `position`, so the calls
after it depend on what the structure held before it, unless that was zero.
-/

namespace Kaviz.Fat

open Bytes

/-! ## Directories -/

def dot : UInt8 := 0x2E

def upper (c : UInt8) : UInt8 := if 0x61 ≤ c ∧ c ≤ 0x7A then c - 32 else c

def padTo (n : Nat) (cs : List UInt8) : List UInt8 := cs ++ List.replicate (n - cs.length) 0x20

/-- The 8.3 name `lookup_file_in_dir` compares with; a file name is its
characters before the terminating zero. -/
def fatName (filename : List UInt8) : List UInt8 :=
  let name := (filename.takeWhile (· != dot)).take 8
  let ext := ((filename.dropWhile (· != dot)).drop 1).take 3
  (padTo 8 name ++ padTo 3 ext).map upper

/-- The fields of `struct fat_dirent` that the search and `fat_open` use. -/
structure DirEntry where
  /-- The eleven characters of the 8.3 name. -/
  name : List UInt8
  attr : Nat
  firstCluster : Nat
  fileSize : Nat

def DirEntry.ofBytes (buf : Mem) (a : Nat) : DirEntry where
  name := (List.range 11).map fun k => buf (a + k)
  attr := readLE buf (a + 11) 1
  firstCluster := readLE buf (a + 20) 2 * 2 ^ 16 + readLE buf (a + 26) 2
  fileSize := readLE buf (a + 28) 4

inductive Scan
  | found (entry : DirEntry)
  | ended
  | more

/-- The loop over entries `i`, `i + 1`, … of a cluster (`n` left). -/
def scanEntries (buf : Mem) (name : List UInt8) : Nat → Nat → Scan
  | _, 0 => .more
  | i, n + 1 =>
      if buf (32 * i) = 0 then .ended
      else if buf (32 * i) = 0xE5 then scanEntries buf name (i + 1) n
      else if (List.range 11).map (fun k => buf (32 * i + k)) = name then .found (.ofBytes buf (32 * i))
      else scanEntries buf name (i + 1) n

/-- The loop of `lookup_file_in_dir` over the clusters of the directory. A FAT
that leads back into the directory makes it go on for ever: `none` is a run that
did not end within `fuel` clusters. -/
def lookupLoop (v : FatVolume) (name : List UInt8) :
    Nat → Nat → Disk → Mem → Option (Option DirEntry × Disk)
  | 0, _, _, _ => none
  | fuel + 1, cluster, d, buf =>
      if cluster < (v.clusterCount + 2) % 2 ^ 32 then
        match v.readCluster d cluster buf with
        | (false, d, _) => some (none, d)
        | (true, d, buf) =>
            match scanEntries buf name 0 (v.clusterSize / 32) with
            | .found entry => some (some entry, d)
            | .ended => some (none, d)
            | .more =>
                let next := v.readFatEntry cluster
                if next ≥ endOfChain then some (none, d) else lookupLoop v name fuel next d buf
      else some (none, d)

/-- `lookup_file_in_dir`; `stack` is what its cluster buffer holds at entry. -/
def lookupFileInDir (v : FatVolume) (fuel dirCluster : Nat) (filename : List UInt8) (d : Disk)
    (stack : Mem) : Option (Option DirEntry × Disk) :=
  lookupLoop v (fatName filename) fuel dirCluster d stack

/-! ## `fat_open` and `fat_tell` -/

/-- `struct vfs_file` and the `struct fat_file` behind its `private_data`. -/
structure FileHandle extends FatFile where
  path : List UInt8
  flags : Nat
  attributes : Nat
  clusterOffset : Nat

def vfsMaxPath : Nat := 256

def FileHandle.setUp (h : FileHandle) (path : List UInt8) (flags : Nat) (e : DirEntry) : FileHandle :=
  { h with
    path := path, flags := flags, size := e.fileSize, attributes := e.attr
    firstCluster := e.firstCluster, currentCluster := e.firstCluster, clusterOffset := 0 }

/-- `fat_open`. `none` is a directory search that does not end, or a path that
does not fit the array it is copied into. -/
def fatOpen (v : FatVolume) (rootCluster fuel : Nat) (h : FileHandle) (path : List UInt8)
    (flags : Nat) (d : Disk) (stack : Mem) : Option (Nat × Disk × FileHandle) := do
  let root := if v.fatType = .fat32 then rootCluster else 0
  match ← lookupFileInDir v fuel root path d stack with
  | (none, d) => return (0, d, h)
  | (some entry, d) =>
      if path.length < vfsMaxPath then return (1, d, h.setUp path flags entry)
      else none

/-- `fat_tell`: the value of `*position`. It always returns 1. -/
def fatTell (file : FatFile) : Nat := file.position

/-! ## Calls on the open file -/

inductive HandleOp
  | read (request : Request)
  | seek (offset whence : Int)
  | tell

inductive Answer
  | read (bytesRead : Nat) (buffer : Mem)
  | seek (ret : Int)
  | tell (position : Nat)
  /-- Division by a zero cluster size. -/
  | fault

def answers (v : FatVolume) : Disk → FatFile → List HandleOp → List Answer
  | _, _, [] => []
  | d, file, .read r :: ops =>
      match fatRead v d file r.buffer r.count r.stack with
      | none => [.fault]
      | some st => .read st.total st.buffer :: answers v st.disk st.file ops
  | d, file, .seek offset whence :: ops =>
      .seek (fatSeek file offset whence).1 :: answers v d (fatSeek file offset whence).2 ops
  | d, file, .tell :: ops => .tell (fatTell file) :: answers v d file ops

/-- A `fat_read` issued now starts at the first byte of the file's first cluster. -/
structure StartsAtZero (file : FatFile) : Prop where
  position_eq : file.position = 0
  cluster_eq : file.currentCluster = file.firstCluster

/-- Such a read delivers the beginning of the file. -/
theorem StartsAtZero.delivered {v : FatVolume} {d : Disk} {file : FatFile} (h : StartsAtZero file)
    (hgeo : Geometry v) (hok : ∀ k, d.succeeds k = true)
    (c : ClusterChain v file.firstCluster file.size) (r : Request) :
    ∃ st, fatRead v d file r.buffer r.count r.stack = some st ∧
      st.delivered = (c.content d.sector).take r.count := by
  have hstep := InStep.opened c h.position_eq h.cluster_eq
  obtain ⟨st, hread, hdel⟩ := fatRead_spec hgeo hok hstep r.buffer r.count r.stack
  refine ⟨st, hread, ?_⟩
  rw [hdel.delivered_eq, h.position_eq, List.drop_zero]

section

variable {v : FatVolume} {rootCluster fuel flags : Nat} {path : List UInt8} {d d' : Disk}
  {stack : Mem} {a a' : FileHandle}

/-- A successful `fat_open` found an entry and put its data into the handle. -/
theorem fatOpen_success (h : fatOpen v rootCluster fuel a path flags d stack = some (1, d', a')) :
    ∃ e, lookupFileInDir v fuel (if v.fatType = .fat32 then rootCluster else 0) path d stack =
        some (some e, d') ∧ a' = a.setUp path flags e ∧
      ∀ b, fatOpen v rootCluster fuel b path flags d stack = some (1, d', b.setUp path flags e) := by
  obtain ⟨⟨entry, d₁⟩, hlookup, h⟩ := Option.bind_eq_some_iff.mp h
  cases entry with
  | none => cases h
  | some e =>
      dsimp only at h
      by_cases hfits : path.length < vfsMaxPath
      · rw [if_pos hfits] at h
        cases h
        refine ⟨e, hlookup, rfl, ?_⟩
        intro b
        apply Option.bind_eq_some_iff.mpr
        exact ⟨_, hlookup, if_pos hfits⟩
      · rw [if_neg hfits] at h
        cases h

/-- Two handles opened alike behave alike from the start of the file exactly when
both were at position zero before. -/
theorem fat_open_resets_iff (b : FileHandle)
    (h : fatOpen v rootCluster fuel a path flags d stack = some (1, d', a')) :
    ∃ b', fatOpen v rootCluster fuel b path flags d stack = some (1, d', b') ∧
      (((∀ ops, answers v d' a'.toFatFile ops = answers v d' b'.toFatFile ops) ∧
          StartsAtZero a'.toFatFile ∧ StartsAtZero b'.toFatFile) ↔
        a.position = 0 ∧ b.position = 0) := by
  obtain ⟨e, -, rfl, hopen⟩ := fatOpen_success h
  refine ⟨b.setUp path flags e, hopen b, ?_⟩
  constructor
  · intro ⟨_, ha, hb⟩
    exact ⟨ha.position_eq, hb.position_eq⟩
  · intro ⟨ha, hb⟩
    -- The position is the only field that is left over.
    have hsame : (a.setUp path flags e).toFatFile = (b.setUp path flags e).toFatFile := by
      show FatFile.mk a.position _ _ _ = FatFile.mk b.position _ _ _
      rw [ha, hb]
    refine ⟨?_, ⟨ha, rfl⟩, ⟨hb, rfl⟩⟩
    intro ops
    rw [hsame]

end

def rootVolume : FatVolume := ⟨.fat32, 1, 1, 70000, 512, fun _ => 0xFF⟩

def rootDrive : Disk where
  sector lba i :=
    if lba = 1 then
      if i = 0 then 0x41 else if i < 11 then 0x20 else if i = 26 then 3 else if i = 28 then 10 else 0
    else 0x55
  succeeds _ := true
  reads := 0

def handleAt (position : Nat) : FileHandle := ⟨⟨position, 0, 0, 0⟩, [], 0, 0, 0⟩

theorem fat_open_resets_zeroed :
    ∃ d' a', fatOpen rootVolume 2 1 (handleAt 0) [0x61] 1 rootDrive (fun _ => 0) = some (1, d', a') ∧
      ∃ b', fatOpen rootVolume 2 1 ⟨⟨0, 7, 7, 7⟩, [], 7, 7, 7⟩ [0x61] 1 rootDrive (fun _ => 0) =
          some (1, d', b') ∧
        (∀ ops, answers rootVolume d' a'.toFatFile ops = answers rootVolume d' b'.toFatFile ops) ∧
        StartsAtZero a'.toFatFile ∧ StartsAtZero b'.toFatFile := by
  obtain ⟨d', a', h⟩ : ∃ d' a', fatOpen rootVolume 2 1 (handleAt 0) [0x61] 1 rootDrive (fun _ => 0) =
      some (1, d', a') := ⟨_, _, rfl⟩
  obtain ⟨b', hb, hiff⟩ := fat_open_resets_iff ⟨⟨0, 7, 7, 7⟩, [], 7, 7, 7⟩ h
  exact ⟨d', a', h, b', hb, hiff.mpr ⟨rfl, rfl⟩⟩

/-- A position left over in the structure survives `fat_open`: the first read of
four bytes then finds the end of the file. -/
theorem fat_open_keeps_position :
    ∃ d' a' b', fatOpen rootVolume 2 1 (handleAt 0) [0x61] 1 rootDrive (fun _ => 0) = some (1, d', a') ∧
      fatOpen rootVolume 2 1 (handleAt 12) [0x61] 1 rootDrive (fun _ => 0) = some (1, d', b') ∧
      answers rootVolume d' a'.toFatFile [.read ⟨4, fun _ => 0, fun _ => 0⟩] ≠
        answers rootVolume d' b'.toFatFile [.read ⟨4, fun _ => 0, fun _ => 0⟩] ∧
      ¬ StartsAtZero b'.toFatFile := by
  refine ⟨_, _, _, rfl, rfl, ?_, ?_⟩
  · intro h
    injection h with h _
    injection h with htotal _
    exact absurd htotal (by decide)
  · intro h
    cases h.position_eq

end Kaviz.Fat
