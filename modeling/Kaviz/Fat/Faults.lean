import Kaviz.Fat.Image

/-! # A drive that fails

Any sector read may fail. A mount then returns 0 or has the whole FAT, a search
answers with the file the image holds or with none, and a read stops in front of
the cluster it could not get, so that the next one goes on there. What is
delivered is never wrong, only late.
-/

namespace Kaviz.Fat

open Bytes

/-! ## Reads -/

section

variable {v : FatVolume} {first size : Nat} {c : ClusterChain v first size} {count : Nat}
  {st : ReadState}

def Disk.repaired (d : Disk) : Disk := { d with succeeds := fun _ => true }

theorem readCluster_repaired (v : FatVolume) (d : Disk) (cluster : Nat) (buf : Mem) :
    (∃ buf', v.readCluster d cluster buf = (true, d.behind v.sectorsPerCluster, buf') ∧
      v.readCluster d.repaired cluster buf =
        (true, d.repaired.behind v.sectorsPerCluster, buf')) ∨
      ∃ d' buf', v.readCluster d cluster buf = (false, d', buf') := by
  rcases readSectors_cases d (v.clusterToSector cluster) 0 v.sectorsPerCluster buf with
    ⟨-, hrun⟩ | ⟨k, -, -, hrun⟩
  · rcases readSectors_cases d.repaired (v.clusterToSector cluster) 0 v.sectorsPerCluster buf with
      ⟨-, hrepaired⟩ | ⟨k, -, hfail, -⟩
    · exact .inl ⟨_, hrun, hrepaired⟩
    · cases hfail
  · exact .inr ⟨_, _, hrun⟩

theorem readStep_repaired {buf' : Mem} {more : Bool} {st' : ReadState}
    (hread : v.readCluster st.disk st.file.currentCluster st.clusterBuffer =
      (true, st.disk.behind v.sectorsPerCluster, buf'))
    (hrepaired : v.readCluster st.disk.repaired st.file.currentCluster st.clusterBuffer =
      (true, st.disk.repaired.behind v.sectorsPerCluster, buf'))
    (h : readStep v count { st with disk := st.disk.repaired } = some (more, st')) :
    readStep v count st = some (more, { st' with disk := st.disk.behind v.sectorsPerCluster }) := by
  simp only [readStep, hrepaired] at h
  simp only [readStep, hread]
  split at h
  · cases h
  · rename_i hcs
    cases h
    rw [if_neg hcs]

/-- One iteration delivers the next bytes of the file, or none and breaks. -/
theorem readStep_safe (hgeo : Geometry v) (h : InStep c st.file) (htotal : st.total < count)
    (hp : st.file.position < size) :
    ∃ more st' n, readStep v count st = some (more, st') ∧ (more = true → 0 < n) ∧
      st.total + n ≤ count ∧ Delivered c st st' n := by
  rcases readCluster_repaired v st.disk st.file.currentCluster st.clusterBuffer with
    ⟨buf', hread, hrepaired⟩ | ⟨d', buf', hread⟩
  · obtain ⟨more, st', n, hstep, hn, hcount, hdel, -⟩ := @readStep_spec _ _ _ hgeo c count
      { st with disk := st.disk.repaired } (fun _ => rfl) h htotal hp
    refine ⟨more, { st' with disk := st.disk.behind v.sectorsPerCluster }, n,
      readStep_repaired hread hrepaired hstep, fun _ => hn, hcount, ?_⟩
    exact ⟨hdel.total_eq, hdel.position_eq, hdel.inStep, ⟨rfl, rfl⟩, hdel.buffer_eq⟩
  · refine ⟨false, { st with disk := d', clusterBuffer := buf' }, 0, by simp [readStep, hread], nofun,
      Nat.le_of_lt htotal, rfl, rfl, h, readCluster_sameDisk hread, ?_⟩
    intro x
    rw [if_neg (by omega)]

theorem readLoop_safe (hgeo : Geometry v) {fuel : Nat} (h : InStep c st.file)
    (htotal : st.total ≤ count) (hfuel : count - st.total < fuel) :
    ∃ st' n, readLoop v count fuel st = some st' ∧ st.total + n ≤ count ∧ Delivered c st st' n := by
  induction fuel generalizing st with
  | zero => omega
  | succ fuel ih =>
      have hsize := h.size_eq
      by_cases hcond : st.total < count ∧ st.file.position < size
      · obtain ⟨more, st₁, n, hstep, hn, hcount, hdel⟩ := readStep_safe hgeo h hcond.1 hcond.2
        have htotal₁ := hdel.total_eq
        cases more with
        | false =>
            refine ⟨st₁, n, ?_, hcount, hdel⟩
            simp [readLoop, hsize, hcond, hstep]
        | true =>
            have hpos := hn rfl
            obtain ⟨st₂, k, hrun, hmore, hrest⟩ := ih hdel.inStep (by omega) (by omega)
            refine ⟨st₂, n + k, ?_, by omega, hdel.trans hrest⟩
            simp [readLoop, hsize, hcond, hstep, hrun]
      · refine ⟨st, 0, ?_, htotal, rfl, rfl, h, ⟨rfl, rfl⟩, ?_⟩
        · rw [← hsize] at hcond
          rw [readLoop, if_neg hcond]
        · intro x
          rw [if_neg (by omega)]

theorem fatRead_delivers (hgeo : Geometry v) {d : Disk} {file : FatFile} (h : InStep c file)
    (r : Request) :
    ∃ st, fatRead v d file r.buffer r.count r.stack = some st ∧ Reported r st ∧
      InStep c st.file ∧ SameDisk d st.disk ∧ st.file.position = file.position + st.total ∧
      st.delivered = ((c.content d.sector).drop file.position).take st.total := by
  obtain ⟨st, n, hread, hcount, hdel⟩ := @readLoop_safe _ _ _ c r.count
    ⟨file, d, 0, r.buffer, r.stack⟩ hgeo (r.count + 1) h (Nat.zero_le _) (Nat.lt_succ_self _)
  have htotal : st.total = n := by simpa using hdel.total_eq
  have hposition : st.file.position = file.position + n := hdel.position_eq
  have hle := hdel.inStep.le
  subst htotal
  refine ⟨st, hread, ⟨by simpa using hcount, ?_⟩, hdel.inStep, hdel.disk, hposition, ?_⟩
  · intro x hx
    have hbyte := hdel.buffer_eq x
    rw [if_neg (by simp only [Nat.zero_add]; omega)] at hbyte
    exact hbyte
  · have hshare : st.total = min st.total (size - file.position) := by omega
    rw [← content_piece, ← hshare, ReadState.delivered]
    apply List.map_congr_left
    intro x hx
    have hbyte := hdel.buffer_eq x
    rw [if_pos ⟨Nat.zero_le x, by simpa using hx⟩] at hbyte
    exact hbyte

/-- Successive calls deliver the file from the position on, without a gap. -/
theorem readAll_safe (hgeo : Geometry v) {d : Disk} {file : FatFile} (h : InStep c file)
    (rs : List Request) :
    ∃ outs, readAll v d file rs = some outs ∧ List.Forall₂ Reported rs outs ∧
      outs.flatMap ReadState.delivered =
        ((c.content d.sector).drop file.position).take (outs.map ReadState.total).sum := by
  induction rs generalizing d file with
  | nil => exact ⟨[], rfl, .nil, by simp⟩
  | cons r rs ih =>
      obtain ⟨st, hread, hreported, hstep, hsame, hposition, hbytes⟩ :=
        fatRead_delivers (d := d) hgeo h r
      obtain ⟨outs, hrun, hall, hrest⟩ := @ih st.disk st.file hstep
      refine ⟨st :: outs, by simp [readAll, hread, hrun], .cons hreported hall, ?_⟩
      rw [List.flatMap_cons, hbytes, hrest, hsame.sector, hposition, List.map_cons, List.sum_cons,
        List.take_add, List.drop_drop]

end

/-! ## Searches -/

section

variable {v : FatVolume} {image : Image} {cluster fuel : Nat} {cs : List Nat} {d d' : Disk}
  {name : List UInt8} {buf : Mem} {r : Option DirEntry}

theorem readCluster_image {d' : Disk} {buf' : Mem} (h : Serves v image) (hc : image.HasCluster cluster)
    (hsector : d.sector = image) (hread : v.readCluster d cluster buf = (true, d', buf')) :
    entriesFrom buf' 0 (v.clusterSize / 32) =
      entriesFrom (image.byte cluster) 0 (image.clusterSize / 32) := by
  rcases readCluster_repaired v d cluster buf with ⟨buf₁, hrun, hrepaired⟩ | ⟨_, _, hrun⟩
  · rw [hread] at hrun
    cases hrun
    obtain ⟨_, _, hrun, -, hbytes⟩ :=
      readCluster_spec (v := v) (d := d.repaired) (fun _ => rfl) cluster buf
    rw [hrepaired] at hrun
    cases hrun
    have hsize := h.geometry.size_eq
    rw [h.clusterSize] at hsize ⊢
    apply entriesFrom_congr
    intro x hx
    have hin : x < image.clusterSize := by omega
    have hdrive : d.repaired.sector = image := hsector
    rw [hbytes x (by omega), hdrive]
    exact h.byte cluster x hc hin
  · rw [hread] at hrun
    cases hrun

/-- What the search sees of a directory is a first part of it. -/
theorem Serves.dirEntries_prefix (h : Serves v image) (hchain : image.Chain cluster cs)
    (hsector : d.sector = image) : dirEntries v fuel cluster d buf <+: image.directory cs := by
  induction fuel generalizing cluster cs d buf with
  | zero => exact List.nil_prefix
  | succ fuel ih =>
      have hc := hchain.hasCluster
      rw [dirEntries]
      split
      · split
        · exact List.nil_prefix
        · rename_i d₁ buf₁ hread
          have hsame := readCluster_sameDisk hread
          rw [readCluster_image h hc hsector hread, h.entry cluster hc]
          cases hchain with
          | last _ hends =>
              rw [if_pos hends]
              simp [Image.directory]
          | @next _ rest _ tail =>
              have hsplit : image.directory (cluster :: rest) =
                  entriesFrom (image.byte cluster) 0 (image.clusterSize / 32) ++ image.directory rest := rfl
              rw [hsplit, List.prefix_append_right_inj]
              split
              · exact List.nil_prefix
              · exact ih tail (hsame.sector.trans hsector)
      · exact List.nil_prefix

/-- An entry that is found is the first match of the whole directory. -/
theorem Serves.lookup_found {e : DirEntry} (h : Serves v image) (hchain : image.Chain cluster cs)
    (hsector : d.sector = image) (hlookup : lookupLoop v name fuel cluster d buf = some (some e, d')) :
    firstMatch name (image.directory cs) = some e := by
  have hfirst := lookupLoop_eq hlookup
  obtain ⟨rest, hsplit⟩ := @Serves.dirEntries_prefix _ _ _ fuel _ _ buf h hchain hsector
  rw [← hsplit, firstMatch_append_decided (Or.inl (by simp [← hfirst])), ← hfirst]

theorem lookupTurn_next {next : Nat} {buf' : Mem}
    (h : lookupTurn v name cluster d buf = .next next d' buf') :
    next = v.readFatEntry cluster ∧ next < endOfChain := by
  unfold lookupTurn at h
  split at h
  · cases h
  · split at h
    · cases h
    · cases h
    · dsimp only at h
      split at h
      · cases h
      · rename_i hlast
        cases h
        exact ⟨rfl, Nat.lt_of_not_le hlast⟩

/-- The search ends on a chain that does. -/
theorem Serves.lookup_ends (h : Serves v image) (hchain : image.Chain cluster cs)
    (hfuel : cs.length ≤ fuel) : ∃ r, lookupLoop v name fuel cluster d buf = some r := by
  induction hchain generalizing fuel d buf with
  | @last cluster inside ends =>
      obtain ⟨fuel, rfl⟩ : ∃ n, fuel = n + 1 := ⟨fuel - 1, by simp at hfuel; omega⟩
      rw [lookupLoop_turn]
      cases hturn : lookupTurn v name cluster d buf with
      | answer r d => split <;> simp
      | next next d buf =>
          obtain ⟨hnext, hlt⟩ := lookupTurn_next hturn
          rw [hnext, h.entry cluster inside] at hlt
          exact absurd ends (Nat.not_le.mpr hlt)
  | @next cluster rest inside tail ih =>
      obtain ⟨fuel, rfl⟩ : ∃ n, fuel = n + 1 := ⟨fuel - 1, by simp at hfuel; omega⟩
      rw [lookupLoop_turn]
      split
      · cases hturn : lookupTurn v name cluster d buf with
        | answer r d => simp
        | next next d buf =>
            obtain ⟨rfl, -⟩ := lookupTurn_next hturn
            rw [h.entry cluster inside]
            exact ih (by simpa using hfuel)
      · simp

end

/-! ## The image behind a failing drive -/

/-- Whatever sector reads fail, an image that got mounted is never misread: a search ends, and
answers with the first match of the root directory or with none, and the reads of the file it
found deliver its beginning without a gap, as long as they report. -/
theorem image_files_never_wrong (image : Image) (hfat : image.Fat32) (dir : List Nat)
    (hroot : image.Chain image.boot.rootCluster dir) (kmalloc : Allocator) (s s' : MountState)
    (hsector : s.disk.sector = image) (hmount : fatMount kmalloc s = some (1, s'))
    (d : Disk) (hdrive : d.sector = image) (handle : FileHandle) (path : List UInt8)
    (flags fuel : Nat) (stack : Mem) (hposition : handle.position = 0) (hpath : path.length < vfsMaxPath)
    (hfuel : dir.length ≤ fuel) :
    ∃ r d' handle', fatOpen (s'.fs.volume s'.memory) s'.fs.rootCluster fuel handle path flags d stack =
        some (r, d', handle') ∧
      ((r = 0 ∧ handle' = handle) ∨
        (r = 1 ∧ ∃ e, firstMatch (fatName path) (image.directory dir) = some e ∧
          handle' = handle.setUp path flags e ∧
          ∀ cs, image.Holds e cs → ∀ rs, ∃ outs,
            readAll (s'.fs.volume s'.memory) d' handle'.toFatFile rs = some outs ∧
            outs.flatMap ReadState.delivered =
              (image.content e cs).take (outs.map ReadState.total).sum ∧
            List.Forall₂ Reported rs outs)) := by
  have hmounted := hfat.mounted hsector hmount
  have hserves := hmounted.serves hfat
  have htype : (s'.fs.volume s'.memory).fatType = .fat32 := hserves.fatType
  rw [← hmounted.rootCluster] at hroot
  obtain ⟨⟨found, d'⟩, hlookup⟩ := @Serves.lookup_ends _ _ _ fuel _ d (fatName path) stack hserves hroot hfuel
  have hsame := lookupLoop_sameDisk hlookup
  cases found with
  | none => exact ⟨0, d', handle, by simp [fatOpen, htype, lookupFileInDir, hlookup], .inl ⟨rfl, rfl⟩⟩
  | some e =>
      refine ⟨1, d', handle.setUp path flags e, by simp [fatOpen, htype, lookupFileInDir, hlookup, hpath],
        .inr ⟨rfl, e, hserves.lookup_found hroot hdrive hlookup, rfl, ?_⟩⟩
      intro cs hholds rs
      have hstep : InStep (hserves.clusterChain hfat.numbered hholds)
          (handle.setUp path flags e).toFatFile :=
        @InStep.opened _ (handle.setUp path flags e).toFatFile _ hposition rfl
      obtain ⟨outs, hrun, hreported, hbytes⟩ := readAll_safe (d := d') hserves.geometry hstep rs
      rw [hsame.sector, hdrive, hserves.content hfat.numbered hholds] at hbytes
      have hstart : (handle.setUp path flags e).toFatFile.position = 0 := hposition
      rw [hstart, List.drop_zero] at hbytes
      exact ⟨outs, hrun, hbytes, hreported⟩

/-- The third sector read after the mount fails. -/
theorem image_files_never_wrong_small : ∃ s' r d' handle,
    fatMount bumpAllocator ⟨(unmounted fun _ => true).2.fs, ⟨smallImage, fun _ => true, 0⟩,
      fun _ => 0, []⟩ = some (1, s') ∧
    fatOpen (s'.fs.volume s'.memory) s'.fs.rootCluster 1 (handleAt 0) [0x61] 1
      ⟨smallImage, fun k => k != 2, 0⟩ (fun _ => 0) = some (r, d', handle) ∧
    (handle.size = 0 ∨ ∃ e, firstMatch (fatName [0x61]) (smallImage.directory [2]) = some e ∧
      handle.size = e.fileSize) := by
  have hroot : smallImage.Chain smallImage.boot.rootCluster [2] := .last (by decide) (by decide)
  obtain ⟨s', hmount⟩ := smallImage_fat32.mount (s :=
    ⟨(unmounted fun _ => true).2.fs, ⟨smallImage, fun _ => true, 0⟩, fun _ => 0, []⟩) rfl
    (fun _ => rfl) (bumpAllocator_ne _)
  obtain ⟨r, d', handle, hopen, hanswer⟩ := image_files_never_wrong smallImage smallImage_fat32 [2] hroot
    bumpAllocator _ s' rfl hmount ⟨smallImage, fun k => k != 2, 0⟩ rfl (handleAt 0) [0x61] 1 1
    (fun _ => 0) rfl (by decide) (by decide)
  refine ⟨s', r, d', handle, hmount, hopen, ?_⟩
  rcases hanswer with ⟨-, rfl⟩ | ⟨-, e, hfirst, rfl, -⟩
  · exact .inl rfl
  · exact .inr ⟨e, hfirst, rfl⟩

end Kaviz.Fat
