import Kaviz.Fat.Sequential

/-! # Reads after seeks

`fat_seek` changes the position and leaves the current cluster where it was, so
a read delivers the right bytes only when the seek stayed in the cluster the
previous read ended in. `Tracked` says that about the calls alone, and it is
exactly what correct reads need, whatever the disk holds.
-/

namespace Kaviz.Fat

open Bytes

variable {v : FatVolume} {first size : Nat}

inductive FileOp
  | seek (offset whence : Int)
  | read (request : Request)

/-- Every `fat_read` of the run delivers the bytes of the file from its position on. -/
def Correct (c : ClusterChain v first size) : Disk → FatFile → List FileOp → Prop
  | _, _, [] => True
  | d, file, .seek offset whence :: ops => Correct c d (fatSeek file offset whence).2 ops
  | d, file, .read r :: ops =>
      ∃ st, fatRead v d file r.buffer r.count r.stack = some st ∧
        st.delivered = ((c.content d.sector).drop file.position).take r.count ∧
        Correct c st.disk st.file ops

/-- Every read that has bytes to deliver starts in the cluster where the last
such read ended; `index` counts the clusters of the chain. -/
def Tracked (v : FatVolume) (length size : Nat) : Nat → Nat → List FileOp → Prop
  | _, _, [] => True
  | position, index, .seek offset whence :: ops =>
      Tracked v length size ((seekTarget size position offset whence).getD position) index ops
  | position, index, .read r :: ops =>
      if 0 < r.count ∧ position < size then
        position / v.clusterSize = index ∧
          Tracked v length size (min (position + r.count) size)
            (min (min (position + r.count) size / v.clusterSize) (length - 1)) ops
      else Tracked v length size position index ops

instance Tracked.decidable (v : FatVolume) (length size : Nat) :
    (position index : Nat) → (ops : List FileOp) → Decidable (Tracked v length size position index ops)
  | _, _, [] => inferInstanceAs (Decidable True)
  | _, index, .seek _ _ :: ops => Tracked.decidable v length size _ index ops
  | position, index, .read r :: ops =>
      have := Tracked.decidable v length size (min (position + r.count) size)
        (min (min (position + r.count) size / v.clusterSize) (length - 1)) ops
      have := Tracked.decidable v length size position index ops
      inferInstanceAs (Decidable (if 0 < r.count ∧ position < size then _ ∧ _ else _))

/-- A FAT32 volume whose data area is addressed by 32-bit sector numbers. -/
structure FatVolume.WellFormed (v : FatVolume) : Prop where
  fat32 : v.fatType = .fat32
  geometry : Geometry v
  nonempty : 0 < v.sectorsPerCluster
  bound : v.dataStart + v.clusterCount * v.sectorsPerCluster ≤ 2 ^ 32

/-- Distinct clusters of the volume, with an end mark behind the last one. -/
structure ClusterChain.WellFormed (c : ClusterChain v first size) : Prop where
  bound : ∀ i, i < c.length → c.cluster i < v.clusterCount + 2
  distinct : ∀ i j, i < c.length → j < c.length → c.cluster i = c.cluster j → i = j
  ends : 0 < c.length → endOfChain ≤ v.readFatEntry (c.cluster (c.length - 1))

structure At (c : ClusterChain v first size) (file : FatFile) (position index : Nat) : Prop where
  size_eq : file.size = size
  position_eq : file.position = position
  le : position ≤ size
  index_lt : 0 < size → index < c.length
  cluster_eq : 0 < size → file.currentCluster = c.cluster index

/-! ## Calls on a handle -/

theorem seekTarget_le {size position p : Nat} {offset whence : Int}
    (h : seekTarget size position offset whence = some p) : p ≤ size := by
  unfold seekTarget at h
  split at h
  · cases h
    exact Nat.min_le_right _ _
  · split at h
    · cases h
      exact Nat.min_le_right _ _
    · split at h
      · cases h
        exact Nat.min_le_right _ _
      · cases h

theorem At.seek {c : ClusterChain v first size} {file : FatFile} {position index : Nat}
    (h : At c file position index) (offset whence : Int) :
    At c (fatSeek file offset whence).2
      ((seekTarget size position offset whence).getD position) index := by
  unfold fatSeek
  rw [h.size_eq, h.position_eq]
  cases hseek : seekTarget size position offset whence with
  | none => exact h
  | some p => exact ⟨rfl, rfl, seekTarget_le hseek, h.index_lt, h.cluster_eq⟩

/-- With nothing to deliver a call changes nothing. -/
theorem fatRead_idle {d : Disk} {file : FatFile} {r : Request}
    (h : ¬ (0 < r.count ∧ file.position < file.size)) :
    fatRead v d file r.buffer r.count r.stack = some ⟨file, d, 0, r.buffer, r.stack⟩ := by
  rw [fatRead, readLoop, if_neg h]

theorem At.inStep {c : ClusterChain v first size} {file : FatFile} {position index : Nat}
    (h : At c file position index) (hindex : position / v.clusterSize = index)
    (hp : position < size) : InStep c file := by
  have hlt := h.index_lt (by omega)
  have hcur := h.cluster_eq (by omega)
  refine ⟨h.size_eq, by rw [h.position_eq]; exact h.le, ?_, ?_⟩
  · intro _
    rw [h.position_eq, hindex, hcur]
  · intro _ _
    rw [h.position_eq, hindex, hcur, Nat.min_eq_left (by omega)]

/-- A read in the right cluster delivers the file and ends where it should. -/
theorem At.read {c : ClusterChain v first size} {file : FatFile} {position index : Nat} {d : Disk}
    (hgeo : Geometry v) (hc : c.WellFormed) (hok : ∀ k, d.succeeds k = true)
    (h : At c file position index) (hindex : position / v.clusterSize = index)
    (hp : position < size) (r : Request) :
    ∃ st, fatRead v d file r.buffer r.count r.stack = some st ∧
      st.delivered = ((c.content d.sector).drop position).take r.count ∧ SameDisk d st.disk ∧
      At c st.file (min (position + r.count) size)
        (min (min (position + r.count) size / v.clusterSize) (c.length - 1)) := by
  have hlt := h.index_lt (by omega)
  obtain ⟨st, hread, hdel⟩ := fatRead_spec hgeo hok (h.inStep hindex hp) r.buffer r.count r.stack
  have hend : st.file.position = min (position + r.count) size := by
    rw [hdel.position_eq]
    show file.position + min r.count (size - file.position) = _
    rw [h.position_eq]
    omega
  refine ⟨st, hread, ?_, hdel.disk, ⟨hdel.inStep.size_eq, hend, Nat.min_le_right _ _, ?_, ?_⟩⟩
  · rw [← h.position_eq]
    exact hdel.delivered_eq
  · intro _
    omega
  · intro _
    rw [hdel.inStep.stays (by omega) (hc.ends (by omega)), hend]

/-! ## Enough: tracked calls are read correctly -/

theorem correct_of_tracked {c : ClusterChain v first size} (hgeo : Geometry v) (hc : c.WellFormed)
    {ops : List FileOp} {d : Disk} {file : FatFile} {position index : Nat}
    (hok : ∀ k, d.succeeds k = true) (h : At c file position index)
    (htracked : Tracked v c.length size position index ops) : Correct c d file ops := by
  induction ops generalizing d file position index with
  | nil => trivial
  | cons op ops ih =>
      cases op with
      | seek offset whence => exact ih hok (h.seek offset whence) htracked
      | read r =>
          rw [Tracked] at htracked
          by_cases hactive : 0 < r.count ∧ position < size
          · rw [if_pos hactive] at htracked
            obtain ⟨st, hread, hbytes, hsame, hat⟩ := h.read hgeo hc hok htracked.1 hactive.2 r
            refine ⟨st, hread, by rw [h.position_eq]; exact hbytes, ih ?_ hat htracked.2⟩
            rw [hsame.succeeds]
            exact hok
          · rw [if_neg hactive] at htracked
            have hidle : ¬ (0 < r.count ∧ file.position < file.size) := by
              rw [h.position_eq, h.size_eq]
              exact hactive
            refine ⟨_, fatRead_idle hidle, ?_, ih hok h htracked⟩
            have hlen : (c.content d.sector).length = size := by simp [ClusterChain.content]
            have hnone : ((c.content d.sector).drop file.position).take r.count = [] := by
              rw [List.take_eq_nil_iff, List.drop_eq_nil_iff, hlen, h.position_eq]
              omega
            rw [hnone]
            rfl

/-! ## Needed: another cluster's bytes are delivered otherwise -/

theorem readStep_keeps {count : Nat} {st st' : ReadState} {more : Bool}
    (h : readStep v count st = some (more, st')) :
    st.total ≤ st'.total ∧ ∀ x, x < st.total → st'.buffer x = st.buffer x := by
  unfold readStep at h
  split at h
  · cases h
    exact ⟨Nat.le_refl _, fun _ _ => rfl⟩
  · split at h
    · cases h
    · cases h
      refine ⟨Nat.le_add_right _ _, fun x hx => ?_⟩
      show copyBytes _ _ _ _ _ x = _
      rw [copyBytes, if_neg (by omega)]

theorem readLoop_keeps {count fuel : Nat} {st st' : ReadState}
    (h : readLoop v count fuel st = some st') :
    st.total ≤ st'.total ∧ ∀ x, x < st.total → st'.buffer x = st.buffer x := by
  induction fuel generalizing st with
  | zero => cases h
  | succ fuel ih =>
      rw [readLoop] at h
      split at h
      · obtain ⟨⟨more, st₁⟩, hstep, hrest⟩ := Option.bind_eq_some_iff.mp h
        have hkeep := readStep_keeps hstep
        cases more with
        | false =>
            cases hrest
            exact hkeep
        | true =>
            have hlater := ih hrest
            exact ⟨Nat.le_trans hkeep.1 hlater.1, fun x hx => by
              rw [hlater.2 x (by omega), hkeep.2 x hx]⟩
      · cases h
        exact ⟨Nat.le_refl _, fun _ _ => rfl⟩

/-- The first byte comes from the current cluster, right or wrong. -/
theorem fatRead_first {d : Disk} {file : FatFile} {r : Request} {st : ReadState}
    (hgeo : Geometry v) (hok : ∀ k, d.succeeds k = true) (hcount : 0 < r.count)
    (hp : file.position < file.size) (h : fatRead v d file r.buffer r.count r.stack = some st) :
    0 < st.total ∧
      st.buffer 0 = clusterByte v d.sector file.currentCluster (file.position % v.clusterSize) := by
  obtain ⟨d', buf, hcluster, -, hbytes⟩ :=
    readCluster_spec (v := v) hok file.currentCluster r.stack
  rw [fatRead, readLoop, if_pos ⟨hcount, hp⟩] at h
  obtain ⟨⟨more, st₁⟩, hstep, hrest⟩ := Option.bind_eq_some_iff.mp h
  simp only [readStep, hcluster] at hstep
  by_cases hcs : v.clusterSize = 0
  · rw [if_pos hcs] at hstep
    cases hstep
  · rw [if_neg hcs] at hstep
    have hoff : file.position % v.clusterSize < v.clusterSize := Nat.mod_lt _ (by omega)
    have hfirst : 0 < st₁.total ∧
        st₁.buffer 0 = clusterByte v d.sector file.currentCluster (file.position % v.clusterSize) := by
      cases hstep
      refine ⟨by dsimp only; omega, ?_⟩
      show copyBytes _ _ _ _ _ 0 = _
      rw [copyBytes, if_pos (by omega), hbytes _ (by rw [← hgeo.size_eq]; omega)]
      rfl
    cases more with
    | false =>
        cases hrest
        exact hfirst
    | true =>
        have hkeep := readLoop_keeps hrest
        exact ⟨by omega, by rw [hkeep.2 0 hfirst.1, hfirst.2]⟩

def markCluster (v : FatVolume) (cluster : Nat) : Nat → Mem := fun lba _ =>
  if v.clusterToSector cluster ≤ lba ∧ lba < v.clusterToSector cluster + v.sectorsPerCluster then 1
  else 0

theorem clusterToSector_eq (hv : v.WellFormed) {cluster : Nat} (hlo : 2 ≤ cluster)
    (hhi : cluster < v.clusterCount + 2) :
    v.clusterToSector cluster = v.dataStart + (cluster - 2) * v.sectorsPerCluster ∧
      v.clusterToSector cluster + v.sectorsPerCluster ≤ 2 ^ 32 := by
  have hbound := hv.bound
  have hpos := hv.nonempty
  have hmul : (cluster - 2) * v.sectorsPerCluster + v.sectorsPerCluster ≤
      v.clusterCount * v.sectorsPerCluster := by
    rw [← Nat.succ_mul]
    exact Nat.mul_le_mul_right _ (by omega)
  have heq : v.clusterToSector cluster = v.dataStart + (cluster - 2) * v.sectorsPerCluster := by
    rw [FatVolume.clusterToSector, if_neg (by omega), Nat.mod_eq_of_lt (by omega)]
  exact ⟨heq, by omega⟩

/-- Different clusters have disjoint sectors, so a marked drive tells them apart. -/
theorem clusterByte_markCluster (hv : v.WellFormed) {marked cluster i : Nat} (hlo : 2 ≤ marked)
    (hhi : marked < v.clusterCount + 2) (hlo' : 2 ≤ cluster) (hhi' : cluster < v.clusterCount + 2)
    (hi : i < v.clusterSize) :
    clusterByte v (markCluster v marked) cluster i = if cluster = marked then 1 else 0 := by
  obtain ⟨heq, hend⟩ := clusterToSector_eq hv hlo hhi
  obtain ⟨heq', hend'⟩ := clusterToSector_eq hv hlo' hhi'
  have hsec : i / 512 < v.sectorsPerCluster := by
    rw [hv.geometry.size_eq] at hi
    omega
  have hlba : (v.clusterToSector cluster + i / 512) % 2 ^ 32 = v.clusterToSector cluster + i / 512 :=
    Nat.mod_eq_of_lt (by omega)
  rw [clusterByte, hlba, markCluster]
  by_cases hsame : cluster = marked
  · rw [if_pos hsame, if_pos (by rw [hsame]; omega)]
  · rw [if_neg hsame, if_neg]
    intro hin
    have hspc := hv.nonempty
    rcases Nat.lt_or_gt_of_ne hsame with hlt | hlt
    · have hmul : (cluster - 2) * v.sectorsPerCluster + v.sectorsPerCluster ≤
          (marked - 2) * v.sectorsPerCluster := by
        rw [← Nat.succ_mul]
        exact Nat.mul_le_mul_right _ (by omega)
      omega
    · have hmul : (marked - 2) * v.sectorsPerCluster + v.sectorsPerCluster ≤
          (cluster - 2) * v.sectorsPerCluster := by
        rw [← Nat.succ_mul]
        exact Nat.mul_le_mul_right _ (by omega)
      omega

theorem incorrect_of_not_tracked {c : ClusterChain v first size} (hv : v.WellFormed)
    (hc : c.WellFormed) {ops : List FileOp} {position index : Nat}
    (hnot : ¬ Tracked v c.length size position index ops) :
    ∃ sector, ∀ d file, d.sector = sector → (∀ k, d.succeeds k = true) →
      At c file position index → ¬ Correct c d file ops := by
  induction ops generalizing position index with
  | nil => exact absurd trivial hnot
  | cons op ops ih =>
      cases op with
      | seek offset whence =>
          obtain ⟨sector, hbad⟩ := ih hnot
          exact ⟨sector, fun d file hd hok h => hbad d _ hd hok (h.seek offset whence)⟩
      | read r =>
          rw [Tracked] at hnot
          by_cases hactive : 0 < r.count ∧ position < size
          · rw [if_pos hactive] at hnot
            by_cases hindex : position / v.clusterSize = index
            · -- This read is right, so a later one is wrong.
              obtain ⟨sector, hbad⟩ := ih fun ht => hnot ⟨hindex, ht⟩
              refine ⟨sector, fun d file hd hok h hcorrect => ?_⟩
              obtain ⟨st, hread, -, hsame, hat⟩ := h.read hv.geometry hc hok hindex hactive.2 r
              obtain ⟨st', hread', -, hrest⟩ := hcorrect
              cases hread.symm.trans hread'
              refine hbad st.disk st.file (hsame.sector.trans hd) ?_ hat hrest
              rw [hsame.succeeds]
              exact hok
            · -- This read starts in the wrong cluster: mark that cluster.
              refine ⟨markCluster v (c.cluster index), fun d file hd hok h hcorrect => ?_⟩
              obtain ⟨st, hread, hbytes, -⟩ := hcorrect
              have hp : file.position < file.size := by
                rw [h.position_eq, h.size_eq]
                exact hactive.2
              obtain ⟨htotal, hfirst⟩ := fatRead_first hv.geometry hok hactive.1 hp hread
              have hindexlt := h.index_lt (by omega)
              have hcs : 0 < v.clusterSize := by
                rw [hv.geometry.size_eq]
                have := hv.nonempty
                omega
              have hright : position / v.clusterSize < c.length :=
                Nat.div_lt_of_lt_mul (by
                  rw [Nat.mul_comm]
                  exact Nat.lt_of_lt_of_le hactive.2 c.covers)
              have hoff := Nat.mod_lt position hcs
              have hone : st.buffer 0 = 1 := by
                rw [hfirst, hd, h.cluster_eq (by omega), h.position_eq, clusterByte_markCluster hv
                  (c.valid _ hindexlt) (hc.bound _ hindexlt) (c.valid _ hindexlt)
                  (hc.bound _ hindexlt) hoff, if_pos rfl]
              have hzero : c.byte d.sector position = 0 := by
                rw [ClusterChain.byte, hd, clusterByte_markCluster hv (c.valid _ hindexlt)
                  (hc.bound _ hindexlt) (c.valid _ hright) (hc.bound _ hright) hoff, if_neg]
                exact fun heq => hindex (hc.distinct _ _ hright hindexlt heq)
              rw [h.position_eq, ← content_piece, ReadState.delivered] at hbytes
              have hhead := congrArg List.head? hbytes
              have hamount : 0 < min r.count (size - position) := by omega
              obtain ⟨t, ht⟩ : ∃ t, st.total = t + 1 := ⟨st.total - 1, by omega⟩
              obtain ⟨k, hk⟩ : ∃ k, min r.count (size - position) = k + 1 :=
                ⟨min r.count (size - position) - 1, by omega⟩
              rw [ht, hk] at hhead
              simp [List.range_succ_eq_map, hone, hzero] at hhead
          · rw [if_neg hactive] at hnot
            obtain ⟨sector, hbad⟩ := ih hnot
            refine ⟨sector, fun d file hd hok h hcorrect => ?_⟩
            have hidle : ¬ (0 < r.count ∧ file.position < file.size) := by
              rw [h.position_eq, h.size_eq]
              exact hactive
            obtain ⟨st, hread, -, hrest⟩ := hcorrect
            cases (fatRead_idle hidle).symm.trans hread
            exact hbad d file hd hok h hrest

/-- Reads are right for every disk contents exactly when no read starts in
another cluster than the one the handle was left in. -/
theorem reads_correct_iff_tracked (v : FatVolume) (hv : v.WellFormed) (file : FatFile)
    (c : ClusterChain v file.firstCluster file.size) (hc : c.WellFormed)
    (hposition : file.position = 0) (hcluster : file.currentCluster = file.firstCluster)
    (ops : List FileOp) :
    (∀ d : Disk, (∀ k, d.succeeds k = true) → Correct c d file ops) ↔
      Tracked v c.length file.size 0 0 ops := by
  have hstart : At c file 0 0 := by
    refine ⟨rfl, hposition, Nat.zero_le _, ?_, ?_⟩
    · intro hsize
      have hcov := c.covers
      by_contra hzero
      have hlen : c.length = 0 := by omega
      rw [hlen, Nat.zero_mul] at hcov
      omega
    · intro _
      rw [hcluster, c.starts]
  constructor
  · intro hcorrect
    by_contra hnot
    obtain ⟨sector, hbad⟩ := incorrect_of_not_tracked hv hc hnot
    exact hbad ⟨sector, fun _ => true, 0⟩ file rfl (fun _ => rfl) hstart
      (hcorrect _ (fun _ => rfl))
  · intro htracked d hok
    exact correct_of_tracked hv.geometry hc hok hstart htracked

/-! ## A file of two clusters -/

def twoClusterVolume : FatVolume where
  fatType := .fat32
  sectorsPerCluster := 1
  dataStart := 100
  clusterCount := 70000
  clusterSize := 512
  fat := fun i => if i = 8 then 3 else if i < 12 then 0 else 0xFF

def twoClusterFile : FatFile := ⟨0, 1024, 2, 2⟩

theorem twoClusters_starts : 2 + 0 = 2 := Nat.add_zero 2

theorem twoClusters_valid (i : Nat) (_ : i < 2) : 2 ≤ 2 + i := Nat.le_add_right 2 i

theorem twoClusters_follow (i : Nat) (hi : i + 1 < 2) :
    twoClusterVolume.readFatEntry (2 + i) = 2 + (i + 1) ∧ 2 + (i + 1) < endOfChain := by
  have hzero : i = 0 := by omega
  subst hzero
  decide

theorem twoClusters_cover : 1024 ≤ 2 * twoClusterVolume.clusterSize := by decide

def twoClusterChain : ClusterChain twoClusterVolume 2 1024 where
  length := 2
  cluster i := 2 + i
  starts := twoClusters_starts
  valid := twoClusters_valid
  follows := twoClusters_follow
  covers := twoClusters_cover

theorem twoClusterVolume_wellFormed : twoClusterVolume.WellFormed :=
  ⟨rfl, ⟨rfl, by decide⟩, by decide, by decide⟩

theorem twoClusterChain_wellFormed : twoClusterChain.WellFormed where
  bound i hi := by
    have hlt : i < 2 := hi
    show 2 + i < 70000 + 2
    omega
  distinct i j _ _ heq := by
    have hsum : 2 + i = 2 + j := heq
    omega
  ends _ := by decide

/-- Seeking to the second cluster and reading one byte delivers the first cluster. -/
theorem read_after_seek_wrong :
    twoClusterVolume.WellFormed ∧ twoClusterChain.WellFormed ∧
      ¬ Correct twoClusterChain ⟨fun s _ => UInt8.ofNat s, fun _ => true, 0⟩ twoClusterFile
        [.seek 512 0, .read ⟨1, fun _ => 0, fun _ => 0⟩] := by
  refine ⟨twoClusterVolume_wellFormed, twoClusterChain_wellFormed, ?_⟩
  rintro ⟨st, hread, hbytes, -⟩
  have hdelivered : (fatRead twoClusterVolume ⟨fun s _ => UInt8.ofNat s, fun _ => true, 0⟩
      (fatSeek twoClusterFile 512 0).2 (fun _ => 0) 1 (fun _ => 0)).map ReadState.delivered =
      some [100] := by
    decide
  rw [hread, Option.map_some, hbytes, ← content_piece] at hdelivered
  revert hdelivered
  decide

/-- Seeking inside the first cluster is harmless. -/
theorem reads_correct_inside_cluster :
    Correct twoClusterChain ⟨fun s _ => UInt8.ofNat s, fun _ => true, 0⟩ twoClusterFile
      [.seek 10 0, .read ⟨20, fun _ => 0, fun _ => 0⟩] :=
  (reads_correct_iff_tracked twoClusterVolume twoClusterVolume_wellFormed twoClusterFile
    twoClusterChain twoClusterChain_wellFormed rfl rfl _).mpr (by decide) _ (fun _ => rfl)

/-! ## Clamping -/

/-- What `fat_seek` adds the offset to. -/
def seekBase (file : FatFile) (whence : Int) : Int :=
  if whence = 0 then 0 else if whence = 1 then file.position else file.size

/-- For a valid `whence` the sum is taken modulo `2 ^ 32` and bounded by the size. -/
theorem fatSeek_eq {file : FatFile} {whence : Int} (hwhence : whence = 0 ∨ whence = 1 ∨ whence = 2)
    (offset : Int) :
    fatSeek file offset whence = (1, { file with
      position := min ((seekBase file whence + offset) % 2 ^ 32).toNat file.size }) := by
  unfold fatSeek seekTarget seekBase
  rcases hwhence with rfl | rfl | rfl
  · rw [if_pos rfl, if_pos rfl, Int.zero_add]
  · rw [if_neg (by decide), if_pos rfl, if_neg (by decide), if_pos rfl]
  · rw [if_neg (by decide), if_neg (by decide), if_pos rfl, if_neg (by decide), if_neg (by decide)]

/-- Clamping the sum modulo `2 ^ 32` is clamping the sum when it does not wrap; a sum
that does ends up at the wrong end of the file, or inside it. -/
theorem clamp_wrapped_iff {size : Nat} {sum : Int} (hsize : size < 2 ^ 32) (hlo : -2 ^ 31 ≤ sum)
    (hhi : sum < size + 2 ^ 31) :
    min (sum % 2 ^ 32).toNat size = (max 0 (min (size : Int) sum)).toNat ↔
      size = 0 ∨ (0 ≤ sum ∧ sum < 2 ^ 32) := by
  by_cases hneg : sum < 0
  · have hwrapped : sum % 2 ^ 32 = sum + 2 ^ 32 := by omega
    rw [hwrapped]
    omega
  · by_cases hbig : sum < 2 ^ 32
    · have hsum : sum % 2 ^ 32 = sum := by omega
      rw [hsum]
      omega
    · have hwrapped : sum % 2 ^ 32 = sum - 2 ^ 32 := by omega
      rw [hwrapped]
      omega

/-- A seek goes to the sum, clamped to the file, exactly when the file is empty or the sum
fits 32 bits. -/
theorem fat_seek_clamps_iff (file : FatFile) (hposition : file.position ≤ file.size)
    (hsize : file.size < 2 ^ 32) (offset whence : Int) (hlo : -2 ^ 31 ≤ offset)
    (hhi : offset < 2 ^ 31) (hwhence : whence = 0 ∨ whence = 1 ∨ whence = 2) :
    fatSeek file offset whence = (1, { file with
        position := (max 0 (min (file.size : Int) (seekBase file whence + offset))).toNat }) ↔
      file.size = 0 ∨ (0 ≤ seekBase file whence + offset ∧ seekBase file whence + offset < 2 ^ 32) := by
  have hbase : 0 ≤ seekBase file whence ∧ seekBase file whence ≤ file.size := by
    unfold seekBase
    split_ifs <;> omega
  rw [fatSeek_eq hwhence, ← clamp_wrapped_iff hsize (by omega) (by omega)]
  constructor
  · intro h
    exact congrArg (fun r => r.2.position) h
  · intro h
    rw [h]

/-- One byte back from the start of a file of ten bytes leads to its end. -/
theorem fat_seek_wraps :
    fatSeek ⟨0, 10, 2, 2⟩ (-1) 1 ≠ (1, ⟨(max 0 (min ((10 : Nat) : Int) (seekBase ⟨0, 10, 2, 2⟩ 1 + -1))).toNat,
      10, 2, 2⟩) := by
  intro h
  have hposition := congrArg (fun r => r.2.position) h
  revert hposition
  decide

theorem fat_seek_clamps_back : fatSeek ⟨10, 10, 2, 2⟩ (-1) 1 =
    (1, ⟨(max 0 (min ((10 : Nat) : Int) (seekBase ⟨10, 10, 2, 2⟩ 1 + -1))).toNat, 10, 2, 2⟩) :=
  (fat_seek_clamps_iff ⟨10, 10, 2, 2⟩ (by decide) (by decide) (-1) 1 (by decide) (by decide)
    (Or.inr (Or.inl rfl))).mpr (Or.inr (by decide))

end Kaviz.Fat
