import Kaviz.Fat.Reads

/-! # Sequential reads

Any number of `fat_read` calls on one handle, with requests of any sizes. The
bytes delivered, put together, are the beginning of the file, so they depend on
the sum of the requests only.
-/

namespace Kaviz.Fat

open Bytes

variable {v : FatVolume} {first size : Nat}

/-- One `fat_read` call of a caller: the count, its buffer, and what the stack
holds where `cluster_buffer` will be. -/
structure Request where
  count : Nat
  buffer : Mem
  stack : Mem

def readAll (v : FatVolume) : Disk → FatFile → List Request → Option (List ReadState)
  | _, _, [] => some []
  | d, file, r :: rs => do
      let st ← fatRead v d file r.buffer r.count r.stack
      let rest ← readAll v st.disk st.file rs
      return st :: rest

def ReadState.delivered (st : ReadState) : List UInt8 := (List.range st.total).map st.buffer

/-- How much each of several requests gets of what is left of a file. -/
def shares : Nat → List Nat → List Nat
  | _, [] => []
  | left, n :: ns => min n left :: shares (left - n) ns

/-- A call reports what it delivered: the buffer is unchanged beyond that. -/
def Reported (r : Request) (st : ReadState) : Prop :=
  st.total ≤ r.count ∧ ∀ x, st.total ≤ x → st.buffer x = r.buffer x

/-! ## Pieces of the file -/

theorem content_piece (c : ClusterChain v first size) (sector : Nat → Mem) (p n : Nat) :
    (List.range (min n (size - p))).map (fun j => c.byte sector (p + j)) =
      ((c.content sector).drop p).take n := by
  apply List.ext_getElem
  · simp [ClusterChain.content]
  · intro i _ _
    simp [ClusterChain.content]

theorem Delivered.delivered_eq {c : ClusterChain v first size} {d : Disk} {file : FatFile}
    {r : Request} {st : ReadState}
    (h : Delivered c ⟨file, d, 0, r.buffer, r.stack⟩ st (min r.count (size - file.position))) :
    st.delivered = ((c.content d.sector).drop file.position).take r.count := by
  have htotal : st.total = min r.count (size - file.position) := by
    rw [h.total_eq]
    exact Nat.zero_add _
  rw [ReadState.delivered, htotal, ← content_piece]
  apply List.map_congr_left
  intro x hx
  have hlt := List.mem_range.mp hx
  rw [h.buffer_eq x, if_pos ⟨Nat.zero_le x, by simpa using hlt⟩]
  rfl

/-- What is left of the file after a call is the rest behind the request. -/
theorem content_drop (c : ClusterChain v first size) (sector : Nat → Mem) (p n : Nat) :
    (c.content sector).drop (p + min n (size - p)) = ((c.content sector).drop p).drop n := by
  rw [List.drop_drop]
  by_cases hn : n ≤ size - p
  · rw [Nat.min_eq_left hn]
  · have hlen : (c.content sector).length = size := by simp [ClusterChain.content]
    rw [List.drop_eq_nil_of_le (by omega), List.drop_eq_nil_of_le (by omega)]

/-! ## All calls -/

theorem readAll_spec (hgeo : Geometry v) {c : ClusterChain v first size} {d : Disk} {file : FatFile}
    (hok : ∀ k, d.succeeds k = true) (h : InStep c file) (rs : List Request) :
    ∃ outs, readAll v d file rs = some outs ∧
      outs.flatMap ReadState.delivered =
        ((c.content d.sector).drop file.position).take (rs.map Request.count).sum ∧
      outs.map ReadState.total = shares (size - file.position) (rs.map Request.count) ∧
      List.Forall₂ Reported rs outs := by
  induction rs generalizing d file with
  | nil => exact ⟨[], rfl, by simp, rfl, .nil⟩
  | cons r rs ih =>
      obtain ⟨st, hread, hdel⟩ := fatRead_spec hgeo hok h r.buffer r.count r.stack
      have hok' : ∀ k, st.disk.succeeds k = true := by
        rw [hdel.disk.succeeds]
        exact hok
      have hle := h.le
      have hpos : st.file.position = file.position + min r.count (size - file.position) :=
        hdel.position_eq
      have htotal : st.total = min r.count (size - file.position) := by
        rw [hdel.total_eq]
        exact Nat.zero_add _
      obtain ⟨outs, hrun, hbytes, htotals, hreported⟩ := ih hok' hdel.inStep
      refine ⟨st :: outs, ?_, ?_, ?_, .cons ⟨by omega, ?_⟩ hreported⟩
      · simp [readAll, hread, hrun]
      · have hsector : st.disk.sector = d.sector := hdel.disk.sector
        rw [List.flatMap_cons, hdel.delivered_eq, hbytes, hsector, hpos, content_drop, List.map_cons,
          List.sum_cons, List.take_add]
      · rw [List.map_cons, List.map_cons, shares, htotals, htotal, hpos]
        have hleft : size - (file.position + min r.count (size - file.position)) =
            size - file.position - r.count := by omega
        rw [hleft]
      · intro x hx
        rw [hdel.buffer_eq x, if_neg]
        intro hin
        simp only [Nat.zero_add] at hin
        omega

/-- A freshly opened handle is in step. -/
theorem InStep.opened {file : FatFile} (c : ClusterChain v file.firstCluster file.size)
    (hposition : file.position = 0) (hcluster : file.currentCluster = file.firstCluster) :
    InStep c file := by
  have hzero : file.currentCluster = c.cluster 0 := by rw [hcluster, c.starts]
  refine ⟨rfl, by omega, ?_, ?_⟩
  · intro _
    rw [hposition, Nat.zero_div]
    exact hzero
  · intro _ _
    rw [hposition, Nat.zero_div, Nat.zero_min]
    exact hzero

/-- Successive reads of a file deliver its beginning, whatever the chunk sizes. -/
theorem sequential_reads_deliver (v : FatVolume) (hgeo : Geometry v) (d : Disk)
    (hok : ∀ k, d.succeeds k = true) (file : FatFile)
    (c : ClusterChain v file.firstCluster file.size) (hposition : file.position = 0)
    (hcluster : file.currentCluster = file.firstCluster) (rs : List Request) :
    ∃ outs, readAll v d file rs = some outs ∧
      outs.flatMap ReadState.delivered =
        (c.content d.sector).take (min (rs.map Request.count).sum file.size) ∧
      outs.map ReadState.total = shares file.size (rs.map Request.count) ∧
      List.Forall₂ Reported rs outs ∧
      ∀ rs', (rs'.map Request.count).sum = (rs.map Request.count).sum →
        ∃ outs', readAll v d file rs' = some outs' ∧
          outs'.flatMap ReadState.delivered = outs.flatMap ReadState.delivered := by
  have hstep := InStep.opened c hposition hcluster
  have hlen : (c.content d.sector).length = file.size := by simp [ClusterChain.content]
  obtain ⟨outs, hrun, hbytes, htotals, hreported⟩ := readAll_spec hgeo hok hstep rs
  rw [hposition, List.drop_zero] at hbytes
  refine ⟨outs, hrun, ?_, ?_, hreported, ?_⟩
  · rw [hbytes, List.take_eq_take_iff, hlen]
    omega
  · rw [htotals, hposition, Nat.sub_zero]
  · intro rs' hsum
    obtain ⟨outs', hrun', hbytes', -⟩ := readAll_spec hgeo hok hstep rs'
    refine ⟨outs', hrun', ?_⟩
    rw [hbytes', hbytes, hposition, List.drop_zero, hsum]

def smallVolume : FatVolume where
  fatType := .fat16
  sectorsPerCluster := 1
  dataStart := 10
  clusterCount := 5000
  clusterSize := 512
  fat := fun i => if i = 4 then 3 else if i = 5 then 0 else 0xFF

def smallFile : FatFile := ⟨0, 700, 2, 2⟩

def smallChain : ClusterChain smallVolume 2 700 where
  length := 2
  cluster i := 2 + i
  starts := rfl
  valid := by omega
  follows i hi := by
    have hzero : i = 0 := by omega
    subst hzero
    decide
  covers := by decide

theorem sequential_reads_smallFile : ∃ outs,
    readAll smallVolume ⟨fun s x => UInt8.ofNat (s + x), fun _ => true, 0⟩ smallFile
      [⟨600, fun _ => 0, fun _ => 0⟩, ⟨600, fun _ => 0, fun _ => 0⟩] = some outs ∧
    outs.map ReadState.total = [600, 100] := by
  obtain ⟨outs, hrun, -, htotals, -⟩ := sequential_reads_deliver smallVolume ⟨rfl, by decide⟩
    ⟨fun s x => UInt8.ofNat (s + x), fun _ => true, 0⟩ (fun _ => rfl) smallFile smallChain rfl rfl
    [⟨600, fun _ => 0, fun _ => 0⟩, ⟨600, fun _ => 0, fun _ => 0⟩]
  exact ⟨outs, hrun, by rw [htotals]; decide⟩

end Kaviz.Fat
