import Mathlib.Algebra.Order.Ring.Nat
import Mathlib.Data.List.Basic
import Kaviz.Fat.Volume

/-! # Reading a file

A handle is in step with its chain when its current cluster is the one its
position lies in. From such a handle one iteration of `fat_read` delivers the
next bytes of the file and leaves the handle in step; a whole call, and any
number of calls one after another, follow by induction.
-/

namespace Kaviz.Fat

open Bytes

variable {v : FatVolume} {first size : Nat}

/-- Clusters are whole sectors and fit the buffer of `fat_read`. -/
structure Geometry (v : FatVolume) : Prop where
  size_eq : v.clusterSize = v.sectorsPerCluster * 512
  fits : v.clusterSize ≤ 4096

structure SameDisk (d d' : Disk) : Prop where
  sector : d'.sector = d.sector
  succeeds : d'.succeeds = d.succeeds

/-! ## Clusters -/

/-- A buffer with the sectors `i`, `i + 1`, … (`n` of them) of a cluster in it. -/
def withSectors (d : Disk) (sector i n : Nat) (buf : Mem) : Mem := fun x =>
  if i * 512 ≤ x ∧ x < (i + n) * 512 then d.sector ((sector + x / 512) % 2 ^ 32) (x % 512) else buf x

set_option maxRecDepth 20000 in
theorem withSectors_succ (d : Disk) (sector i n : Nat) (buf : Mem) :
    withSectors d sector (i + 1) n (copyBytes buf (i * 512) (d.sector ((sector + i) % 2 ^ 32)) 0 512) =
      withSectors d sector i (n + 1) buf := by
  funext x
  unfold withSectors
  by_cases hlater : (i + 1) * 512 ≤ x ∧ x < (i + 1 + n) * 512
  · rw [if_pos hlater, if_pos (by omega)]
  · rw [if_neg hlater, copyBytes]
    by_cases hhere : i * 512 ≤ x ∧ x < i * 512 + 512
    · have hdiv : x / 512 = i := by omega
      have hmod : 0 + (x - i * 512) = x % 512 := by omega
      rw [if_pos hhere, if_pos (by omega), hdiv, hmod]
    · rw [if_neg hhere, if_neg (by omega)]

theorem readSectors_cases (d : Disk) (sector i n : Nat) (buf : Mem) :
    ((∀ k, k < n → d.succeeds (d.reads + k) = true) ∧
      FatVolume.readSectors sector i n d buf =
        (true, { d with reads := d.reads + n }, withSectors d sector i n buf)) ∨
    ∃ k, k < n ∧ d.succeeds (d.reads + k) = false ∧
      FatVolume.readSectors sector i n d buf =
        (false, { d with reads := d.reads + k + 1 }, withSectors d sector i k buf) := by
  induction n generalizing i d buf with
  | zero =>
      refine Or.inl ⟨fun k hk => absurd hk (Nat.not_lt_zero k), ?_⟩
      have hnone : withSectors d sector i 0 buf = buf := by
        funext x
        rw [withSectors, if_neg (by omega)]
      rw [hnone]
      rfl
  | succ n ih =>
      rw [FatVolume.readSectors, ataReadSector]
      cases hfirst : d.succeeds d.reads with
      | false =>
          refine Or.inr ⟨0, Nat.succ_pos n, hfirst, ?_⟩
          have hnone : withSectors d sector i 0 buf = buf := by
            funext x
            rw [withSectors, if_neg (by omega)]
          rw [hnone]
          rfl
      | true =>
          have hshift : ∀ k, d.reads + 1 + k = d.reads + (k + 1) := fun k => by omega
          rw [if_pos rfl]
          rcases ih { d with reads := d.reads + 1 } (i + 1)
            (copyBytes buf (i * 512) (d.sector ((sector + i) % 2 ^ 32)) 0 512) with
            ⟨hall, hrun⟩ | ⟨k, hk, hfail, hrun⟩
          · refine Or.inl ⟨?_, ?_⟩
            · intro k hk
              cases k with
              | zero => exact hfirst
              | succ k =>
                  rw [← hshift]
                  exact hall k (by omega)
            · rw [← withSectors_succ, ← hshift n]
              exact hrun
          · refine Or.inr ⟨k + 1, by omega, ?_, ?_⟩
            · rw [← hshift]
              exact hfail
            · rw [← withSectors_succ, ← hshift k]
              exact hrun

/-- The reads of `n + 1` clusters are those of the first one and those of the others. -/
theorem forall_reads_succ (d : Disk) (sectors n : Nat) :
    (∀ k, k < (n + 1) * sectors → d.succeeds (d.reads + k) = true) ↔
      (∀ k, k < sectors → d.succeeds (d.reads + k) = true) ∧
        ∀ k, k < n * sectors → d.succeeds (d.reads + sectors + k) = true := by
  rw [Nat.succ_mul]
  constructor
  · intro h
    refine ⟨fun k hk => h k (by omega), fun k hk => ?_⟩
    rw [Nat.add_assoc]
    exact h _ (by omega)
  · intro ⟨hfirst, hrest⟩ k hk
    by_cases hlow : k < sectors
    · exact hfirst k hlow
    · have hlater := hrest (k - sectors) (by omega)
      rw [Nat.add_assoc, Nat.add_sub_cancel' (Nat.le_of_not_lt hlow)] at hlater
      exact hlater

theorem readSectors_spec {d : Disk} (hok : ∀ k, d.succeeds k = true) (sector i n : Nat) (buf : Mem) :
    ∃ d' buf', FatVolume.readSectors sector i n d buf = (true, d', buf') ∧ SameDisk d d' ∧
      ∀ x, buf' x = if i * 512 ≤ x ∧ x < (i + n) * 512 then
        d.sector ((sector + x / 512) % 2 ^ 32) (x % 512) else buf x := by
  rcases readSectors_cases d sector i n buf with ⟨-, hrun⟩ | ⟨k, -, hfail, -⟩
  · exact ⟨_, _, hrun, ⟨rfl, rfl⟩, fun _ => rfl⟩
  · rw [hok] at hfail
    cases hfail

theorem readCluster_spec {d : Disk} (hok : ∀ k, d.succeeds k = true) (cluster : Nat) (buf : Mem) :
    ∃ d' buf', v.readCluster d cluster buf = (true, d', buf') ∧ SameDisk d d' ∧
      ∀ x, x < v.sectorsPerCluster * 512 → buf' x = clusterByte v d.sector cluster x := by
  obtain ⟨d', buf', hread, hsame, hbytes⟩ :=
    readSectors_spec hok (v.clusterToSector cluster) 0 v.sectorsPerCluster buf
  refine ⟨d', buf', hread, hsame, ?_⟩
  intro x hx
  rw [hbytes x, if_pos (by omega)]
  rfl

theorem div_mod_of_lt {p j cs : Nat} (h : p % cs + j < cs) :
    (p + j) / cs = p / cs ∧ (p + j) % cs = p % cs + j := by
  have hpos : 0 < cs := by omega
  have hsplit : p + j = p % cs + j + cs * (p / cs) := by
    have := Nat.mod_add_div p cs
    omega
  constructor
  · rw [hsplit, Nat.add_mul_div_left _ _ hpos, Nat.div_eq_of_lt h, Nat.zero_add]
  · rw [hsplit, Nat.add_mul_mod_self_left, Nat.mod_eq_of_lt h]

theorem div_of_boundary {p j cs : Nat} (hpos : 0 < cs) (h : p % cs + j = cs) :
    (p + j) / cs = p / cs + 1 ∧ p + j = cs * (p / cs + 1) := by
  have hend : p + j = cs * (p / cs + 1) := by
    have := Nat.mod_add_div p cs
    rw [Nat.mul_add, Nat.mul_one]
    omega
  exact ⟨by rw [hend, Nat.mul_div_cancel_left _ hpos], hend⟩

/-! ## Handles in step -/

/-- The handle's cluster is the one its position lies in. At the very end of a
chain that is marked as ended it stays on the last cluster. -/
structure InStep (c : ClusterChain v first size) (file : FatFile) : Prop where
  size_eq : file.size = size
  le : file.position ≤ size
  cluster_eq : file.position < size →
    file.currentCluster = c.cluster (file.position / v.clusterSize)
  stays : 0 < c.length → endOfChain ≤ v.readFatEntry (c.cluster (c.length - 1)) →
    file.currentCluster = c.cluster (min (file.position / v.clusterSize) (c.length - 1))

theorem InStep.index_lt {c : ClusterChain v first size} {file : FatFile} (_ : InStep c file)
    (hp : file.position < size) : file.position / v.clusterSize < c.length :=
  Nat.div_lt_of_lt_mul (by rw [Nat.mul_comm]; exact Nat.lt_of_lt_of_le hp c.covers)

theorem nextCluster_inStep {c : ClusterChain v first size} {file : FatFile} (h : InStep c file)
    (hp : file.position < size) (hcs : 0 < v.clusterSize) {n : Nat}
    (hn : file.position % v.clusterSize + n ≤ v.clusterSize) (hfile : file.position + n ≤ size) :
    InStep c (nextCluster v (file.position % v.clusterSize + n)
        { file with position := file.position + n }).2 ∧
      (nextCluster v (file.position % v.clusterSize + n)
        { file with position := file.position + n }).2.position = file.position + n ∧
      ((nextCluster v (file.position % v.clusterSize + n)
        { file with position := file.position + n }).1 = false → file.position + n = size) := by
  have hidx := h.index_lt hp
  have hcur := h.cluster_eq hp
  unfold nextCluster
  by_cases hfull : v.clusterSize ≤ file.position % v.clusterSize + n
  · obtain ⟨hdiv, hend⟩ := div_of_boundary hcs (Nat.le_antisymm hn hfull)
    rw [if_pos hfull]
    dsimp only
    by_cases hlast : file.position / v.clusterSize + 1 < c.length
    · obtain ⟨hentry, hlt⟩ := c.follows _ hlast
      rw [hcur, hentry, if_neg (Nat.not_le.mpr hlt)]
      refine ⟨⟨h.size_eq, hfile, ?_, ?_⟩, rfl, nofun⟩
      · intro _
        show c.cluster _ = c.cluster ((file.position + n) / v.clusterSize)
        rw [hdiv]
      · intro _ _
        show c.cluster _ = c.cluster (min ((file.position + n) / v.clusterSize) (c.length - 1))
        rw [hdiv, Nat.min_eq_left (by omega)]
    · have hlen : file.position / v.clusterSize + 1 = c.length := by omega
      have hsize : file.position + n = size := by
        have hcov := c.covers
        rw [hend, hlen, Nat.mul_comm] at hfile ⊢
        omega
      have hstop : ¬ file.position + n < size := by omega
      by_cases hmark : endOfChain ≤ v.readFatEntry file.currentCluster
      · rw [if_pos hmark]
        refine ⟨⟨h.size_eq, hfile, fun hlt => absurd hlt hstop, ?_⟩, rfl, fun _ => hsize⟩
        intro _ _
        show file.currentCluster = c.cluster (min ((file.position + n) / v.clusterSize) (c.length - 1))
        rw [hcur, hdiv, Nat.min_eq_right (by omega), ← hlen, Nat.add_sub_cancel]
      · rw [if_neg hmark]
        refine ⟨⟨h.size_eq, hfile, fun hlt => absurd hlt hstop, ?_⟩, rfl, nofun⟩
        intro _ hends
        rw [← hlen, Nat.add_sub_cancel, ← hcur] at hends
        exact absurd hends hmark
  · rw [if_neg hfull]
    obtain ⟨hdiv, -⟩ := div_mod_of_lt (Nat.lt_of_not_le hfull)
    refine ⟨⟨h.size_eq, hfile, ?_, ?_⟩, rfl, nofun⟩
    · intro _
      show file.currentCluster = c.cluster ((file.position + n) / v.clusterSize)
      rw [hdiv, hcur]
    · intro _ _
      show file.currentCluster = c.cluster (min ((file.position + n) / v.clusterSize) (c.length - 1))
      rw [hdiv, hcur, Nat.min_eq_left (by omega)]

/-! ## One call -/

structure Delivered (c : ClusterChain v first size) (st st' : ReadState) (n : Nat) : Prop where
  total_eq : st'.total = st.total + n
  position_eq : st'.file.position = st.file.position + n
  inStep : InStep c st'.file
  disk : SameDisk st.disk st'.disk
  buffer_eq : ∀ x, st'.buffer x = if st.total ≤ x ∧ x < st.total + n then
    c.byte st.disk.sector (st.file.position + (x - st.total)) else st.buffer x

theorem Delivered.trans {c : ClusterChain v first size} {st st' st'' : ReadState} {n k : Nat}
    (h : Delivered c st st' n) (h' : Delivered c st' st'' k) : Delivered c st st'' (n + k) := by
  refine ⟨?_, ?_, h'.inStep, ⟨h'.disk.sector.trans h.disk.sector,
    h'.disk.succeeds.trans h.disk.succeeds⟩, ?_⟩
  · rw [h'.total_eq, h.total_eq, Nat.add_assoc]
  · rw [h'.position_eq, h.position_eq, Nat.add_assoc]
  · intro x
    rw [h'.buffer_eq x, h.buffer_eq x, h.total_eq, h.position_eq, h.disk.sector]
    by_cases hlater : st.total + n ≤ x ∧ x < st.total + n + k
    · have hpos : st.file.position + n + (x - (st.total + n)) = st.file.position + (x - st.total) := by
        omega
      rw [if_pos hlater, if_pos (by omega), hpos]
    · rw [if_neg hlater]
      by_cases hhere : st.total ≤ x ∧ x < st.total + n
      · rw [if_pos hhere, if_pos (by omega)]
      · rw [if_neg hhere, if_neg (by omega)]

section Call

variable (hgeo : Geometry v) {c : ClusterChain v first size} {count : Nat} {st : ReadState}

include hgeo

/-- One iteration delivers at least a byte, and breaks only at the end of the file. -/
theorem readStep_spec (hok : ∀ k, st.disk.succeeds k = true) (h : InStep c st.file)
    (htotal : st.total < count) (hp : st.file.position < size) :
    ∃ more st' n, readStep v count st = some (more, st') ∧ 0 < n ∧ st.total + n ≤ count ∧
      Delivered c st st' n ∧ (more = false → st'.file.position = size) := by
  obtain ⟨d', buf, hread, hsame, hbytes⟩ :=
    readCluster_spec (v := v) hok st.file.currentCluster st.clusterBuffer
  have hcs : 0 < v.clusterSize := by
    have hidx := h.index_lt hp
    have hcov := c.covers
    by_contra hzero
    have hcs0 : v.clusterSize = 0 := by omega
    rw [hcs0] at hcov
    omega
  have hoff : st.file.position % v.clusterSize < v.clusterSize := Nat.mod_lt _ hcs
  have hsize := h.size_eq
  generalize hn : min (v.clusterSize - st.file.position % v.clusterSize)
    (min (count - st.total) (st.file.size - st.file.position)) = n
  have hpos : 0 < n := by omega
  obtain ⟨hstep, hposition, hbreak⟩ := nextCluster_inStep h hp hcs (n := n) (by omega) (by omega)
  generalize hmoved : nextCluster v (st.file.position % v.clusterSize + n)
    { st.file with position := st.file.position + n } = moved at hstep hposition hbreak
  refine ⟨moved.1, ⟨moved.2, d', st.total + n, copyBytes st.buffer st.total buf
    (st.file.position % v.clusterSize) n, buf⟩, n, ?_, hpos, by omega,
    ⟨rfl, hposition, hstep, hsame, ?_⟩, fun hf => ?_⟩
  · simp only [readStep, hread, Nat.ne_of_gt hcs, if_false, hn, hmoved]
  · intro x
    show copyBytes st.buffer st.total buf _ n x = _
    rw [copyBytes]
    by_cases hx : st.total ≤ x ∧ x < st.total + n
    · -- A byte copied from the cluster buffer is the file's byte at its position.
      have hin : st.file.position % v.clusterSize + (x - st.total) < v.clusterSize := by omega
      obtain ⟨hdiv, hmod⟩ := div_mod_of_lt hin
      rw [if_pos hx, if_pos hx, hbytes _ (by rw [← hgeo.size_eq]; exact hin), ClusterChain.byte, hdiv,
        hmod, h.cluster_eq hp]
    · rw [if_neg hx, if_neg hx]
  · rw [hposition]
    exact hbreak hf

theorem readLoop_spec {fuel : Nat} (hok : ∀ k, st.disk.succeeds k = true) (h : InStep c st.file)
    (htotal : st.total ≤ count) (hfuel : count - st.total < fuel) :
    ∃ st', readLoop v count fuel st = some st' ∧
      Delivered c st st' (min (count - st.total) (size - st.file.position)) := by
  induction fuel generalizing st with
  | zero => omega
  | succ fuel ih =>
      have hle := h.le
      have hsize := h.size_eq
      by_cases hcond : st.total < count ∧ st.file.position < size
      · obtain ⟨more, st₁, n, hstep, hn, hcount, hdel, hbreak⟩ :=
          readStep_spec hgeo hok h hcond.1 hcond.2
        have htotal₁ := hdel.total_eq
        have hpos₁ := hdel.position_eq
        have hle₁ := hdel.inStep.le
        cases more with
        | false =>
            have hend := hbreak rfl
            have hamount : min (count - st.total) (size - st.file.position) = n := by omega
            refine ⟨st₁, ?_, hamount ▸ hdel⟩
            simp [readLoop, hsize, hcond, hstep]
        | true =>
            have hok₁ : ∀ k, st₁.disk.succeeds k = true := by
              rw [hdel.disk.succeeds]
              exact hok
            obtain ⟨st₂, hrun, hrest⟩ := ih hok₁ hdel.inStep (by omega) (by omega)
            have hamount : min (count - st.total) (size - st.file.position) =
                n + min (count - st₁.total) (size - st₁.file.position) := by omega
            refine ⟨st₂, ?_, hamount ▸ hdel.trans hrest⟩
            simp [readLoop, hsize, hcond, hstep, hrun]
      · have hamount : min (count - st.total) (size - st.file.position) = 0 := by omega
        refine ⟨st, ?_, ?_⟩
        · rw [← hsize] at hcond
          rw [readLoop, if_neg hcond]
        · rw [hamount]
          refine ⟨rfl, rfl, h, ⟨rfl, rfl⟩, ?_⟩
          intro x
          rw [if_neg (by omega)]

theorem fatRead_spec {d : Disk} {file : FatFile} (hok : ∀ k, d.succeeds k = true)
    (h : InStep c file) (buffer : Mem) (count : Nat) (stack : Mem) :
    ∃ st, fatRead v d file buffer count stack = some st ∧
      Delivered c ⟨file, d, 0, buffer, stack⟩ st (min count (size - file.position)) := by
  have hfresh : InStep c (⟨file, d, 0, buffer, stack⟩ : ReadState).file := h
  exact readLoop_spec hgeo hok hfresh (Nat.zero_le _) (Nat.lt_succ_self _)

end Call

end Kaviz.Fat
