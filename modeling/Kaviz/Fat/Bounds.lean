import Kaviz.Fat.Mount
import Kaviz.Fat.Reads

/-! # What `fat_read` touches

`read_cluster` puts whole sectors of 512 bytes into a buffer of 4096, and
`read_fat_entry` looks up whatever number it is given. Both bounds are part of
the model here: an access outside the buffer or to memory that is not mapped
ends the call. Calls without one keep their books right on any volume.
-/

namespace Kaviz.Fat

open Bytes

def clusterBufferSize : Nat := 4096

/-- The loop of `read_cluster` on `cluster_buffer`; `none` is a sector that does not fit. -/
def readSectorsBounded (sector : Nat) : Nat → Nat → Disk → Mem → Option (Bool × Disk × Mem)
  | _, 0, d, buf => some (true, d, buf)
  | i, n + 1, d, buf =>
      match ataReadSector d ((sector + i) % 2 ^ 32) buf (i * 512) with
      | (true, d, buf) =>
          if i * 512 + 512 ≤ clusterBufferSize then readSectorsBounded sector (i + 1) n d buf else none
      | (false, d, buf) => some (false, d, buf)

def FatType.entryBytes : FatType → Nat
  | .fat32 => 4
  | .fat16 => 2
  | .fat12 => 0

/-- `read_fat_entry` reads memory that is mapped; `mapped` counts from the cache on. -/
def EntryMapped (v : FatVolume) (mapped : Nat → Bool) (cluster : Nat) : Prop :=
  ∀ i, i < v.fatType.entryBytes → mapped (v.fatType.entryBytes * cluster + i) = true

instance (v : FatVolume) (mapped : Nat → Bool) (cluster : Nat) : Decidable (EntryMapped v mapped cluster) :=
  inferInstanceAs (Decidable (∀ i, i < v.fatType.entryBytes → _))

/-- The loop body of `fat_read`, with a bound for the bytes it takes from the buffer and a check of the
entry it looks up; `none` is also an access that fails these. -/
def readStepChecked (v : FatVolume) (limit : Nat) (entry : Nat → Prop) [DecidablePred entry] (count : Nat)
    (st : ReadState) : Option (Bool × ReadState) :=
  let bytesToRead := min (count - st.total) (st.file.size - st.file.position)
  match readSectorsBounded (v.clusterToSector st.file.currentCluster) 0 v.sectorsPerCluster st.disk
    st.clusterBuffer with
  | none => none
  | some (false, disk, clusterBuffer) => some (false, { st with disk, clusterBuffer })
  | some (true, disk, clusterBuffer) =>
      if v.clusterSize = 0 then none
      else
        let offset := st.file.position % v.clusterSize
        let n := min (v.clusterSize - offset) bytesToRead
        if offset + n ≤ limit ∧ (offset + n ≥ v.clusterSize → entry st.file.currentCluster) then
          let buffer := copyBytes st.buffer st.total clusterBuffer offset n
          let moved := nextCluster v (offset + n)
            { st.file with position := st.file.position + n }
          some (moved.1, ⟨moved.2, disk, st.total + n, buffer, clusterBuffer⟩)
        else none

section

variable (v : FatVolume) (mapped : Nat → Bool) (count : Nat)

/-- The loop body of `fat_read`; `none` is also an access out of bounds. -/
def readStepBounded (st : ReadState) : Option (Bool × ReadState) :=
  readStepChecked v clusterBufferSize (EntryMapped v mapped) count st

def readLoopBounded : Nat → ReadState → Option ReadState
  | 0, _ => none
  | fuel + 1, st =>
      if st.total < count ∧ st.file.position < st.file.size then do
        let (continues, st) ← readStepBounded v mapped count st
        if continues then readLoopBounded fuel st else some st
      else some st

end

def fatReadBounded (v : FatVolume) (mapped : Nat → Bool) (d : Disk) (file : FatFile) (buffer : Mem)
    (count : Nat) (stack : Mem) : Option ReadState :=
  readLoopBounded v mapped count (count + 1) ⟨file, d, 0, buffer, stack⟩

/-! ## The bounds are all that differs -/

theorem readSectorsBounded_eq {sector i n : Nat} {d : Disk} {buf : Mem} {r : Bool × Disk × Mem}
    (h : readSectorsBounded sector i n d buf = some r) :
    FatVolume.readSectors sector i n d buf = r := by
  induction n generalizing i d buf with
  | zero => exact Option.some.inj h
  | succ n ih =>
      rw [readSectorsBounded] at h
      rw [FatVolume.readSectors]
      cases hread : ataReadSector d ((sector + i) % 2 ^ 32) buf (i * 512) with
      | mk ok rest =>
        rw [hread] at h
        cases ok with
        | true =>
            dsimp only at h ⊢
            by_cases hfits : i * 512 + 512 ≤ clusterBufferSize
            · rw [if_pos hfits] at h
              exact ih h
            · rw [if_neg hfits] at h
              cases h
        | false => exact Option.some.inj h

section

variable {v : FatVolume} {mapped : Nat → Bool} {count fuel : Nat} {st st' : ReadState}

theorem readStepChecked_eq {limit : Nat} {entry : Nat → Prop} [DecidablePred entry] {more : Bool}
    (h : readStepChecked v limit entry count st = some (more, st')) :
    readStep v count st = some (more, st') := by
  unfold readStepChecked at h
  unfold readStep FatVolume.readCluster
  cases hread : readSectorsBounded (v.clusterToSector st.file.currentCluster) 0 v.sectorsPerCluster
    st.disk st.clusterBuffer with
  | none =>
      rw [hread] at h
      cases h
  | some r =>
      obtain ⟨ok, d₁, buf₁⟩ := r
      rw [hread] at h
      rw [readSectorsBounded_eq hread]
      cases ok with
      | false => exact h
      | true =>
          dsimp only at h ⊢
          by_cases hzero : v.clusterSize = 0
          · rw [if_pos hzero] at h
            cases h
          · rw [if_neg hzero] at h ⊢
            split at h
            · exact h
            · cases h

/-- A call that stays in bounds is the one of the model without them. -/
theorem readLoopBounded_eq (h : readLoopBounded v mapped count fuel st = some st') :
    readLoop v count fuel st = some st' := by
  induction fuel generalizing st with
  | zero => cases h
  | succ fuel ih =>
      rw [readLoopBounded] at h
      rw [readLoop]
      by_cases hcond : st.total < count ∧ st.file.position < st.file.size
      · rw [if_pos hcond] at h ⊢
        obtain ⟨⟨more, st₁⟩, hstep, hrest⟩ := Option.bind_eq_some_iff.mp h
        refine Option.bind_eq_some_iff.mpr ⟨(more, st₁), readStepChecked_eq hstep, ?_⟩
        cases more with
        | false => exact hrest
        | true => exact ih hrest
      · rw [if_neg hcond] at h ⊢
        exact h

theorem fatReadBounded_eq {d : Disk} {file : FatFile} {buffer stack : Mem}
    (h : fatReadBounded v mapped d file buffer count stack = some st) :
    fatRead v d file buffer count stack = some st :=
  readLoopBounded_eq h

end

/-! ## Steps out of bounds -/

/-- Sectors of the next cluster are delivered up to one that does not fit the buffer. -/
def Overruns (v : FatVolume) (d : Disk) : Prop :=
  ∃ k, k < v.sectorsPerCluster ∧ clusterBufferSize < k * 512 + 512 ∧
    ∀ l, l ≤ k → d.succeeds (d.reads + l) = true

def Delivers (v : FatVolume) (d : Disk) : Prop :=
  ∀ k, k < v.sectorsPerCluster → d.succeeds (d.reads + k) = true

theorem not_delivers {v : FatVolume} {d : Disk} {k : Nat} (hk : k < v.sectorsPerCluster)
    (hfail : d.succeeds (d.reads + k) = false) : ¬ Delivers v d := by
  intro hall
  rw [hall k hk] at hfail
  cases hfail

def Disk.behind (d : Disk) (n : Nat) : Disk := { d with reads := d.reads + n }

set_option maxRecDepth 20000 in
theorem readSectorsBounded_none {sector i n : Nat} {d : Disk} {buf : Mem} :
    readSectorsBounded sector i n d buf = none ↔
      ∃ k, k < n ∧ clusterBufferSize < (i + k) * 512 + 512 ∧
        ∀ l, l ≤ k → d.succeeds (d.reads + l) = true := by
  induction n generalizing i d buf with
  | zero => simp [readSectorsBounded]
  | succ n ih =>
      have hshift : ∀ l, d.reads + 1 + l = d.reads + (l + 1) := fun l => by omega
      rw [readSectorsBounded, ataReadSector]
      cases hfirst : d.succeeds d.reads with
      | false =>
          refine iff_of_false (Option.some_ne_none _) ?_
          rintro ⟨k, -, -, hall⟩
          have hzero := hall 0 (Nat.zero_le k)
          rw [Nat.add_zero, hfirst] at hzero
          cases hzero
      | true =>
          rw [if_pos rfl]
          dsimp only
          by_cases hfits : i * 512 + 512 ≤ clusterBufferSize
          · rw [if_pos hfits, ih]
            constructor
            · rintro ⟨k, hk, hover, hall⟩
              refine ⟨k + 1, by omega, by omega, fun l hl => ?_⟩
              cases l with
              | zero => exact hfirst
              | succ l =>
                  rw [← hshift]
                  exact hall l (by omega)
            · rintro ⟨k, hk, hover, hall⟩
              have hpos : k ≠ 0 := by
                rintro rfl
                omega
              refine ⟨k - 1, by omega, by omega, fun l hl => ?_⟩
              show d.succeeds (d.reads + 1 + l) = true
              rw [hshift]
              exact hall (l + 1) (by omega)
          · rw [if_neg hfits]
            refine iff_of_true rfl ⟨0, Nat.succ_pos n, by omega, fun l hl => ?_⟩
            rw [Nat.le_zero.mp hl]
            exact hfirst

section

variable {v : FatVolume} {mapped : Nat → Bool} {count : Nat} {st st' : ReadState}

def ReadState.wanted (count : Nat) (st : ReadState) : Nat :=
  min (count - st.total) (st.file.size - st.file.position)

def ReadState.share (v : FatVolume) (count : Nat) (st : ReadState) : Nat :=
  min (v.clusterSize - st.file.position % v.clusterSize) (st.wanted count)

def ReadState.advance (v : FatVolume) (count : Nat) (st : ReadState) : Bool × ReadState :=
  let buf := withSectors st.disk (v.clusterToSector st.file.currentCluster) 0 v.sectorsPerCluster
    st.clusterBuffer
  let moved := nextCluster v (st.file.position % v.clusterSize + st.share v count)
    { st.file with position := st.file.position + st.share v count }
  (moved.1, ⟨moved.2, st.disk.behind v.sectorsPerCluster, st.total + st.share v count,
    copyBytes st.buffer st.total buf (st.file.position % v.clusterSize) (st.share v count), buf⟩)

theorem readStep_cases (hcs : 0 < v.clusterSize) (count : Nat) (st : ReadState) :
    (Delivers v st.disk ∧ readStep v count st = some (st.advance v count)) ∨
    ∃ k buf, k < v.sectorsPerCluster ∧ st.disk.succeeds (st.disk.reads + k) = false ∧
      readStep v count st =
        some (false, { st with disk := st.disk.behind (k + 1), clusterBuffer := buf }) := by
  rw [readStep, FatVolume.readCluster]
  rcases readSectors_cases st.disk (v.clusterToSector st.file.currentCluster) 0 v.sectorsPerCluster
    st.clusterBuffer with ⟨hall, hrun⟩ | ⟨k, hk, hfail, hrun⟩
  · refine Or.inl ⟨hall, ?_⟩
    rw [hrun]
    dsimp only
    rw [if_neg (Nat.ne_of_gt hcs)]
    rfl
  · refine Or.inr ⟨k, withSectors st.disk (v.clusterToSector st.file.currentCluster) 0 k
      st.clusterBuffer, hk, hfail, ?_⟩
    rw [hrun]
    rfl

/-- A cluster overruns the buffer, or is delivered into it, or its drive fails first. -/
theorem readSectorsBounded_cases (v : FatVolume) (d : Disk) (cluster : Nat) (buf : Mem) :
    (Overruns v d ∧ readSectorsBounded (v.clusterToSector cluster) 0 v.sectorsPerCluster d buf = none) ∨
    (¬ Overruns v d ∧ Delivers v d ∧
      readSectorsBounded (v.clusterToSector cluster) 0 v.sectorsPerCluster d buf =
        some (true, d.behind v.sectorsPerCluster,
          withSectors d (v.clusterToSector cluster) 0 v.sectorsPerCluster buf)) ∨
    (¬ Overruns v d ∧ ¬ Delivers v d ∧ ∃ d' buf',
      readSectorsBounded (v.clusterToSector cluster) 0 v.sectorsPerCluster d buf =
        some (false, d', buf')) := by
  have hover : readSectorsBounded (v.clusterToSector cluster) 0 v.sectorsPerCluster d buf = none ↔
      Overruns v d := by
    rw [readSectorsBounded_none]
    simp only [Nat.zero_add]
    rfl
  cases hread : readSectorsBounded (v.clusterToSector cluster) 0 v.sectorsPerCluster d buf with
  | none => exact Or.inl ⟨hover.mp hread, rfl⟩
  | some r =>
      have hinside : ¬ Overruns v d := by
        rw [← hover, hread]
        exact Option.some_ne_none _
      have heq := readSectorsBounded_eq hread
      rcases readSectors_cases d (v.clusterToSector cluster) 0 v.sectorsPerCluster buf with
        ⟨hall, hrun⟩ | ⟨k, hk, hfail, hrun⟩
      · rw [← heq, hrun]
        exact Or.inr (Or.inl ⟨hinside, hall, rfl⟩)
      · rw [← heq, hrun]
        exact Or.inr (Or.inr ⟨hinside, not_delivers hk hfail, _, _, rfl⟩)

/-- What fails the checks: the sectors of the cluster, the bytes taken from it, or the entry behind it. -/
theorem readStepChecked_none {limit : Nat} {entry : Nat → Prop} [DecidablePred entry]
    (hcs : 0 < v.clusterSize) :
    readStepChecked v limit entry count st = none ↔ Overruns v st.disk ∨
      (Delivers v st.disk ∧
        (limit < st.file.position % v.clusterSize + st.share v count ∨
          (v.clusterSize ≤ st.file.position % v.clusterSize + st.share v count ∧
            ¬ entry st.file.currentCluster))) := by
  have hshare : min (v.clusterSize - st.file.position % v.clusterSize)
      (min (count - st.total) (st.file.size - st.file.position)) = st.share v count := rfl
  unfold readStepChecked
  rcases readSectorsBounded_cases v st.disk st.file.currentCluster st.clusterBuffer with
    ⟨hover, hread⟩ | ⟨hinside, hdelivers, hread⟩ | ⟨hinside, hfails, d', buf', hread⟩
  · rw [hread]
    exact iff_of_true rfl (Or.inl hover)
  · rw [hread]
    dsimp only
    rw [if_neg (Nat.ne_of_gt hcs), or_iff_right hinside, and_iff_right hdelivers, hshare]
    by_cases hfilled : st.file.position % v.clusterSize + st.share v count ≤ limit
    · by_cases hentry : st.file.position % v.clusterSize + st.share v count ≥ v.clusterSize →
          entry st.file.currentCluster
      · rw [if_pos ⟨hfilled, hentry⟩]
        refine iff_of_false (Option.some_ne_none _) ?_
        rintro (hover | ⟨hend, houtside⟩)
        · exact absurd hfilled (Nat.not_le.mpr hover)
        · exact houtside (hentry hend)
      · rw [if_neg fun h => hentry h.2]
        exact iff_of_true rfl (Or.inr (Classical.not_imp.mp hentry))
    · rw [if_neg fun h => hfilled h.1]
      exact iff_of_true rfl (Or.inl (Nat.not_le.mp hfilled))
  · rw [hread]
    refine iff_of_false (Option.some_ne_none _) ?_
    rintro (h | ⟨hall, -⟩)
    · exact hinside h
    · exact hfails hall

/-- Bytes of a cluster of the buffer's size are in the buffer. -/
theorem readStepBounded_none (hcs : 0 < v.clusterSize) (hfits : v.clusterSize ≤ clusterBufferSize) :
    readStepBounded v mapped count st = none ↔ Overruns v st.disk ∨
      (Delivers v st.disk ∧ v.clusterSize ≤ st.file.position % v.clusterSize + st.wanted count ∧
        ¬ EntryMapped v mapped st.file.currentCluster) := by
  have hoffset := Nat.mod_lt st.file.position hcs
  have hshare : st.share v count = min (v.clusterSize - st.file.position % v.clusterSize) (st.wanted count) := rfl
  have hcopied : ¬ clusterBufferSize < st.file.position % v.clusterSize + st.share v count := by omega
  have hend : v.clusterSize ≤ st.file.position % v.clusterSize + st.share v count ↔
      v.clusterSize ≤ st.file.position % v.clusterSize + st.wanted count := by omega
  rw [readStepBounded, readStepChecked_none hcs, or_iff_right hcopied, hend]

/-! ## What a call accounts for -/

/-- Bytes and positions after a call from `st` add up. -/
structure Accounted (count : Nat) (st st' : ReadState) : Prop where
  total_le : st.total ≤ st'.total
  count_le : st'.total ≤ count
  buffer_eq : ∀ x, st'.total ≤ x → st'.buffer x = st.buffer x
  position_eq : st'.file.position + st.total = st.file.position + st'.total
  size_eq : st'.file.size = st.file.size
  position_le : st.file.position ≤ st.file.size → st'.file.position ≤ st.file.size
  succeeds_eq : st'.disk.succeeds = st.disk.succeeds
  reads_le : st.disk.reads ≤ st'.disk.reads

/-- A sector read has failed since `st`, or the cluster is the last of its chain. -/
def Stopped (v : FatVolume) (st st' : ReadState) : Prop :=
  (∃ k, st.disk.reads ≤ k ∧ k < st'.disk.reads ∧ st.disk.succeeds k = false) ∨
    endOfChain ≤ v.readFatEntry st'.file.currentCluster

theorem Accounted.refl (h : st.total ≤ count) : Accounted count st st :=
  ⟨Nat.le_refl _, h, fun _ _ => rfl, rfl, rfl, id, rfl, Nat.le_refl _⟩

theorem Accounted.trans {st'' : ReadState} (h : Accounted count st st') (h' : Accounted count st' st'') :
    Accounted count st st'' where
  total_le := Nat.le_trans h.total_le h'.total_le
  count_le := h'.count_le
  buffer_eq x hx := (h'.buffer_eq x hx).trans (h.buffer_eq x (Nat.le_trans h'.total_le hx))
  position_eq := by
    have hfirst := h.position_eq
    have hrest := h'.position_eq
    omega
  size_eq := h'.size_eq.trans h.size_eq
  position_le hle := by
    have hfirst := h.position_le hle
    have hrest := h'.position_le
    rw [h.size_eq] at hrest
    exact hrest hfirst
  succeeds_eq := h'.succeeds_eq.trans h.succeeds_eq
  reads_le := Nat.le_trans h.reads_le h'.reads_le

theorem nextCluster_cases (v : FatVolume) (used : Nat) (file : FatFile) :
    (used < v.clusterSize ∧ nextCluster v used file = (true, file)) ∨
    (v.clusterSize ≤ used ∧ endOfChain ≤ v.readFatEntry file.currentCluster ∧
      nextCluster v used file = (false, file)) ∨
    (v.clusterSize ≤ used ∧ v.readFatEntry file.currentCluster < endOfChain ∧
      nextCluster v used file =
        (true, { file with currentCluster := v.readFatEntry file.currentCluster })) := by
  unfold nextCluster
  by_cases hused : v.clusterSize ≤ used
  · rw [if_pos hused]
    dsimp only
    by_cases hlast : v.readFatEntry file.currentCluster ≥ endOfChain
    · rw [if_pos hlast]
      exact Or.inr (Or.inl ⟨hused, hlast, rfl⟩)
    · rw [if_neg hlast]
      exact Or.inr (Or.inr ⟨hused, Nat.not_le.mp hlast, rfl⟩)
  · rw [if_neg hused]
    exact Or.inl ⟨Nat.not_le.mp hused, rfl⟩

theorem nextCluster_file (v : FatVolume) (used : Nat) (file : FatFile) :
    (nextCluster v used file).2.position = file.position ∧
      (nextCluster v used file).2.size = file.size := by
  rcases nextCluster_cases v used file with ⟨-, h⟩ | ⟨-, -, h⟩ | ⟨-, -, h⟩ <;> rw [h] <;> exact ⟨rfl, rfl⟩

theorem advance_file (v : FatVolume) (count : Nat) (st : ReadState) :
    (st.advance v count).2.file.position = st.file.position + st.share v count ∧
      (st.advance v count).2.file.size = st.file.size :=
  nextCluster_file v _ _

/-- A step ends inside its cluster with all that is wanted, at the end of the chain, or at
the start of the next cluster. -/
theorem advance_cases (hcs : 0 < v.clusterSize) (count : Nat) (st : ReadState) :
    (st.file.position % v.clusterSize + st.wanted count < v.clusterSize ∧
      st.share v count = st.wanted count ∧ (st.advance v count).1 = true) ∨
    (v.clusterSize ≤ st.file.position % v.clusterSize + st.wanted count ∧
      st.file.position % v.clusterSize + st.share v count = v.clusterSize ∧
      endOfChain ≤ v.readFatEntry st.file.currentCluster ∧ (st.advance v count).1 = false ∧
      (st.advance v count).2.file.currentCluster = st.file.currentCluster) ∨
    (v.clusterSize ≤ st.file.position % v.clusterSize + st.wanted count ∧
      st.file.position % v.clusterSize + st.share v count = v.clusterSize ∧
      v.readFatEntry st.file.currentCluster < endOfChain ∧ (st.advance v count).1 = true ∧
      (st.advance v count).2.file.currentCluster = v.readFatEntry st.file.currentCluster) := by
  have hoffset := Nat.mod_lt st.file.position hcs
  have hshare : st.share v count =
    min (v.clusterSize - st.file.position % v.clusterSize) (st.wanted count) := rfl
  unfold ReadState.advance
  dsimp only
  rcases nextCluster_cases v (st.file.position % v.clusterSize + st.share v count)
    { st.file with position := st.file.position + st.share v count } with
    ⟨hinside, hnext⟩ | ⟨hfull, hend, hnext⟩ | ⟨hfull, hlink, hnext⟩
  · rw [hnext]
    exact Or.inl ⟨by omega, by omega, rfl⟩
  · rw [hnext]
    exact Or.inr (Or.inl ⟨by omega, by omega, hend, rfl, rfl⟩)
  · rw [hnext]
    exact Or.inr (Or.inr ⟨by omega, by omega, hlink, rfl, rfl⟩)

section

variable (hcs : 0 < v.clusterSize) (htotal : st.total < count) (hposition : st.file.position < st.file.size)
include hcs htotal hposition

theorem share_bounds : 0 < st.share v count ∧ st.share v count ≤ st.wanted count ∧
    st.total + st.wanted count ≤ count ∧ st.file.position + st.wanted count ≤ st.file.size := by
  have hoffset := Nat.mod_lt st.file.position hcs
  unfold ReadState.share ReadState.wanted
  omega

theorem advance_accounted : Accounted count st (st.advance v count).2 := by
  obtain ⟨hpos, hle, hcount, hsize⟩ := share_bounds hcs htotal hposition
  obtain ⟨hmoved, hkept⟩ := advance_file v count st
  have htotal₁ : (st.advance v count).2.total = st.total + st.share v count := rfl
  refine ⟨?_, ?_, ?_, ?_, hkept, ?_, rfl, Nat.le_add_right _ _⟩
  · omega
  · omega
  · intro x hx
    rw [htotal₁] at hx
    exact if_neg fun h => Nat.not_lt.mpr hx h.2
  · omega
  · intro _
    omega

/-- The rest is wanted from the next step. -/
theorem advance_wanted : (st.advance v count).2.wanted count + st.share v count = st.wanted count := by
  obtain ⟨hpos, hle, hcount, hsize⟩ := share_bounds hcs htotal hposition
  obtain ⟨hmoved, hkept⟩ := advance_file v count st
  have htotal₁ : (st.advance v count).2.total = st.total + st.share v count := rfl
  unfold ReadState.wanted at hle ⊢
  rw [hmoved, hkept, htotal₁]
  omega

end

/-- A call that returns has accounted for every byte, and delivers less than it could only
where it was stopped. -/
theorem readLoop_accounted {fuel : Nat} (hcs : 0 < v.clusterSize) (htotal : st.total ≤ count)
    (h : readLoop v count fuel st = some st') :
    Accounted count st st' ∧ (st'.total < st.total + st.wanted count → Stopped v st st') := by
  induction fuel generalizing st with
  | zero => cases h
  | succ fuel ih =>
      rw [readLoop] at h
      by_cases hcond : st.total < count ∧ st.file.position < st.file.size
      · rw [if_pos hcond] at h
        rcases readStep_cases hcs count st with ⟨-, hstep⟩ | ⟨k, buf, hk, hfail, hstep⟩
        · have hstep₁ := advance_accounted hcs hcond.1 hcond.2
          have hwanted := advance_wanted hcs hcond.1 hcond.2
          have htotal₁ : (st.advance v count).2.total = st.total + st.share v count := rfl
          rw [hstep] at h
          cases hmore : (st.advance v count).1 with
          | true =>
              have hrun : readLoop v count fuel (st.advance v count).2 = some st' := by
                simpa [hmore] using h
              obtain ⟨hrest, hshort⟩ := ih hstep₁.count_le hrun
              refine ⟨hstep₁.trans hrest, fun hless => ?_⟩
              rcases hshort (by omega) with ⟨k, hlo, hhi, hfail⟩ | hend
              · rw [hstep₁.succeeds_eq] at hfail
                exact Or.inl ⟨k, Nat.le_trans hstep₁.reads_le hlo, hhi, hfail⟩
              · exact Or.inr hend
          | false =>
              have hlast : (st.advance v count).2 = st' := by
                simpa [hmore] using h
              rw [← hlast]
              refine ⟨hstep₁, fun _ => Or.inr ?_⟩
              rcases advance_cases hcs count st with
                ⟨-, -, hgoes⟩ | ⟨-, -, hend, -, hstays⟩ | ⟨-, -, -, hgoes, -⟩
              · rw [hmore] at hgoes
                cases hgoes
              · rw [hstays]
                exact hend
              · rw [hmore] at hgoes
                cases hgoes
        · rw [hstep] at h
          cases h
          refine ⟨⟨Nat.le_refl _, htotal, fun _ _ => rfl, rfl, rfl, id, rfl, Nat.le_add_right _ _⟩, fun _ => ?_⟩
          exact Or.inl ⟨st.disk.reads + k, Nat.le_add_right _ _, Nat.lt_succ_self _, hfail⟩
      · rw [if_neg hcond] at h
        cases h
        refine ⟨Accounted.refl htotal, fun hless => ?_⟩
        unfold ReadState.wanted at hless
        omega

/-! ## Calls that stay in bounds -/

/-- The entries behind the first `hops` clusters of a chain are mapped, as far as the drive
delivers the clusters and the chain goes on. -/
def LookupsMapped (v : FatVolume) (mapped : Nat → Bool) (d : Disk) (cluster hops : Nat) : Prop :=
  ∀ j, j < hops → (∀ k, k < (j + 1) * v.sectorsPerCluster → d.succeeds (d.reads + k) = true) →
    (∀ i, i < j → v.readFatEntry^[i + 1] cluster < endOfChain) →
      EntryMapped v mapped (v.readFatEntry^[j] cluster)

/-- A call that delivers up to `wanted` bytes touches nothing out of bounds. -/
structure StaysInside (v : FatVolume) (mapped : Nat → Bool) (d : Disk) (file : FatFile)
    (wanted : Nat) : Prop where
  fits : 0 < wanted → ¬ Overruns v d
  lookups : LookupsMapped v mapped d file.currentCluster
    ((file.position % v.clusterSize + wanted) / v.clusterSize)

theorem LookupsMapped.zero (d : Disk) (cluster : Nat) : LookupsMapped v mapped d cluster 0 :=
  fun _ hj => absurd hj (Nat.not_lt_zero _)

theorem StaysInside.nothing (hcs : 0 < v.clusterSize) (d : Disk) (file : FatFile) :
    StaysInside v mapped d file 0 := by
  refine ⟨fun hpos => absurd hpos (Nat.lt_irrefl 0), ?_⟩
  rw [Nat.add_zero, Nat.div_eq_of_lt (Nat.mod_lt _ hcs)]
  exact LookupsMapped.zero _ _

/-- The lookup behind the first cluster, and those behind the others. -/
theorem lookupsMapped_succ {d : Disk} {cluster hops : Nat} :
    LookupsMapped v mapped d cluster (hops + 1) ↔ (Delivers v d → EntryMapped v mapped cluster ∧
      (v.readFatEntry cluster < endOfChain →
        LookupsMapped v mapped (d.behind v.sectorsPerCluster) (v.readFatEntry cluster) hops)) := by
  constructor
  · intro h hall
    refine ⟨h 0 (Nat.succ_pos hops) (by rw [Nat.zero_add, Nat.one_mul]; exact hall) nofun, ?_⟩
    intro hlink j hj hreads hlinks
    refine h (j + 1) (Nat.succ_lt_succ hj) ((forall_reads_succ d _ _).mpr ⟨hall, hreads⟩) ?_
    rw [Nat.forall_lt_succ_left]
    exact ⟨hlink, hlinks⟩
  · intro h j hj hreads hlinks
    rw [forall_reads_succ] at hreads
    obtain ⟨hmapped, hrest⟩ := h hreads.1
    cases j with
    | zero => exact hmapped
    | succ j =>
        rw [Nat.forall_lt_succ_left] at hlinks
        exact hrest hlinks.1 j (Nat.lt_of_succ_lt_succ hj) hreads.2 hlinks.2

theorem LookupsMapped.failing {d : Disk} {k : Nat} (hk : k < v.sectorsPerCluster)
    (hfail : d.succeeds (d.reads + k) = false) (cluster hops : Nat) :
    LookupsMapped v mapped d cluster hops := by
  cases hops with
  | zero => exact LookupsMapped.zero _ _
  | succ hops =>
      rw [lookupsMapped_succ]
      intro hall
      exact absurd hall (not_delivers hk hfail)

/-- A drive that delivered a cluster into the buffer does not overrun it with the next. -/
theorem not_overruns_behind {d : Disk} (hinside : ¬ Overruns v d) (hall : Delivers v d) :
    ¬ Overruns v (d.behind v.sectorsPerCluster) := by
  rintro ⟨k, hk, hover, -⟩
  exact hinside ⟨k, hk, hover, fun l hl => hall l (Nat.lt_of_le_of_lt hl hk)⟩

/-- A step to the next cluster stays inside what the call as a whole does. -/
theorem staysInside_advance (hcs : 0 < v.clusterSize) (hinside : ¬ Overruns v st.disk)
    (hall : Delivers v st.disk) (htotal : st.total < count) (hposition : st.file.position < st.file.size)
    (hmapped : v.clusterSize ≤ st.file.position % v.clusterSize + st.wanted count →
      EntryMapped v mapped st.file.currentCluster) :
    StaysInside v mapped st.disk st.file (st.wanted count) ↔ ((st.advance v count).1 = true →
      StaysInside v mapped (st.advance v count).2.disk (st.advance v count).2.file
        ((st.advance v count).2.wanted count)) := by
  have hwanted := advance_wanted hcs htotal hposition
  have hdisk : (st.advance v count).2.disk = st.disk.behind v.sectorsPerCluster := rfl
  have hposition₁ := (advance_file v count st).1
  have hoffset := Nat.mod_lt st.file.position hcs
  rcases advance_cases hcs count st with
    ⟨hless, hshare, hgoes⟩ | ⟨hfull, hshare, hend, hstops, -⟩ | ⟨hfull, hshare, hlink, hgoes, hnext⟩
  · have hnone : (st.advance v count).2.wanted count = 0 := by omega
    rw [hnone]
    refine iff_of_true ⟨fun _ => hinside, ?_⟩ fun _ => StaysInside.nothing hcs _ _
    rw [Nat.div_eq_of_lt hless]
    exact LookupsMapped.zero _ _
  · refine iff_of_true ⟨fun _ => hinside, ?_⟩ fun hgoes => ?_
    · rw [Nat.div_eq_sub_div hcs hfull, lookupsMapped_succ]
      exact fun _ => ⟨hmapped hfull, fun hlink => absurd hlink (Nat.not_lt.mpr hend)⟩
    · rw [hstops] at hgoes
      cases hgoes
  · have hstart : (st.advance v count).2.file.position % v.clusterSize = 0 := by
      rw [hposition₁, ← Nat.mod_add_mod, hshare, Nat.mod_self]
    have hrest : st.file.position % v.clusterSize + st.wanted count - v.clusterSize =
        (st.advance v count).2.file.position % v.clusterSize + (st.advance v count).2.wanted count := by
      rw [hstart]
      omega
    have hfits := not_overruns_behind hinside hall
    constructor
    · intro h _
      have hlookups := h.lookups
      rw [Nat.div_eq_sub_div hcs hfull, lookupsMapped_succ, hrest] at hlookups
      refine ⟨fun _ => hfits, ?_⟩
      rw [hnext]
      exact (hlookups hall).2 hlink
    · intro h
      refine ⟨fun _ => hinside, ?_⟩
      rw [Nat.div_eq_sub_div hcs hfull, lookupsMapped_succ, hrest]
      refine fun _ => ⟨hmapped hfull, fun _ => ?_⟩
      have hlookups := (h hgoes).lookups
      rw [hnext] at hlookups
      exact hlookups

/-- A call returns exactly when it stays in bounds. -/
theorem readLoopBounded_returns (mapped : Nat → Bool) (st : ReadState) {fuel : Nat}
    (hcs : 0 < v.clusterSize) (hfits : v.clusterSize ≤ clusterBufferSize) (htotal : st.total ≤ count)
    (hfuel : count - st.total < fuel) :
    (∃ st', readLoopBounded v mapped count fuel st = some st') ↔
      StaysInside v mapped st.disk st.file (st.wanted count) := by
  induction fuel generalizing st with
  | zero => omega
  | succ fuel ih =>
      rw [readLoopBounded]
      by_cases hcond : st.total < count ∧ st.file.position < st.file.size
      · obtain ⟨hpos, hle, hcount, hsize⟩ := share_bounds hcs hcond.1 hcond.2
        rw [if_pos hcond]
        cases hstep : readStepBounded v mapped count st with
        | none =>
            refine iff_of_false (by simp) fun h => ?_
            rcases (readStepBounded_none hcs hfits).mp hstep with hover | ⟨hall, hfull, hunmapped⟩
            · exact h.fits (by omega) hover
            · have hlookups := h.lookups
              rw [Nat.div_eq_sub_div hcs hfull, lookupsMapped_succ] at hlookups
              exact hunmapped (hlookups hall).1
        | some r =>
            have hinside : ¬ Overruns v st.disk := fun hover => by
              rw [(readStepBounded_none hcs hfits).mpr (Or.inl hover)] at hstep
              cases hstep
            rcases readStep_cases hcs count st with ⟨hall, hrun⟩ | ⟨k, buf, hk, hfail, hrun⟩
            · have hmapped : v.clusterSize ≤ st.file.position % v.clusterSize + st.wanted count →
                  EntryMapped v mapped st.file.currentCluster := by
                intro hfull
                by_contra hunmapped
                rw [(readStepBounded_none hcs hfits).mpr (Or.inr ⟨hall, hfull, hunmapped⟩)] at hstep
                cases hstep
              have hr : r = st.advance v count :=
                Option.some.inj ((readStepChecked_eq hstep).symm.trans hrun)
              have hcount₁ := (advance_accounted hcs hcond.1 hcond.2).count_le
              have htotal₁ : (st.advance v count).2.total = st.total + st.share v count := rfl
              rw [staysInside_advance hcs hinside hall hcond.1 hcond.2 hmapped, hr]
              cases hmore : (st.advance v count).1 with
              | true => simpa [hmore] using ih _ hcount₁ (by omega)
              | false => simp [hmore]
            · have hr : r = (false, _) := Option.some.inj ((readStepChecked_eq hstep).symm.trans hrun)
              rw [hr]
              exact iff_of_true ⟨_, rfl⟩ ⟨fun _ => hinside, LookupsMapped.failing hk hfail _ _⟩
      · have hnone : st.wanted count = 0 := by
          unfold ReadState.wanted
          omega
        rw [if_neg hcond, hnone]
        exact iff_of_true ⟨st, rfl⟩ (StaysInside.nothing hcs _ _)

end

/-- A `fat_read` that returned has kept its books: it wrote the bytes it counted, moved on by
as many, stayed in the file, and delivered less than it could only after a failed sector read
or at an end-of-chain mark. -/
structure SafeRead (v : FatVolume) (d : Disk) (file : FatFile) (buffer : Mem) (count : Nat)
    (st : ReadState) : Prop where
  buffer_eq : ∀ x, st.total ≤ x → st.buffer x = buffer x
  total_le : st.total ≤ count
  position_eq : st.file.position = file.position + st.total
  position_le : file.position ≤ file.size → st.file.position ≤ file.size
  short : st.total < min count (file.size - file.position) →
    (∃ k, d.reads ≤ k ∧ k < st.disk.reads ∧ d.succeeds k = false) ∨
      endOfChain ≤ v.readFatEntry st.file.currentCluster

/-- It keeps them whenever it returns, whatever the volume. -/
theorem fatRead_safe {v : FatVolume} {d : Disk} {file : FatFile} {buffer stack : Mem} {count : Nat}
    {st : ReadState} (hcs : 0 < v.clusterSize)
    (h : fatRead v d file buffer count stack = some st) : SafeRead v d file buffer count st := by
  obtain ⟨hacc, hshort⟩ := readLoop_accounted hcs (Nat.zero_le count) h
  refine ⟨hacc.buffer_eq, hacc.count_le, hacc.position_eq, hacc.position_le, fun hless => hshort ?_⟩
  rw [Nat.zero_add]
  exact hless

/-- A `fat_read` with a cluster size up to that of its buffer returns and keeps its books exactly
when no sector goes behind the buffer and no entry is looked up in unmapped memory. -/
theorem fat_read_safe_iff (v : FatVolume) (hcs : 0 < v.clusterSize)
    (hfits : v.clusterSize ≤ clusterBufferSize) (mapped : Nat → Bool) (d : Disk) (file : FatFile)
    (buffer : Mem) (count : Nat) (stack : Mem) :
    (∃ st, fatReadBounded v mapped d file buffer count stack = some st ∧
        SafeRead v d file buffer count st) ↔
      StaysInside v mapped d file (min count (file.size - file.position)) := by
  have hreturns := readLoopBounded_returns mapped ⟨file, d, 0, buffer, stack⟩ hcs hfits
    (Nat.zero_le count) (Nat.lt_succ_self _)
  constructor
  · rintro ⟨st, hrun, -⟩
    exact hreturns.mp ⟨st, hrun⟩
  · intro h
    obtain ⟨st, hrun⟩ := hreturns.mpr h
    exact ⟨st, hrun, fatRead_safe hcs (fatReadBounded_eq hrun)⟩

/-! ### A volume with small sectors -/

/-- A FAT32 volume of 1280000 sectors of 256 bytes, sixteen for a cluster. -/
def smallSectorBoot : BootSector := ⟨fun i =>
  if i = 12 then 1 else if i = 13 then 16 else if i = 14 then 1 else if i = 16 then 1
  else if i = 33 then 0x88 else if i = 34 then 0x13 else if i = 36 then 0xE2 else if i = 37 then 4
  else if i = 44 then 2 else 0⟩

def smallSectorMounted : FatFilesystem where
  boot := smallSectorBoot
  fatStart := 1
  fatSize := 1250
  rootStart := 1251
  rootCluster := 2
  dataStart := 1251
  clusterCount := 79921
  clusterSize := 4096
  fatType := .fat32
  fat := 0

theorem smallSector_mounted :
    (unmounted fun _ => true).2.fs.configure smallSectorBoot = some smallSectorMounted := by
  have hbytes : smallSectorBoot.bytesPerSector = 256 := by decide
  have hsectors : smallSectorBoot.sectorsPerCluster = 16 := by decide
  have hreserved : smallSectorBoot.reservedSectors = 1 := by decide
  have hfats : smallSectorBoot.numFats = 1 := by decide
  have hroot : smallSectorBoot.rootEntries = 0 := by decide
  have hsize : smallSectorBoot.fatSize = 1250 := by decide
  have htotal : smallSectorBoot.totalSectors = 1280000 := by decide
  have hcluster : smallSectorBoot.rootCluster = 2 := by decide
  simp [FatFilesystem.configure, smallSectorMounted, unmounted, hbytes, hsectors, hreserved, hfats,
    hroot, hsize, htotal, hcluster]

def zeroDrive : Disk := ⟨fun _ _ => 0, fun _ => true, 0⟩

/-- The clusters have 4096 bytes, but `read_cluster` puts 8192 bytes into the buffer. -/
theorem fat_read_overruns :
    (unmounted fun _ => true).2.fs.configure smallSectorBoot = some smallSectorMounted ∧
      (smallSectorMounted.volume fun _ => 0).clusterSize = clusterBufferSize ∧
      ¬ ∃ st, fatReadBounded (smallSectorMounted.volume fun _ => 0) (fun _ => true) zeroDrive
          ⟨0, 10, 2, 2⟩ (fun _ => 0) 10 (fun _ => 0) = some st ∧
        SafeRead (smallSectorMounted.volume fun _ => 0) zeroDrive ⟨0, 10, 2, 2⟩ (fun _ => 0) 10 st := by
  refine ⟨smallSector_mounted, rfl, ?_⟩
  rintro ⟨st, hrun, -⟩
  have hinside := (readLoopBounded_returns _ _ (by decide) (by decide) (by decide) (by decide)).mp ⟨st, hrun⟩
  exact hinside.fits (by decide) ⟨8, by decide, by decide, fun _ _ => rfl⟩

theorem fat_read_safe_small :
    ∃ st, fatReadBounded ⟨.fat32, 8, 100, 70000, 4096, fun _ => 0xFF⟩ (fun _ => true) zeroDrive
        ⟨0, 10, 2, 2⟩ (fun _ => 0) 10 (fun _ => 0) = some st ∧
      SafeRead ⟨.fat32, 8, 100, 70000, 4096, fun _ => 0xFF⟩ zeroDrive ⟨0, 10, 2, 2⟩ (fun _ => 0) 10 st := by
  refine (fat_read_safe_iff ⟨.fat32, 8, 100, 70000, 4096, fun _ => 0xFF⟩ (by decide) (by decide) _ _ _ _ _
    _).mpr ⟨fun _ => ?_, LookupsMapped.zero _ _⟩
  rintro ⟨k, hk, hover, -⟩
  have hlt : k < 8 := hk
  have hlast : 4096 < k * 512 + 512 := hover
  omega

end Kaviz.Fat
