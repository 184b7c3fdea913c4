import Kaviz.Memory.Pmm

/-! # Memory detection

`detect_memory` of `boot/stage2/memory_detection.asm`: the loop that asks the BIOS for
its memory map, and the sum over the map behind it. The BIOS is the list of answers it
gives. `ecx` is at once the size of the buffer, the size of the answer and the count.
The output to the screen is left out, and so is its stack.
-/

namespace Kaviz.Boot

open Bytes Memory

/-! ## The E820 scan -/

def smap : Nat := 0x534D4150

/-- What a call of the BIOS leaves. -/
structure BiosAnswer where
  carry : Bool
  edx : Nat
  /-- The entry that goes to the buffer. -/
  bytes : Mem
  /-- In `ecx`. -/
  size : Nat
  /-- In `ebx`. -/
  continuation : Nat

def BiosAnswer.entry (a : BiosAnswer) : E820Entry := .ofBytes a.bytes 0

structure E820Scan where
  edi : Nat
  ebx : Nat
  ecx : Nat
  edx : Nat
  mem : Mem

/-- `e820_entry.end`. -/
def entrySize : Nat := 24

def storeEntry (m : Mem) (a : Nat) (bytes : Mem) : Mem :=
  fun x => if a ≤ x ∧ x < a + entrySize then bytes (x - a) else m x

def E820Scan.int15 (s : E820Scan) (a : BiosAnswer) : E820Scan where
  edi := s.edi
  ebx := a.continuation
  ecx := a.size
  edx := a.edx
  mem := if a.carry then s.mem else storeEntry s.mem s.edi a.bytes

/-- `.e820_loop`; `none` is a call that has no answer. -/
def e820Loop : List BiosAnswer → E820Scan → Option E820Scan
  | [], _ => none
  | a :: answers, s =>
      let s := s.int15 a
      if a.carry then some s
      else if s.edx ≠ smap then some s
      else
        let s :=
          if readLE s.mem (s.edi + 8) 4 ≠ 0 ∨ readLE s.mem (s.edi + 12) 4 ≠ 0 then
            { s with ecx := (s.ecx + 1) % 2 ^ 32 }
          else s
        let s := { s with edi := (s.edi + entrySize) % 2 ^ 32 }
        if s.ebx ≠ 0 then e820Loop answers s else some s

def mapAddress : Nat := 0x8000

/-- `dword [0x9000 + boot_info.memory_entries]` -/
def memoryEntries (m : Mem) : Nat := readLE m (0x9000 + BootField.memoryEntries.offset) 4

def storeMap (m : Mem) (entries : Nat) : Mem :=
  writeLE (writeLE m (0x9000 + BootField.memoryEntries.offset) 4 entries)
    (0x9000 + BootField.memoryMap.offset) 4 mapAddress

def detectMemoryE820 (answers : List BiosAnswer) (m : Mem) : Option Mem :=
  (e820Loop answers ⟨mapAddress, 0, 0, smap, m⟩).map fun s => storeMap s.mem s.ecx

/-- The stores of an entry of `simple_memory_detection`, which leave the last field alone. -/
def storeRam (m : Mem) (a base length : Nat) : Mem :=
  let m := writeLE m a 4 base
  let m := writeLE m (a + 4) 4 0
  let m := writeLE m (a + 8) 4 length
  let m := writeLE m (a + 12) 4 0
  writeLE m (a + 16) 4 e820Ram

def simpleMemoryDetection (m : Mem) : Mem :=
  let m := storeRam m mapAddress 0 0x100000
  let m := storeRam m (mapAddress + entrySize) 0x100000 0x7F00000
  storeMap m 2

/-- `detect_memory`, up to the sum; the two detections between do nothing. -/
def detectMemory (answers : List BiosAnswer) (m : Mem) : Option Mem :=
  (detectMemoryE820 answers m).map fun m => if memoryEntries m ≠ 0 then m else simpleMemoryDetection m

/-! ## What a scan leaves -/

structure BiosAnswer.Successful (a : BiosAnswer) : Prop where
  carry : a.carry = false
  edx : a.edx = smap
  size : a.size = 20 ∨ a.size = 24

/-- Answers that succeed, the last of them with a zero in `ebx`. -/
inductive BiosRun : List BiosAnswer → Prop
  | last {a : BiosAnswer} (h : a.Successful) (hlast : a.continuation = 0) : BiosRun [a]
  | more {a : BiosAnswer} {answers : List BiosAnswer} (h : a.Successful) (hmore : a.continuation ≠ 0)
      (hrest : BiosRun answers) : BiosRun (a :: answers)

theorem BiosRun.ne_nil {answers : List BiosAnswer} (h : BiosRun answers) : answers ≠ [] := by
  cases h with
  | last => exact List.cons_ne_nil _ _
  | more => exact List.cons_ne_nil _ _

/-- What the scan takes for a count: the size of the last answer, and one for an entry that is
not empty. -/
def lastCount (a : BiosAnswer) : Nat := a.size + if a.entry.length = 0 then 0 else 1

section

variable {answers : List BiosAnswer} {s : E820Scan}

theorem storeEntry_inside (m : Mem) (a : Nat) (bytes : Mem) {k : Nat} (hk : k < entrySize) :
    storeEntry m a bytes (a + k) = bytes k := by
  rw [storeEntry, if_pos ⟨Nat.le_add_right a k, Nat.add_lt_add_left hk a⟩, Nat.add_sub_cancel_left]

theorem storeEntry_outside (m : Mem) (a : Nat) (bytes : Mem) {x : Nat} (hx : x < a) :
    storeEntry m a bytes x = m x := if_neg fun h => absurd h.1 (Nat.not_le.mpr hx)

/-- Words of equal bytes, at different addresses. -/
theorem readLE_shift {m m' : Mem} {a b n : Nat} (h : ∀ k, k < n → m (a + k) = m' (b + k)) :
    readLE m a n = readLE m' b n := by
  induction n generalizing a b with
  | zero => rfl
  | succ n ih =>
      have hfirst : m a = m' b := h 0 (Nat.succ_pos n)
      have hrest := ih (a := a + 1) (b := b + 1) fun k hk => by
        have hnext := h (k + 1) (Nat.succ_lt_succ hk)
        rw [Nat.add_right_comm a k 1 |>.symm.trans (Nat.add_assoc a k 1),
          Nat.add_right_comm b k 1 |>.symm.trans (Nat.add_assoc b k 1)]
        exact hnext
      rw [readLE, readLE, hfirst, hrest]

/-- An entry in memory is the entry of the answer that was stored there. -/
theorem ofBytes_eq {m bytes : Mem} {a : Nat} (h : ∀ k, k < entrySize → m (a + k) = bytes k) :
    E820Entry.ofBytes m a = .ofBytes bytes 0 := by
  have hword : ∀ j, j + 4 ≤ entrySize → readLE m (a + j) 4 = readLE bytes (0 + j) 4 := by
    intro j hj
    apply readLE_shift
    intro k hk
    rw [Nat.add_assoc, Nat.zero_add]
    exact h (j + k) (by omega)
  rw [E820Entry.ofBytes, E820Entry.ofBytes, hword 4 (by decide), hword 8 (by decide),
    hword 12 (by decide), hword 16 (by decide), hword 20 (by decide)]
  congr 1
  exact hword 0 (by decide)

/-- A turn of the scan with an answer that succeeds. -/
def E820Scan.stored (s : E820Scan) (a : BiosAnswer) : E820Scan where
  edi := (s.edi + entrySize) % 2 ^ 32
  ebx := a.continuation
  ecx := lastCount a
  edx := smap
  mem := storeEntry s.mem s.edi a.bytes

theorem length_eq_zero {e : E820Entry} : e.length = 0 ↔ ¬ (e.lengthLow ≠ 0 ∨ e.lengthHigh ≠ 0) := by
  rw [E820Entry.length]
  omega

theorem e820Loop_cons {a : BiosAnswer} (h : a.Successful) (answers : List BiosAnswer) (s : E820Scan) :
    e820Loop (a :: answers) s =
      if a.continuation ≠ 0 then e820Loop answers (s.stored a) else some (s.stored a) := by
  have hentry : E820Entry.ofBytes (storeEntry s.mem s.edi a.bytes) s.edi = a.entry :=
    ofBytes_eq fun k hk => storeEntry_inside s.mem s.edi a.bytes hk
  have hlow : readLE (storeEntry s.mem s.edi a.bytes) (s.edi + 8) 4 = a.entry.lengthLow :=
    congrArg E820Entry.lengthLow hentry
  have hhigh : readLE (storeEntry s.mem s.edi a.bytes) (s.edi + 12) 4 = a.entry.lengthHigh :=
    congrArg E820Entry.lengthHigh hentry
  have hstored : s.int15 a = ⟨s.edi, a.continuation, a.size, smap, storeEntry s.mem s.edi a.bytes⟩ := by
    rw [E820Scan.int15, h.carry, h.edx]
    rfl
  have hcounted : (if a.entry.lengthLow ≠ 0 ∨ a.entry.lengthHigh ≠ 0 then
        (⟨s.edi, a.continuation, (a.size + 1) % 2 ^ 32, smap, storeEntry s.mem s.edi a.bytes⟩ : E820Scan)
      else ⟨s.edi, a.continuation, a.size, smap, storeEntry s.mem s.edi a.bytes⟩) =
      ⟨s.edi, a.continuation, lastCount a, smap, storeEntry s.mem s.edi a.bytes⟩ := by
    rw [lastCount]
    by_cases hzero : a.entry.length = 0
    · rw [if_pos hzero, if_neg (length_eq_zero.mp hzero)]
      rfl
    · have hsize : (a.size + 1) % 2 ^ 32 = a.size + 1 := by
        rcases h.size with hsize | hsize <;> omega
      rw [if_neg hzero, if_pos (not_not.mp (mt length_eq_zero.mpr hzero)), hsize]
  rw [e820Loop]
  dsimp only
  rw [h.carry, hstored, if_neg Bool.false_ne_true, if_neg (fun hne => hne rfl), hlow, hhigh, hcounted]
  rfl

/-- A successful scan ends with the count of its last answer. -/
theorem e820Loop_count (h : BiosRun answers) :
    ∃ s', e820Loop answers s = some s' ∧ s'.ecx = lastCount (answers.getLast h.ne_nil) := by
  induction h generalizing s with
  | @last a ha hlast =>
      refine ⟨s.stored a, ?_, rfl⟩
      rw [e820Loop_cons ha, if_neg (not_not.mpr hlast)]
  | @more a answers ha hmore hrest ih =>
      obtain ⟨s', hloop, hcount⟩ := @ih (s.stored a)
      refine ⟨s', ?_, ?_⟩
      · rw [e820Loop_cons ha, if_pos hmore, hloop]
      · rw [List.getLast_cons hrest.ne_nil]
        exact hcount

/-- The entries of a successful scan lie behind each other. -/
theorem e820Loop_slots (h : BiosRun answers) (hfits : s.edi + entrySize * answers.length ≤ 2 ^ 32)
    {s' : E820Scan} (hloop : e820Loop answers s = some s') :
    (∀ x, x < s.edi → s'.mem x = s.mem x) ∧
      ∀ i (hi : i < answers.length) k, k < entrySize →
        s'.mem (s.edi + entrySize * i + k) = (answers[i]).bytes k := by
  induction h generalizing s with
  | @last a ha hlast =>
      rw [e820Loop_cons ha, if_neg (not_not.mpr hlast)] at hloop
      cases hloop
      refine ⟨fun x hx => storeEntry_outside s.mem s.edi a.bytes hx, ?_⟩
      intro i hi k hk
      obtain rfl : i = 0 := Nat.lt_one_iff.mp hi
      exact storeEntry_inside s.mem s.edi a.bytes hk
  | @more a answers ha hmore hrest ih =>
      have hpos : 0 < answers.length := List.length_pos_iff.mpr hrest.ne_nil
      rw [List.length_cons, Nat.mul_succ] at hfits
      rw [e820Loop_cons ha, if_pos hmore] at hloop
      have hedi : (s.stored a).edi = s.edi + entrySize := Nat.mod_eq_of_lt (by
        rw [entrySize] at hfits ⊢
        omega)
      obtain ⟨hbelow, hslots⟩ := @ih (s.stored a) (by rw [hedi]; omega) hloop
      rw [hedi] at hbelow hslots
      refine ⟨?_, ?_⟩
      · intro x hx
        rw [hbelow x (Nat.lt_add_right _ hx)]
        exact storeEntry_outside s.mem s.edi a.bytes hx
      · intro i hi k hk
        cases i with
        | zero =>
            rw [Nat.mul_zero, Nat.add_zero, hbelow _ (Nat.add_lt_add_left hk _)]
            exact storeEntry_inside s.mem s.edi a.bytes hk
        | succ i =>
            have hslot := hslots i (Nat.lt_of_succ_lt_succ hi) k hk
            rw [Nat.add_assoc s.edi, Nat.add_comm entrySize, ← Nat.mul_succ] at hslot
            exact hslot

end

/-! ## What the scan records -/

/-- The answers with an entry that is not empty. -/
def found (answers : List BiosAnswer) : List BiosAnswer :=
  answers.filter fun a => decide (a.entry.length ≠ 0)

/-- `memory_entries` is the number of these answers. -/
def CountsMap (answers : List BiosAnswer) (m : Mem) : Prop :=
  ∃ m', detectMemoryE820 answers m = some m' ∧ memoryEntries m' = (found answers).length

/-- `memory_entries` is the number of these answers, and the map is their entries in order. -/
def RecordsMap (answers : List BiosAnswer) (m : Mem) : Prop :=
  ∃ m', detectMemoryE820 answers m = some m' ∧ memoryEntries m' = (found answers).length ∧
    ∀ i (hi : i < (found answers).length) k, k < entrySize →
      m' (mapAddress + entrySize * i + k) = ((found answers)[i]).bytes k

section Lists

variable {α : Type*} {p : α → Bool} {l : List α}

/-- A list that starts with as many hits as it has at all has no others. -/
theorem filter_eq_take (h : ∀ a ∈ l.take (l.filter p).length, p a = true) :
    l.filter p = l.take (l.filter p).length := by
  have hle : (l.filter p).length ≤ l.length := List.length_filter_le p l
  have hsplit : l.filter p = l.take (l.filter p).length ++ (l.drop (l.filter p).length).filter p := by
    conv_lhs => rw [← List.take_append_drop (l.filter p).length l, List.filter_append]
    rw [List.filter_eq_self.mpr h]
  have hlength := congrArg List.length hsplit
  rw [List.length_append, List.length_take, Nat.min_eq_left hle] at hlength
  have hnone : (l.drop (l.filter p).length).filter p = [] := List.eq_nil_of_length_eq_zero (by omega)
  rw [hnone, List.append_nil] at hsplit
  exact hsplit

end Lists

theorem memoryEntries_storeMap (m : Mem) (entries : Nat) :
    memoryEntries (storeMap m entries) = entries % 2 ^ 32 := by
  have hwidth : 256 ^ 4 = 2 ^ 32 := by decide
  rw [memoryEntries, storeMap, readLE_writeLE_disjoint _ _ (by decide), readLE_writeLE_same, hwidth]

theorem storeMap_below (m : Mem) (entries : Nat) {x : Nat} (h : x < 0x9004) :
    storeMap m entries x = m x := by
  have hentries : x < 0x9000 + BootField.memoryEntries.offset := Nat.lt_of_lt_of_le h (by decide)
  have hmap : x < 0x9000 + BootField.memoryMap.offset := h
  rw [storeMap, writeLE_outside _ _ (Or.inl hmap), writeLE_outside _ _ (Or.inl hentries)]

section

variable {answers : List BiosAnswer}

theorem BiosRun.successful (h : BiosRun answers) : ∀ a ∈ answers, a.Successful := by
  induction h with
  | last ha =>
      intro a hmem
      rw [List.mem_singleton.mp hmem]
      exact ha
  | more ha _ _ ih =>
      intro a hmem
      rcases List.mem_cons.mp hmem with rfl | hmem
      · exact ha
      · exact ih a hmem

theorem lastCount_bounds {a : BiosAnswer} (h : a.Successful) : 20 ≤ lastCount a ∧ lastCount a ≤ 25 := by
  rw [lastCount]
  rcases h.size with hsize | hsize
  · rw [hsize]
    split <;> omega
  · rw [hsize]
    split <;> omega

theorem BiosRun.last_successful (h : BiosRun answers) : (answers.getLast h.ne_nil).Successful :=
  h.successful _ (List.getLast_mem h.ne_nil)

/-- What `detect_memory_e820` leaves of a run: the count of its last answer, and in front of the
boot information the entries of all of them if they lie in 32-bit addresses. -/
theorem detectMemoryE820_spec (h : BiosRun answers) (m : Mem) :
    ∃ m', detectMemoryE820 answers m = some m' ∧
      memoryEntries m' = lastCount (answers.getLast h.ne_nil) ∧
      (mapAddress + entrySize * answers.length ≤ 2 ^ 32 →
        ∀ i (hi : i < answers.length), i < 25 → ∀ k, k < entrySize →
          m' (mapAddress + entrySize * i + k) = (answers[i]).bytes k) := by
  obtain ⟨s, hloop, hcount⟩ := @e820Loop_count _ ⟨mapAddress, 0, 0, smap, m⟩ h
  have hbounds := lastCount_bounds h.last_successful
  refine ⟨storeMap s.mem s.ecx, ?_, ?_, ?_⟩
  · rw [detectMemoryE820, hloop, Option.map_some]
  · rw [memoryEntries_storeMap, hcount]
    exact Nat.mod_eq_of_lt (by omega)
  · intro hfits i hi hsmall k hk
    obtain ⟨-, hslots⟩ := e820Loop_slots h hfits hloop
    rw [storeMap_below _ _ (by rw [mapAddress, entrySize] at *; omega)]
    exact hslots i hi k hk

theorem countsMap_iff (h : BiosRun answers) (m : Mem) :
    CountsMap answers m ↔ (found answers).length = lastCount (answers.getLast h.ne_nil) := by
  obtain ⟨m', hdetect, hentries, -⟩ := detectMemoryE820_spec h m
  rw [← hentries]
  constructor
  · rintro ⟨m'', hdetect', hcount⟩
    rw [hdetect] at hdetect'
    cases hdetect'
    exact hcount.symm
  · intro hcount
    exact ⟨m', hdetect, hcount.symm⟩

theorem recordsMap_iff (h : BiosRun answers)
    (hfits : mapAddress + entrySize * answers.length ≤ 2 ^ 32) (m : Mem) :
    RecordsMap answers m ↔
      (found answers).length = lastCount (answers.getLast h.ne_nil) ∧
        ∀ a ∈ answers.take (found answers).length, a.entry.length ≠ 0 := by
  obtain ⟨m', hdetect, hentries, hslots⟩ := detectMemoryE820_spec h m
  have hbounds := lastCount_bounds h.last_successful
  have hle : (found answers).length ≤ answers.length := List.length_filter_le _ _
  constructor
  · rintro ⟨m'', hdetect', hcount, hmap⟩
    rw [hdetect] at hdetect'
    cases hdetect'
    rw [hentries] at hcount
    refine ⟨hcount.symm, fun a ha => ?_⟩
    obtain ⟨i, hi, rfl⟩ := List.mem_iff_getElem.mp ha
    have hn : i < (found answers).length := Nat.lt_of_lt_of_le hi (List.length_take_le _ _)
    rw [List.getElem_take]
    have hbytes : ∀ k, k < entrySize →
        (answers[i]).bytes (0 + k) = ((found answers)[i]).bytes k := by
      intro k hk
      rw [Nat.zero_add, ← hslots hfits i (Nat.lt_of_lt_of_le hn hle) (by omega) k hk]
      exact hmap i hn k hk
    have hmem : (found answers)[i] ∈ found answers := List.getElem_mem hn
    have hnonzero := of_decide_eq_true (List.mem_filter.mp hmem).2
    rw [BiosAnswer.entry, ofBytes_eq hbytes]
    exact hnonzero
  · rintro ⟨hcount, hfirst⟩
    have htake : found answers = answers.take (found answers).length :=
      filter_eq_take fun a ha => decide_eq_true (hfirst a ha)
    refine ⟨m', hdetect, hentries.trans hcount.symm, fun i hi k hk => ?_⟩
    have hget : (found answers)[i] = answers[i] := by
      have hnth : (found answers)[i]? = (answers.take (found answers).length)[i]? :=
        congrArg (fun l => l[i]?) htake
      rw [List.getElem?_take_of_lt hi, List.getElem?_eq_getElem hi,
        List.getElem?_eq_getElem (Nat.lt_of_lt_of_le hi hle)] at hnth
      exact Option.some.inj hnth
    rw [hget]
    exact hslots hfits i (Nat.lt_of_lt_of_le hi hle) (by omega) k hk

/-- The scan counts its answers if and only if the number of entries that are not empty happens to
be the size of the last answer, plus one if that is not empty itself. As long as the map lies in
32-bit addresses, it records them if and only if so many answers from the first on are not empty
as well. -/
theorem e820_scan_iff (h : BiosRun answers) (m : Mem) :
    (CountsMap answers m ↔ (found answers).length = lastCount (answers.getLast h.ne_nil)) ∧
      (mapAddress + entrySize * answers.length ≤ 2 ^ 32 → (RecordsMap answers m ↔
        (found answers).length = lastCount (answers.getLast h.ne_nil) ∧
          ∀ a ∈ answers.take (found answers).length, a.entry.length ≠ 0)) :=
  ⟨countsMap_iff h m, fun hfits => recordsMap_iff h hfits m⟩

/-- After a run there is no other detection. -/
theorem detectMemory_run (h : BiosRun answers) (m : Mem) :
    detectMemory answers m = detectMemoryE820 answers m := by
  obtain ⟨m', hdetect, hentries, -⟩ := detectMemoryE820_spec h m
  have hbounds := lastCount_bounds h.last_successful
  rw [detectMemory, hdetect, Option.map_some, if_pos (by omega)]

theorem BiosRun.replicate {a : BiosAnswer} (ha : a.Successful) (hmore : a.continuation ≠ 0) (n : Nat)
    (h : BiosRun answers) : BiosRun (List.replicate n a ++ answers) := by
  induction n with
  | zero => exact h
  | succ n ih => exact .more ha hmore ih

end

/-- An entry of 256 bytes of RAM. -/
def ramBytes : Mem := fun i => if i = 9 then 1 else if i = 16 then 1 else 0

def twentyAnswers : List BiosAnswer :=
  List.replicate 20 ⟨false, smap, ramBytes, 20, 1⟩ ++ [⟨false, smap, fun _ => 0, 20, 0⟩]

theorem twentyAnswers_run : BiosRun twentyAnswers :=
  BiosRun.replicate ⟨rfl, rfl, Or.inl rfl⟩ Nat.one_ne_zero 20 (.last ⟨rfl, rfl, Or.inl rfl⟩ rfl)

theorem e820_scan_twenty : RecordsMap twentyAnswers fun _ => 0 :=
  ((e820_scan_iff twentyAnswers_run _).2 (by decide)).mpr ⟨by decide, by decide⟩

/-- The only answer, with an entry that is not empty. -/
def onlyAnswer : BiosAnswer := ⟨false, smap, ramBytes, 20, 0⟩

/-- One entry is counted as twenty-one. -/
theorem e820_scan_miscounts : BiosRun [onlyAnswer] ∧ ¬ RecordsMap [onlyAnswer] fun _ => 0 := by
  have hrun : BiosRun [onlyAnswer] := .last ⟨rfl, rfl, Or.inl rfl⟩ rfl
  have hcounts : lastCount onlyAnswer ≠ (found [onlyAnswer]).length := by decide
  refine ⟨hrun, ?_⟩
  rintro ⟨m', hdetect, hcount, -⟩
  obtain ⟨m'', hdetect', hentries, -⟩ := detectMemoryE820_spec hrun fun _ => 0
  rw [hdetect'] at hdetect
  cases hdetect
  rw [hentries] at hcount
  exact hcounts hcount

/-! ## The sum -/

/-- The registers of `calculate_total_ram`, and what it pushes. -/
structure RamSum where
  edi : Nat
  ebx : Nat
  ecx : Nat
  esi : Nat
  stack : List Nat

namespace RamSum

def push (s : RamSum) (v : Nat) : RamSum := { s with stack := v :: s.stack }

def popEsi (s : RamSum) : RamSum := { s with esi := s.stack.headD 0, stack := s.stack.tail }

def popEcx (s : RamSum) : RamSum := { s with ecx := s.stack.headD 0, stack := s.stack.tail }

/-- `add edi, [low]` and `adc ebx, [high]` -/
def addLength (s : RamSum) (e : E820Entry) : RamSum :=
  { s with
    edi := (s.edi + e.lengthLow) % 2 ^ 32
    ebx := (s.ebx + e.lengthHigh + (s.edi + e.lengthLow) / 2 ^ 32) % 2 ^ 32 }

/-- The count of `loop`. -/
def countDown (s : RamSum) : RamSum :=
  { s with ecx := if s.ecx = 0 then 2 ^ 32 - 1 else s.ecx - 1 }

def total (s : RamSum) : Nat := s.edi + 2 ^ 32 * s.ebx

end RamSum

/-- `.calculate_loop`, up to `loop`. -/
def ramTurn (m : Mem) (s : RamSum) : RamSum :=
  let s := s.push s.ecx
  let s := s.push s.esi
  let e := E820Entry.ofBytes m s.esi
  let s := if e.type = e820Ram then s.addLength e else s
  let s := { s with esi := (s.esi + entrySize) % 2 ^ 32 }
  s.popEsi.popEcx

/-- The turns, up to `.print_total`; `none` is a loop that is not over within `fuel` turns. -/
def ramLoop (m : Mem) : Nat → RamSum → Option RamSum
  | 0, _ => none
  | fuel + 1, s =>
      let s := (ramTurn m s).countDown
      if s.ecx ≠ 0 then ramLoop m fuel s else some s

/-- `calculate_total_ram`, up to `.print_total`; `none` is `.no_entries` too. -/
def calculateTotalRam (m : Mem) : Option RamSum :=
  if memoryEntries m = 0 then none
  else ramLoop m (memoryEntries m) ⟨0, 0, memoryEntries m, mapAddress, []⟩

def ramLength (e : E820Entry) : Nat := if e.type = e820Ram then e.length else 0

def bootMap (m : Mem) : List E820Entry :=
  (List.range (memoryEntries m)).map fun i => .ofBytes m (mapAddress + entrySize * i)

section

variable {m : Mem}

/-- `pop esi` takes the step to the next entry back. -/
theorem ramTurn_eq (m : Mem) (s : RamSum) : ramTurn m s =
    if (E820Entry.ofBytes m s.esi).type = e820Ram then s.addLength (.ofBytes m s.esi) else s := by
  by_cases hram : (E820Entry.ofBytes m s.esi).type = e820Ram
  · simp only [ramTurn, RamSum.push, hram, if_true]
    rfl
  · simp only [ramTurn, RamSum.push, hram, if_false]
    rfl

theorem addLength_total (s : RamSum) (e : E820Entry) :
    (s.addLength e).total = (s.total + e.length) % 2 ^ 64 := by
  show (s.edi + e.lengthLow) % 2 ^ 32 +
    2 ^ 32 * ((s.ebx + e.lengthHigh + (s.edi + e.lengthLow) / 2 ^ 32) % 2 ^ 32) =
      (s.edi + 2 ^ 32 * s.ebx + (e.lengthLow + 2 ^ 32 * e.lengthHigh)) % 2 ^ 64
  omega

theorem ramTurn_total {s : RamSum} (h : s.total < 2 ^ 64) :
    (ramTurn m s).total = (s.total + ramLength (.ofBytes m s.esi)) % 2 ^ 64 := by
  rw [ramTurn_eq, ramLength]
  split
  · exact addLength_total s _
  · rw [Nat.add_zero, Nat.mod_eq_of_lt h]

theorem ramTurn_registers (m : Mem) (s : RamSum) :
    (ramTurn m s).esi = s.esi ∧ (ramTurn m s).ecx = s.ecx := by
  rw [ramTurn_eq]
  split <;> exact ⟨rfl, rfl⟩

theorem countDown_total (s : RamSum) : s.countDown.total = s.total := rfl

theorem countDown_esi (s : RamSum) : s.countDown.esi = s.esi := rfl

theorem countDown_ecx {s : RamSum} {n : Nat} (h : s.ecx = n + 1) : s.countDown.ecx = n := by
  rw [RamSum.countDown, h, if_neg (Nat.succ_ne_zero n)]
  exact Nat.add_sub_cancel n 1

theorem ramLoop_total (n : Nat) {s : RamSum} (hecx : s.ecx = n + 1)
    (h : s.total < 2 ^ 64) : ∃ s', ramLoop m (n + 1) s = some s' ∧
      s'.total = (s.total + (n + 1) * ramLength (.ofBytes m s.esi)) % 2 ^ 64 := by
  induction n generalizing s with
  | zero =>
      have hdone := countDown_ecx ((ramTurn_registers m s).2.trans hecx)
      rw [ramLoop, if_neg (not_not.mpr hdone)]
      refine ⟨_, rfl, ?_⟩
      rw [countDown_total, ramTurn_total h, Nat.zero_add, Nat.one_mul]
  | succ n ih =>
      have hleft := countDown_ecx ((ramTurn_registers m s).2.trans hecx)
      have htotal : (ramTurn m s).countDown.total =
          (s.total + ramLength (.ofBytes m s.esi)) % 2 ^ 64 := by
        rw [countDown_total, ramTurn_total h]
      have hlt : (ramTurn m s).countDown.total < 2 ^ 64 := by
        rw [htotal]
        exact Nat.mod_lt _ (by decide)
      obtain ⟨s', hloop, hsum⟩ := ih hleft hlt
      rw [ramLoop, if_pos (by rw [hleft]; exact Nat.succ_ne_zero n)]
      refine ⟨s', hloop, ?_⟩
      rw [hsum, countDown_esi, (ramTurn_registers m s).1, htotal, Nat.mod_add_mod, Nat.add_assoc,
        ← Nat.add_comm (_ * _), ← Nat.succ_mul]

theorem calculateTotalRam_total (h : memoryEntries m ≠ 0) : ∃ s, calculateTotalRam m = some s ∧
    s.total = memoryEntries m * ramLength (.ofBytes m mapAddress) % 2 ^ 64 := by
  rw [calculateTotalRam, if_neg h]
  obtain ⟨n, hn⟩ := Nat.exists_eq_succ_of_ne_zero h
  rw [hn]
  have hzero : (⟨0, 0, n + 1, mapAddress, []⟩ : RamSum).total = 0 := rfl
  obtain ⟨s, hloop, htotal⟩ := ramLoop_total (m := m) n
    (s := ⟨0, 0, n + 1, mapAddress, []⟩) rfl (by rw [hzero]; decide)
  refine ⟨s, hloop, ?_⟩
  rw [htotal, hzero, Nat.zero_add]

/-- The sum of the map is that of its RAM if and only if the first entry, taken as often as there
are entries, comes to the same. -/
theorem total_ram_iff (h : memoryEntries m ≠ 0) :
    (∃ s, calculateTotalRam m = some s ∧ s.total = ((bootMap m).map ramLength).sum % 2 ^ 64) ↔
      memoryEntries m * ramLength (.ofBytes m mapAddress) % 2 ^ 64 =
        ((bootMap m).map ramLength).sum % 2 ^ 64 := by
  obtain ⟨s, hcall, htotal⟩ := calculateTotalRam_total h
  rw [← htotal]
  constructor
  · rintro ⟨s', hcall', hsum⟩
    rw [hcall] at hcall'
    cases hcall'
    exact hsum
  · intro hsum
    exact ⟨s, hcall, hsum⟩

end

def twoEntries (first second : UInt8) : Mem := fun a =>
  if a = 0x8009 then 1 else if a = 0x8010 then first else if a = 0x8021 then 1
  else if a = 0x8028 then second else if a = 0x9008 then 2 else 0

theorem total_ram_two : ∃ s, calculateTotalRam (twoEntries 1 1) = some s ∧
    s.total = ((bootMap (twoEntries 1 1)).map ramLength).sum % 2 ^ 64 :=
  (total_ram_iff (by decide)).mpr (by decide)

/-- The reserved entry behind the RAM counts as RAM. -/
theorem total_ram_miscounts : ∃ s, calculateTotalRam (twoEntries 1 2) = some s ∧
    s.total ≠ ((bootMap (twoEntries 1 2)).map ramLength).sum % 2 ^ 64 := by
  obtain ⟨s, hcall, htotal⟩ := calculateTotalRam_total (m := twoEntries 1 2) (by decide)
  refine ⟨s, hcall, ?_⟩
  rw [htotal]
  decide

end Kaviz.Boot
