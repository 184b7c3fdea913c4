import Kaviz.Kernel.Stacks
import Kaviz.Lib.Traces
import Mathlib.Algebra.Order.Ring.Nat
import Mathlib.Data.Finset.Card
import Mathlib.Data.Finset.Range

/-! # The process table

`process_get_by_pid`, `process_create`, `process_exit` and `process_switch` of
`kernel/process.c` as operations on the table alone. A read of the table is checked
against its length. `process_switch` lets `save_context` write over the context of
the process it leaves, and over the entry point behind it.
-/

namespace Kaviz.Kernel

open Traces

namespace Processes

/-- `processes[i]`; `none` is a read outside the table. -/
def slotAt (p : Processes) (i : Nat) : Option Process :=
  if i < maxProcesses then some (p.processes i) else none

/-- `process_get_by_pid`: the slot its result points at. -/
def getByPid (p : Processes) (pid : Nat) : Option (Option Nat) :=
  if pid ≥ maxProcesses then some none
  else (p.slotAt pid).map fun q => if q.state = .terminated then none else some pid

/-- `process_create`, with the pid it returns; the pages are left to the memory manager. -/
def createNew (p : Processes) (entry : Nat) (name : List UInt8) : Nat × Processes :=
  match p.slot with
  | none => (0, p)
  | some pid => (pid, p.create pid entry name)

/-- `process_switch`, between slots. What `save_context` stores is given. -/
def switch (p : Processes) (old new : Nat) (saved : Registers) (word : Nat) : Processes :=
  { p with
    currentPid := (p.processes new).pid
    processes := Function.update p.processes old { p.processes old with
      context := saved
      entryPoint := word } }

def live (p : Processes) : Finset Nat :=
  (Finset.range maxProcesses).filter fun i => (p.processes i).state ≠ .terminated

end Processes

/-- Calls that change the table. -/
inductive TableCall
  | create (entry : Nat) (name : List UInt8)
  | exit (pid : Nat)
  | switch (old new : Nat) (saved : Registers) (word : Nat)

/-- A switch goes to a live process. -/
def TableCall.step (p : Processes) : TableCall → Option Processes
  | .create entry name => some (p.createNew entry name).2
  | .exit pid => some (p.exit pid)
  | .switch old new saved word =>
      if old < maxProcesses ∧ new ∈ p.live then some (p.switch old new saved word) else none

theorem processCreate_procs {σ : Type} (M : Memory.Machine σ) (k : KernelState σ) (entry : Nat)
    (name : List UInt8) :
    (k.processCreate M entry name).1 = (k.procs.createNew entry name).1 ∧
      (k.processCreate M entry name).2.procs = (k.procs.createNew entry name).2 := by
  unfold KernelState.processCreate Processes.createNew
  cases k.procs.slot with
  | none => exact ⟨rfl, rfl⟩
  | some pid => exact ⟨rfl, rfl⟩

namespace Processes

variable {p : Processes} {pid : Nat}

theorem mem_live {i : Nat} :
    i ∈ p.live ↔ i < maxProcesses ∧ (p.processes i).state ≠ .terminated := by
  rw [live, Finset.mem_filter, Finset.mem_range]

structure Consistent (p : Processes) : Prop where
  count : p.processCount = p.live.card
  zero : 0 ∉ p.live
  pid : ∀ i ∈ p.live, (p.processes i).pid = i

theorem init_live (p : Processes) : p.init.live = ∅ := by
  apply Finset.eq_empty_of_forall_notMem
  intro i hi
  rw [mem_live] at hi
  exact hi.2 (by simp [init, hi.1])

theorem init_consistent (p : Processes) : p.init.Consistent := by
  constructor
  · rw [init_live]
    rfl
  · rw [init_live]
    simp
  · rw [init_live]
    simp

theorem Consistent.card_lt (h : p.Consistent) : p.live.card < maxProcesses := by
  have hsub : p.live ⊆ (Finset.range maxProcesses).erase 0 := by
    intro i hi
    rw [Finset.mem_erase, Finset.mem_range]
    refine ⟨?_, (mem_live.1 hi).1⟩
    intro hzero
    exact h.zero (hzero ▸ hi)
  have hcard := Finset.card_le_card hsub
  rw [Finset.card_erase_of_mem (by decide), Finset.card_range] at hcard
  unfold maxProcesses at hcard ⊢
  omega

/-- The search fails exactly when every slot but the first is live. -/
theorem Consistent.slot_eq_none_iff (h : p.Consistent) :
    p.slot = none ↔ ∀ i, 0 < i → i < maxProcesses → i ∈ p.live := by
  have hroom : ¬ p.processCount ≥ maxProcesses := by
    rw [h.count]
    exact Nat.not_le.2 h.card_lt
  rw [slot, if_neg hroom, freeSlot, List.find?_eq_none]
  constructor
  · intro hall i hpos hi
    have hmem : i ∈ List.range' 1 (maxProcesses - 1) := by
      rw [List.mem_range'_1]
      omega
    rw [mem_live]
    exact ⟨hi, by simpa using hall i hmem⟩
  · intro hall i hmem
    rw [List.mem_range'_1] at hmem
    have hlive := hall i (by omega) (by unfold maxProcesses at hmem ⊢; omega)
    simpa using (mem_live.1 hlive).2

theorem create_other (p : Processes) (entry : Nat) (name : List UInt8) {i : Nat} (hi : i ≠ pid) :
    ((p.create pid entry name).processes i).pid = (p.processes i).pid ∧
      ((p.create pid entry name).processes i).state = (p.processes i).state ∧
      ((p.create pid entry name).processes i).context = (p.processes i).context ∧
      ((p.create pid entry name).processes i).userStack = (p.processes i).userStack ∧
      ((p.create pid entry name).processes i).kernelStack = (p.processes i).kernelStack := by
  unfold create
  by_cases hcurrent : p.currentPid = 0
  · simp [hcurrent, hi]
  · by_cases hsame : i = p.currentPid
    · subst hsame
      simp [hcurrent, hi]
    · simp [hcurrent, hsame, hi]

theorem create_live (p : Processes) (hpid : pid < maxProcesses) (entry : Nat) (name : List UInt8) :
    (p.create pid entry name).live = insert pid p.live := by
  ext i
  rw [Finset.mem_insert, mem_live, mem_live]
  by_cases hi : i = pid
  · subst hi
    simp [create_self, hpid]
  · simp [(create_other p entry name hi).2.1, hi]

theorem Consistent.create (h : p.Consistent) (hslot : p.slot = some pid) (entry : Nat)
    (name : List UInt8) : (p.create pid entry name).Consistent := by
  obtain ⟨hpos, hlt, hfree⟩ := slot_bounds hslot
  have hnew : pid ∉ p.live := fun hmem => (mem_live.1 hmem).2 hfree
  have hcard := h.card_lt
  constructor
  · rw [create_live p hlt, Finset.card_insert_of_notMem hnew, ← h.count]
    rw [← h.count] at hcard
    exact Nat.mod_eq_of_lt (by unfold maxProcesses at hcard; omega)
  · rw [create_live p hlt, Finset.mem_insert]
    rintro (hzero | hmem)
    · omega
    · exact h.zero hmem
  · intro i hi
    rw [create_live p hlt, Finset.mem_insert] at hi
    by_cases hself : i = pid
    · rw [hself]
      exact (create_self p entry name).1
    · rw [(create_other p entry name hself).1]
      exact h.pid i (hi.resolve_left hself)

theorem exit_live {i : Nat} (hi : i < maxProcesses) (hlive : (p.processes i).state ≠ .terminated) :
    (p.exit i).live = p.live.erase i := by
  have hguard : ¬ (i ≥ maxProcesses ∨ (p.processes i).state = .terminated) := by
    rw [not_or]
    exact ⟨Nat.not_le.2 hi, hlive⟩
  ext j
  rw [Finset.mem_erase, mem_live, mem_live, exit, if_neg hguard]
  by_cases hj : j = i
  · simp [hj]
  · simp [hj]

theorem Consistent.exit (h : p.Consistent) (pid : Nat) : (p.exit pid).Consistent := by
  by_cases hguard : pid ≥ maxProcesses ∨ (p.processes pid).state = .terminated
  · rw [Processes.exit, if_pos hguard]
    exact h
  · obtain ⟨hlt, hlive⟩ := not_or.1 hguard
    have hmem : pid ∈ p.live := mem_live.2 ⟨Nat.lt_of_not_le hlt, hlive⟩
    have hset := exit_live (Nat.lt_of_not_le hlt) hlive
    have hcard := h.card_lt
    have hpos : 0 < p.live.card := Finset.card_pos.2 ⟨pid, hmem⟩
    have hcount := h.count
    constructor
    · rw [hset, Finset.card_erase_of_mem hmem, Processes.exit, if_neg hguard]
      dsimp only
      unfold maxProcesses at hcard
      omega
    · rw [hset]
      exact fun hzero => h.zero (Finset.mem_of_mem_erase hzero)
    · intro i hi
      rw [hset, Finset.mem_erase] at hi
      rw [Processes.exit, if_neg hguard]
      dsimp only
      rw [Function.update_of_ne hi.1]
      exact h.pid i hi.2

theorem switch_slot (p : Processes) (old new : Nat) (saved : Registers) (word i : Nat) :
    ((p.switch old new saved word).processes i).pid = (p.processes i).pid ∧
      ((p.switch old new saved word).processes i).state = (p.processes i).state := by
  unfold switch
  by_cases hi : i = old
  · subst hi
    simp
  · simp [hi]

theorem Consistent.switch (h : p.Consistent) (old new : Nat) (saved : Registers) (word : Nat) :
    (p.switch old new saved word).Consistent := by
  have hlive : (p.switch old new saved word).live = p.live := by
    ext i
    rw [mem_live, mem_live, (switch_slot p old new saved word i).2]
  constructor
  · rw [hlive]
    exact h.count
  · rw [hlive]
    exact h.zero
  · rw [hlive]
    intro i hi
    rw [(switch_slot p old new saved word i).1]
    exact h.pid i hi

/-- A pid is found exactly when it is live; nothing outside the table is read. -/
theorem getByPid_eq (p : Processes) (pid : Nat) :
    p.getByPid pid = some (if pid ∈ p.live then some pid else none) := by
  unfold getByPid
  by_cases hlt : pid < maxProcesses
  · rw [if_neg (Nat.not_le.2 hlt), slotAt, if_pos hlt, Option.map_some]
    by_cases hstate : (p.processes pid).state = .terminated
    · rw [if_pos hstate, if_neg (fun hmem => (mem_live.1 hmem).2 hstate)]
    · rw [if_neg hstate, if_pos (mem_live.2 ⟨hlt, hstate⟩)]
  · rw [if_pos (Nat.le_of_not_lt hlt), if_neg (fun hmem => hlt (mem_live.1 hmem).1)]

/-- What `process_create` answers, and what it leaves alone. -/
theorem Consistent.createNew_spec (h : p.Consistent) (entry : Nat) (name : List UInt8) :
    ((p.createNew entry name).1 = 0 ↔ ∀ i, 0 < i → i < maxProcesses → i ∈ p.live) ∧
      ((p.createNew entry name).1 ≠ 0 → (p.createNew entry name).1 ∉ p.live ∧
        ∀ i, i ≠ (p.createNew entry name).1 →
          ((p.createNew entry name).2.processes i).pid = (p.processes i).pid ∧
          ((p.createNew entry name).2.processes i).state = (p.processes i).state ∧
          ((p.createNew entry name).2.processes i).context = (p.processes i).context ∧
          ((p.createNew entry name).2.processes i).userStack = (p.processes i).userStack ∧
          ((p.createNew entry name).2.processes i).kernelStack = (p.processes i).kernelStack) := by
  rw [← h.slot_eq_none_iff]
  unfold createNew
  cases hslot : p.slot with
  | none => simp
  | some pid =>
      obtain ⟨hpos, -, hfree⟩ := slot_bounds hslot
      dsimp only
      refine ⟨?_, fun _ => ⟨fun hmem => (mem_live.1 hmem).2 hfree, ?_⟩⟩
      · simp only [reduceCtorEq, iff_false]
        omega
      · intro i hi
        exact create_other p entry name hi

end Processes

theorem TableCall.step_consistent {p q : Processes} {call : TableCall} (h : p.Consistent)
    (hstep : call.step p = some q) : q.Consistent := by
  cases call with
  | create entry name =>
      obtain rfl : (p.createNew entry name).2 = q := Option.some.inj hstep
      unfold Processes.createNew
      cases hslot : p.slot with
      | none => exact h
      | some pid => exact h.create hslot entry name
  | exit pid =>
      obtain rfl : p.exit pid = q := Option.some.inj hstep
      exact h.exit pid
  | switch old new saved word =>
      unfold TableCall.step at hstep
      dsimp only at hstep
      split at hstep
      · obtain rfl : p.switch old new saved word = q := Option.some.inj hstep
        exact h.switch old new saved word
      · cases hstep

/-- After every run of the calls that change the table, the counter, the flags and the pids
agree, a lookup finds exactly the live pids without leaving the table, and a new process
gets a slot that is not live unless all are. -/
theorem process_table_consistent (p : Processes) {ts : List (Step Processes TableCall)}
    {q : Processes} (h : Trace (fun p call => TableCall.step p call) p.init ts q) :
    (q.processCount = q.live.card ∧ 0 ∉ q.live ∧ ∀ i ∈ q.live, (q.processes i).pid = i) ∧
      (∀ pid, q.getByPid pid = some (if pid ∈ q.live then some pid else none)) ∧
      ∀ entry name,
        ((q.createNew entry name).1 = 0 ↔ ∀ i, 0 < i → i < 64 → i ∈ q.live) ∧
        ((q.createNew entry name).1 ≠ 0 → (q.createNew entry name).1 ∉ q.live ∧
          ∀ i, i ≠ (q.createNew entry name).1 →
            ((q.createNew entry name).2.processes i).pid = (q.processes i).pid ∧
            ((q.createNew entry name).2.processes i).state = (q.processes i).state ∧
            ((q.createNew entry name).2.processes i).context = (q.processes i).context ∧
            ((q.createNew entry name).2.processes i).userStack = (q.processes i).userStack ∧
            ((q.createNew entry name).2.processes i).kernelStack = (q.processes i).kernelStack) := by
  have hq : q.Consistent :=
    h.inv p.init_consistent fun hinv hstep => TableCall.step_consistent hinv hstep
  exact ⟨⟨hq.count, hq.zero, hq.pid⟩, q.getByPid_eq, hq.createNew_spec⟩

/-- A process is created and ended, and its slot is used again. -/
theorem process_table_consistent_reused : ∃ ts q, ts.map Step.op =
      [TableCall.create 0x400000 [], .exit 1, .exit 9, .create 0x500000 []] ∧
    Trace (fun p call => TableCall.step p call) clearedProcesses.init ts q ∧
      q.processCount = q.live.card := by
  have h : Trace (fun p call => TableCall.step p call) clearedProcesses.init
      [⟨_, .create 0x400000 [], _⟩, ⟨_, .exit 1, _⟩, ⟨_, .exit 9, _⟩, ⟨_, .create 0x500000 [], _⟩] _ :=
    .cons rfl (.cons rfl (.cons rfl (.cons rfl (.nil _))))
  exact ⟨_, _, rfl, h, (process_table_consistent clearedProcesses h).1.1⟩

end Kaviz.Kernel
