import Kaviz.Lib.Traces
import Kaviz.Sched.Search

/-! # Runs of the scheduler

A run is a list of transitions, each one a call of `scheduler_add_task`,
`scheduler_schedule` or `scheduler_sleep`. Between two turns of one task the
current task moves along the circle and cannot pass a task that is ready, even
when the circle grows.
-/

namespace Kaviz.Sched

open Traces

inductive Op
  | add (entry : Nat)
  | schedule
  | sleep (ticks : Nat)
  deriving DecidableEq

namespace Scheduler

/-- A call of the scheduler, with the task switched to. -/
def exec (s : Scheduler) : Op → Option (Option Nat × Scheduler)
  | .add entry => some (none, s.addTask entry)
  | .schedule => s.schedule
  | .sleep ticks => s.sleep ticks

/-- The array holds the tasks counted, and the current one is among them. -/
structure Ok (s : Scheduler) : Prop where
  count_le : s.taskCount ≤ maxTasks
  current_lt : s.currentTask < max s.taskCount 1

def Outcome (s : Scheduler) (switched : Option Nat) (s' : Scheduler) : Prop :=
  (s.taskCount ≤ 1 ∧ switched = none ∧ s' = s) ∨
    (1 < s.taskCount ∧ Found s s' ∧
      switched = if s'.currentTask ≠ s.currentTask then some s'.currentTask else none)

/-- The state in which `scheduler_sleep` calls `scheduler_schedule`. -/
def dozing (s : Scheduler) (ticks : Nat) : Scheduler :=
  { s with
    tasks := Function.update s.tasks s.currentTask
      { s.tasks s.currentTask with state := .sleeping, sleepTicks := ticks } }

variable {s s' : Scheduler} {switched : Option Nat}

theorem dozing_current (s : Scheduler) (ticks : Nat) :
    (s.dozing ticks).tasks s.currentTask =
      { s.tasks s.currentTask with state := .sleeping, sleepTicks := ticks } := by
  simp [dozing]

theorem dozing_other (s : Scheduler) (ticks : Nat) {i : Nat} (hi : i ≠ s.currentTask) :
    (s.dozing ticks).tasks i = s.tasks i := by
  simp [dozing, hi]

theorem sleep_eq (s : Scheduler) (ticks : Nat) :
    s.sleep ticks = if s.taskCount = 0 then some (none, s) else (s.dozing ticks).schedule := rfl

theorem Ok.dozing (h : s.Ok) (ticks : Nat) : (s.dozing ticks).Ok := ⟨h.count_le, h.current_lt⟩

theorem schedule_outcome (h : s.Ok) : ∃ switched s', s.schedule = some (switched, s') ∧
    Outcome s switched s' := by
  by_cases hone : s.taskCount ≤ 1
  · exact ⟨none, s, if_pos hone, Or.inl ⟨hone, rfl, rfl⟩⟩
  · have hcur := h.current_lt
    obtain ⟨t, ht, hfound⟩ := search_found (s := s) (by omega)
    refine ⟨_, t, ?_, Or.inr ⟨by omega, hfound, rfl⟩⟩
    rw [schedule, if_neg hone, ht]
    rfl

theorem outcome_of_schedule (h : s.Ok) (hrun : s.schedule = some (switched, s')) :
    Outcome s switched s' := by
  obtain ⟨_, _, hrun', hout⟩ := schedule_outcome h
  cases hrun.symm.trans hrun'
  exact hout

theorem Outcome.ok (hout : Outcome s switched s') (h : s.Ok) : s'.Ok := by
  rcases hout with ⟨-, -, rfl⟩ | ⟨hcount, hfound, -⟩
  · exact h
  · have hle := h.count_le
    have hlt := hfound.current_lt
    exact ⟨by rw [hfound.count]; exact hle, by rw [hfound.count]; omega⟩

theorem Outcome.count (hout : Outcome s switched s') : s'.taskCount = s.taskCount := by
  rcases hout with ⟨-, -, rfl⟩ | ⟨-, hfound, -⟩
  · rfl
  · exact hfound.count

/-- Every call, in terms of the search. -/
theorem exec_cases (h : s.Ok) {op : Op} (hrun : s.exec op = some (switched, s')) :
    (∃ entry, op = .add entry ∧ switched = none ∧ s' = s.addTask entry) ∨
    (op = .schedule ∧ Outcome s switched s') ∨
    (∃ ticks, op = .sleep ticks ∧ ((s.taskCount = 0 ∧ switched = none ∧ s' = s) ∨
      (0 < s.taskCount ∧ Outcome (s.dozing ticks) switched s'))) := by
  cases op with
  | add entry =>
      cases hrun
      exact Or.inl ⟨entry, rfl, rfl, rfl⟩
  | schedule => exact Or.inr (Or.inl ⟨rfl, outcome_of_schedule h hrun⟩)
  | sleep ticks =>
      refine Or.inr (Or.inr ⟨ticks, rfl, ?_⟩)
      rw [exec, sleep_eq] at hrun
      by_cases hzero : s.taskCount = 0
      · rw [if_pos hzero] at hrun
        cases hrun
        exact Or.inl ⟨hzero, rfl, rfl⟩
      · rw [if_neg hzero] at hrun
        exact Or.inr ⟨by omega, outcome_of_schedule (h.dozing ticks) hrun⟩

theorem addTask_count_le (s : Scheduler) (entry : Nat) : s.taskCount ≤ (s.addTask entry).taskCount := by
  unfold addTask
  split
  · exact Nat.le_refl _
  · exact Nat.le_succ _

theorem addTask_current (s : Scheduler) (entry : Nat) :
    (s.addTask entry).currentTask = s.currentTask := by
  unfold addTask
  split <;> rfl

theorem Ok.addTask (h : s.Ok) (entry : Nat) : (s.addTask entry).Ok := by
  have hle := h.count_le
  have hcur := h.current_lt
  unfold Scheduler.addTask
  split
  · exact h
  · exact ⟨by dsimp only; omega, by dsimp only; omega⟩

theorem exec_ok (h : s.Ok) {op : Op} (hrun : s.exec op = some (switched, s')) :
    s'.Ok ∧ s.taskCount ≤ s'.taskCount := by
  rcases exec_cases h hrun with ⟨entry, -, -, rfl⟩ | ⟨-, hout⟩ | ⟨ticks, -, ⟨-, -, rfl⟩ | ⟨-, hout⟩⟩
  · exact ⟨h.addTask entry, addTask_count_le s entry⟩
  · exact ⟨hout.ok h, Nat.le_of_eq hout.count.symm⟩
  · exact ⟨h, Nat.le_refl _⟩
  · exact ⟨hout.ok (h.dozing ticks), Nat.le_of_eq hout.count.symm⟩

theorem init_ok (s : Scheduler) : s.init.Ok := ⟨Nat.zero_le _, Nat.zero_lt_one⟩

theorem exec_isSome (h : s.Ok) (op : Op) : (s.exec op).isSome := by
  cases op with
  | add entry => rfl
  | schedule =>
      obtain ⟨_, _, hrun, -⟩ := schedule_outcome h
      simp [exec, hrun]
  | sleep ticks =>
      obtain ⟨_, _, hrun, -⟩ := schedule_outcome (h.dozing ticks)
      rw [exec, sleep_eq]
      split
      · rfl
      · simp [hrun]

end Scheduler

/-- One call within a run, with the task switched to. -/
abbrev Transition := Step Scheduler (Op × Option Nat)

def Transition.call (t : Transition) : Op := t.op.1

def Transition.switched (t : Transition) : Option Nat := t.op.2

abbrev Runs (s : Scheduler) (ts : List Transition) (s' : Scheduler) : Prop :=
  Trace (answered Scheduler.exec) s ts s'

section Runs

variable {s s' : Scheduler} {ts : List Transition} {t : Transition}

theorem answered_ok {op : Op × Option Nat} (hs : s.Ok) (h : answered Scheduler.exec s op = some s') :
    s'.Ok :=
  (Scheduler.exec_ok hs (answered_iff.mp h)).1

theorem Runs.ok (h : Runs s ts s') (hs : s.Ok) : s'.Ok := Trace.inv h hs answered_ok

/-- Every transition of a run is a call made in a good state. -/
theorem Runs.exec_of_mem (h : Runs s ts s') (hs : s.Ok) (ht : t ∈ ts) :
    t.before.Ok ∧ t.before.exec t.call = some (t.switched, t.after) :=
  (Trace.inv_of_mem h hs answered_ok ht).imp_right answered_iff.mp

end Runs

/-! ## No overtaking -/

/-- Task `c` comes after `i` and before `j` on the circle, or is `i`. -/
def Between (i j c : Nat) : Prop := (i < j → i ≤ c ∧ c < j) ∧ (j < i → i ≤ c ∨ c < j)

/-- The search does not pass a task that is ready. -/
theorem Scheduler.Outcome.between {s s' : Scheduler} {switched : Option Nat} {i j : Nat}
    (hout : Scheduler.Outcome s switched s') (hok : s.Ok) (hne : j ≠ i)
    (hi : i < s.taskCount) (hj : j < s.taskCount) (hready : (s.tasks j).Runnable)
    (hbet : Between i j s.currentTask) :
    switched = some j ∨ (Between i j s'.currentTask ∧ switched ≠ some i) := by
  rcases hout with ⟨-, rfl, rfl⟩ | ⟨hcount, hfound, rfl⟩
  · exact Or.inr ⟨hbet, nofun⟩
  · have hcur := hok.current_lt
    have hlt := hfound.current_lt
    have hnot : s.currentTask ≠ j := by
      unfold Between at hbet
      omega
    by_cases hstop : s'.currentTask = j
    · rw [hstop, if_pos (Ne.symm hnot)]
      exact Or.inl rfl
    · have hbefore : steps s.taskCount s.currentTask s'.currentTask <
          steps s.taskCount s.currentTask j := by
        by_contra hge
        have hpast : steps s.taskCount s.currentTask j ≠
            steps s.taskCount s.currentTask s'.currentTask := fun hsame =>
          hstop (Scheduler.steps_inj (by omega) hlt hj hsame.symm)
        exact hfound.passed j hj (by omega) hready
      have hmoved : Between i j s'.currentTask ∧ s'.currentTask ≠ i := by
        unfold steps at hbefore
        unfold Between at hbet ⊢
        split at hbefore <;> split at hbefore <;> omega
      refine Or.inr ⟨hmoved.1, ?_⟩
      split
      · exact fun hsame => hmoved.2 (Option.some.inj hsame)
      · exact nofun

theorem exec_between {s s' : Scheduler} {switched : Option Nat} {op : Op} {i j : Nat}
    (hrun : s.exec op = some (switched, s')) (hok : s.Ok) (hne : j ≠ i) (hi : i < s.taskCount)
    (hj : j < s.taskCount) (hready : (s.tasks j).state = .ready)
    (hbet : Between i j s.currentTask) :
    switched = some j ∨ (Between i j s'.currentTask ∧ switched ≠ some i) := by
  have hnot : j ≠ s.currentTask := by
    unfold Between at hbet
    omega
  have hrunnable : (s.tasks j).Runnable := (s.tasks j).runnable_iff.mpr (Or.inl hready)
  rcases Scheduler.exec_cases hok hrun with ⟨entry, -, rfl, rfl⟩ | ⟨-, hout⟩ |
    ⟨ticks, -, ⟨-, rfl, rfl⟩ | ⟨-, hout⟩⟩
  · rw [Scheduler.addTask_current]
    exact Or.inr ⟨hbet, nofun⟩
  · exact hout.between hok hne hi hj hrunnable hbet
  · exact Or.inr ⟨hbet, nofun⟩
  · refine hout.between (hok.dozing ticks) hne hi hj ?_ hbet
    rw [Scheduler.dozing_other s ticks hnot]
    exact hrunnable

/-- While `j` stays ready and is not switched to, the current task stays between
`i` and `j`. -/
theorem runs_between {s s' : Scheduler} {ts : List Transition} {i j : Nat} (h : Runs s ts s')
    (hok : s.Ok) (hne : j ≠ i) (hi : i < s.taskCount) (hj : j < s.taskCount)
    (hready : (s.tasks j).state = .ready) (hbet : Between i j s.currentTask)
    (hall : ∀ t ∈ ts, (t.after.tasks j).state = .ready) :
    (∃ t ∈ ts, t.switched = some j) ∨
      (Between i j s'.currentTask ∧ i < s'.taskCount ∧ j < s'.taskCount ∧
        (s'.tasks j).state = .ready) := by
  induction h with
  | nil => exact Or.inr ⟨hbet, hi, hj, hready⟩
  | cons head _ ih =>
      replace head := answered_iff.mp head
      obtain ⟨hok₁, hcount⟩ := Scheduler.exec_ok hok head
      rcases exec_between head hok hne hi hj hready hbet with hswitch | ⟨hbet₁, -⟩
      · exact Or.inl ⟨_, List.mem_cons_self, hswitch⟩
      · have hready₁ := hall _ List.mem_cons_self
        rcases ih hok₁ (by omega) (by omega) hready₁ hbet₁ fun t ht => hall t (by simp [ht]) with
          ⟨t, ht, hswitch⟩ | hend
        · exact Or.inl ⟨t, by simp [ht], hswitch⟩
        · exact Or.inr hend

theorem switched_current {s s' : Scheduler} {op : Op} {i : Nat}
    (hrun : s.exec op = some (some i, s')) (hok : s.Ok) :
    s'.currentTask = i ∧ i < s'.taskCount ∧ s'.taskCount = s.taskCount := by
  have hswitch : ∀ {x x' : Scheduler}, Scheduler.Outcome x (some i) x' → x.taskCount = s.taskCount →
      x'.currentTask = i ∧ i < x'.taskCount ∧ x'.taskCount = s.taskCount := by
    rintro x x' (⟨-, hnone, -⟩ | ⟨-, hfound, hsome⟩) hcount
    · cases hnone
    · split at hsome
      · cases hsome
        have hlt := hfound.current_lt
        have hsame := hfound.count
        exact ⟨rfl, by omega, by omega⟩
      · cases hsome
  rcases Scheduler.exec_cases hok hrun with ⟨entry, -, hnone, -⟩ | ⟨-, hout⟩ |
    ⟨ticks, -, ⟨-, hnone, -⟩ | ⟨-, hout⟩⟩
  · cases hnone
  · exact hswitch hout rfl
  · cases hnone
  · exact hswitch hout rfl

/-- Between two turns of a task, every task that stays ready gets a turn. -/
theorem no_overtaking (s₀ s : Scheduler) (ts₁ ts₂ ts₃ : List Transition) (a b : Transition)
    (hrun : Runs s₀.init (ts₁ ++ a :: (ts₂ ++ b :: ts₃)) s) (i j : Nat)
    (ha : a.switched = some i) (hb : b.switched = some i) (hj : j < a.before.taskCount)
    (hne : j ≠ i) (hready : ∀ t ∈ a :: ts₂, (t.after.tasks j).state = .ready) :
    ∃ t ∈ ts₂, t.switched = some j := by
  obtain ⟨s₁, h₁, hrest⟩ := hrun.split
  have hok₁ := Runs.ok h₁ (Scheduler.init_ok s₀)
  cases hrest with
  | @cons _ s₂ _ op _ head tail =>
      obtain ⟨call, switched⟩ := op
      replace head := answered_iff.mp head
      dsimp only [Transition.switched] at ha hj hready head
      subst ha
      obtain ⟨hcur, hi, hcount⟩ := switched_current head hok₁
      have hok₂ := (Scheduler.exec_ok hok₁ head).1
      obtain ⟨s₃, h₃, hlast⟩ := tail.split
      have hbet : Between i j s₂.currentTask := by
        unfold Between
        omega
      rcases runs_between h₃ hok₂ hne hi (by omega) (hready _ List.mem_cons_self) hbet
        (fun t ht => hready t (by simp [ht])) with hdone | ⟨hbet₃, hi₃, hj₃, hready₃⟩
      · exact hdone
      · cases hlast with
        | @cons _ _ _ op₃ _ head₃ _ =>
            obtain ⟨call₃, switched₃⟩ := op₃
            dsimp only [Transition.switched] at hb
            subst hb
            rcases exec_between (answered_iff.mp head₃) (Runs.ok h₃ hok₂) hne hi₃ hj₃ hready₃ hbet₃ with hsw | ⟨-, hsw⟩
            · exact absurd (Option.some.inj hsw) (Ne.symm hne)
            · exact absurd rfl hsw

/-! ## Computed runs -/

def clearedTasks : Scheduler where
  tasks _ := ⟨⟨0, 0, 0, 0, 0, 0, 0, 0, 0, 0, 0, 0, 0, 0, 0, 0, 0, 0, 0, 0, 0, 0, 0, 0⟩,
    0, .running, 0, 0, 0⟩
  taskCount := 0
  currentTask := 0

def turns : List (Op × Option Nat) :=
  [(.add 0x1000, none), (.add 0x2000, none), (.schedule, some 1), (.schedule, some 0), (.schedule, some 1)]

theorem turns_switched : (collect (answered Scheduler.exec) clearedTasks.init turns).map
    (fun ts : List Transition => ts.map fun t => (t.switched, t.before.taskCount, (t.after.tasks 0).state)) =
      some [(none, 0, .ready), (none, 1, .ready), (some 1, 2, .ready), (some 0, 2, .ready),
        (some 1, 2, .ready)] := by
  decide

/-- Task 1 gets two turns, and task 0 one in between. -/
theorem no_overtaking_turns : ∃ ts₁ a ts₂ b s,
    Runs clearedTasks.init (ts₁ ++ a :: (ts₂ ++ [b])) s ∧ a.switched = some 1 ∧
      b.switched = some 1 ∧ ∃ t ∈ ts₂, t.switched = some 0 := by
  obtain ⟨ts, hts, hmap⟩ := Option.map_eq_some_iff.mp turns_switched
  obtain ⟨s, hrun⟩ := collect_trace hts
  match ts, hmap with
  | [t₁, t₂, a, t, b], hmap =>
      simp only [List.map_cons, List.map_nil, List.cons.injEq, Prod.mk.injEq, and_true] at hmap
      obtain ⟨-, -, ⟨ha, hcount, hready⟩, ⟨-, -, hready'⟩, hb, -⟩ := hmap
      refine ⟨[t₁, t₂], a, [t], b, s, hrun, ha, hb, ?_⟩
      refine no_overtaking clearedTasks s [t₁, t₂] [t] [] a b hrun 1 0 ha hb (by omega) (by decide) ?_
      intro u hu
      simp only [List.mem_cons, List.not_mem_nil, or_false] at hu
      rcases hu with rfl | rfl
      · exact hready
      · exact hready'

end Kaviz.Sched
