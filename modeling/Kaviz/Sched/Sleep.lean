import Kaviz.Sched.Rounds

/-! # Sleeping tasks

`scheduler_schedule` leaves the CPU to the current task when nobody else can
run, whatever state the current task is in. The calls that hand control to a
sleeping task are characterised by the state before the call, and so are the
runs in which this never happens.
-/

namespace Kaviz.Sched

open Traces

def Scheduler.OtherRunnable (s : Scheduler) : Prop :=
  ∃ i, i < s.taskCount ∧ i ≠ s.currentTask ∧ (s.tasks i).Runnable

/-- The call finds a task to run that is not asleep. -/
def Scheduler.Served (s : Scheduler) : Op → Prop
  | .add _ => True
  | .schedule => s.taskCount = 0 ∨ (s.tasks s.currentTask).state ≠ .sleeping ∨
      (1 < s.taskCount ∧ ((s.tasks s.currentTask).sleepTicks ≤ 1 ∨ s.OtherRunnable))
  | .sleep ticks => s.taskCount = 0 ∨ ticks = 0 ∨
      (1 < s.taskCount ∧ (ticks ≤ 1 ∨ s.OtherRunnable))

/-- Calls after which a task is expected to be awake. -/
def Op.Schedules : Op → Prop
  | .add _ => False
  | .schedule => True
  | .sleep ticks => 0 < ticks

def Transition.Awake (t : Transition) : Prop :=
  0 < t.after.taskCount → (t.after.tasks t.after.currentTask).state ≠ .sleeping

namespace Scheduler

variable {s s' : Scheduler} {switched : Option Nat}

/-- The search stops elsewhere exactly when another task can run. -/
theorem Found.current_ne_iff (h : Found s s') (hc : s.currentTask < s.taskCount) :
    s'.currentTask ≠ s.currentTask ↔ s.OtherRunnable := by
  constructor
  · intro hne
    exact ⟨s'.currentTask, h.current_lt, hne, h.stopped.resolve_right hne⟩
  · rintro ⟨i, hi, hne, hrun⟩ hsame
    have hself := steps_self s.taskCount s.currentTask
    have hle := steps_le (c := s.currentTask) hi
    refine h.passed i hi ?_ hrun
    rw [hsame, hself]
    refine Nat.lt_of_le_of_ne hle fun heq => hne ?_
    exact steps_inj hc hi hc (heq.trans hself.symm)

/-- `scheduler_schedule` switches exactly when somebody else can run. -/
theorem Outcome.switched_iff (hout : Outcome s switched s') (hok : s.Ok) :
    switched.isSome ↔ 1 < s.taskCount ∧ s.OtherRunnable := by
  rcases hout with ⟨hone, rfl, -⟩ | ⟨hmany, hfound, rfl⟩
  · simp [show ¬ 1 < s.taskCount by omega]
  · have hcur := hok.current_lt
    rw [← hfound.current_ne_iff (by omega)]
    by_cases hsame : s'.currentTask = s.currentTask <;> simp [hsame, hmany]

theorem Found.current_visited (h : Found s s') :
    s'.tasks s'.currentTask = (s.tasks s'.currentTask).visit := by
  rw [h.tasks, if_pos ⟨h.current_lt, Nat.le_refl _⟩]

theorem Outcome.sleeping_iff (hout : Outcome s switched s') (hok : s.Ok) (hpos : 0 < s.taskCount) :
    (s'.tasks s'.currentTask).state = .sleeping ↔
      (s.tasks s.currentTask).state = .sleeping ∧
        (s.taskCount ≤ 1 ∨ (1 < (s.tasks s.currentTask).sleepTicks ∧ ¬ s.OtherRunnable)) := by
  have hcur := hok.current_lt
  rcases hout with ⟨hone, -, rfl⟩ | ⟨hmany, hfound, -⟩
  · simp [hone]
  · have hmoved := hfound.current_ne_iff (by omega)
    rw [hfound.current_visited]
    by_cases hsame : s'.currentTask = s.currentTask
    · have hnone : ¬ s.OtherRunnable := fun h => hmoved.mpr h hsame
      rw [hsame, Task.visit_sleeping_iff]
      simp only [hnone, not_false_eq_true, and_true, show ¬ s.taskCount ≤ 1 by omega, false_or]
    · have hother := hmoved.mp hsame
      have hready : (s.tasks s'.currentTask).visit.state = .ready := hfound.stopped.resolve_right hsame
      simp [hready, hother, show ¬ s.taskCount ≤ 1 by omega]

theorem Outcome.awake_iff (hout : Outcome s switched s') (hok : s.Ok) (hpos : 0 < s.taskCount) :
    (s'.tasks s'.currentTask).state ≠ .sleeping ↔
      (s.tasks s.currentTask).state ≠ .sleeping ∨
        (1 < s.taskCount ∧ ((s.tasks s.currentTask).sleepTicks ≤ 1 ∨ s.OtherRunnable)) := by
  have hone : ¬ 1 < s.taskCount ↔ s.taskCount ≤ 1 := Nat.not_lt
  have hticks : ¬ 1 < (s.tasks s.currentTask).sleepTicks ↔
      (s.tasks s.currentTask).sleepTicks ≤ 1 := Nat.not_lt
  rw [ne_eq, hout.sleeping_iff hok hpos, ← hone, ← hticks]
  tauto

theorem dozing_otherRunnable (s : Scheduler) (ticks : Nat) :
    (s.dozing ticks).OtherRunnable ↔ s.OtherRunnable := by
  refine exists_congr fun i => ?_
  show _ ∧ i ≠ s.currentTask ∧ _ ↔ _
  by_cases hi : i = s.currentTask
  · simp [hi]
  · rw [dozing_other s ticks hi]
    exact Iff.rfl

/-- A call returns to a task that is awake exactly when it is served. -/
theorem exec_awake_iff {op : Op} (hrun : s.exec op = some (switched, s')) (hok : s.Ok) :
    (op.Schedules → Transition.Awake ⟨s, (op, switched), s'⟩) ↔ s.Served op := by
  unfold Transition.Awake
  dsimp only
  rcases exec_cases hok hrun with ⟨entry, rfl, -, -⟩ | ⟨rfl, hout⟩ |
    ⟨ticks, rfl, ⟨hzero, -, rfl⟩ | ⟨hpos, hout⟩⟩
  · simp [Op.Schedules, Served]
  · rw [hout.count]
    by_cases hzero : s.taskCount = 0
    · simp [Served, hzero]
    · have hpos : 0 < s.taskCount := by omega
      simp only [Op.Schedules, Served, true_implies, hzero, false_or, hpos]
      exact hout.awake_iff hok hpos
  · simp [Served, hzero]
  · have hiff := hout.awake_iff (hok.dozing ticks) hpos
    have hcount : s'.taskCount = s.taskCount := hout.count
    have hcur : (s.dozing ticks).tasks (s.dozing ticks).currentTask =
        { s.tasks s.currentTask with state := .sleeping, sleepTicks := ticks } :=
      dozing_current s ticks
    rw [hcur, dozing_otherRunnable] at hiff
    rw [hcount]
    simp only [ne_eq, not_true_eq_false, false_or] at hiff
    simp only [Op.Schedules, Served, hpos, true_implies, show s.taskCount ≠ 0 by omega, false_or]
    rw [ne_eq, hiff]
    by_cases hticks : ticks = 0
    · simp [hticks]
    · simp only [show 0 < ticks by omega, true_implies, hticks, false_or]
      exact Iff.rfl

end Scheduler

/-- In a run no sleeping task ever gets control exactly when every call finds
somebody to run. -/
theorem sleepers_rest_iff (s₀ s : Scheduler) (ts : List Transition) (hrun : Runs s₀.init ts s) :
    (∀ t ∈ ts, t.call.Schedules → t.Awake) ↔ ∀ t ∈ ts, t.before.Served t.call := by
  refine forall_congr' fun t => forall_congr' fun ht => ?_
  obtain ⟨hok, hexec⟩ := Runs.exec_of_mem hrun (Scheduler.init_ok s₀) ht
  exact Scheduler.exec_awake_iff hexec hok

def bothAsleep : List (Op × Option Nat) :=
  [(.add 0x1000, none), (.add 0x2000, none), (.sleep 10, some 1), (.sleep 15, none)]

theorem bothAsleep_run : (collect (answered Scheduler.exec) clearedTasks.init bothAsleep).map
    (fun ts : List Transition =>
      ts.map fun t => (t.call, t.after.taskCount, (t.after.tasks t.after.currentTask).state)) =
      some [(.add 0x1000, 1, .ready), (.add 0x2000, 2, .ready), (.sleep 10, 2, .ready),
        (.sleep 15, 2, .sleeping)] := by
  decide

/-- The second task sleeps and keeps running. -/
theorem sleeper_keeps_running : ∃ ts s, Runs clearedTasks.init ts s ∧
    ¬ ∀ t ∈ ts, t.call.Schedules → t.Awake := by
  obtain ⟨ts, hts, hmap⟩ := Option.map_eq_some_iff.mp bothAsleep_run
  obtain ⟨s, hrun⟩ := collect_trace hts
  refine ⟨ts, s, hrun, fun hawake => ?_⟩
  match ts, hmap with
  | [t₁, t₂, t₃, t₄], hmap =>
      simp only [List.map_cons, List.map_nil, List.cons.injEq, Prod.mk.injEq, and_true] at hmap
      obtain ⟨-, -, -, hop, hcount, hsleep⟩ := hmap
      exact hawake t₄ (by simp) (by rw [hop]; exact Nat.zero_lt_succ 14) (by omega) hsleep

/-- Two of three tasks go to sleep and hand over; the third one passes them by, twice, and goes on
until the first of them is awake. -/
theorem sleepers_rest_passed : ∃ ts s, Runs clearedTasks.init ts s ∧
    ts.map Transition.call = [.add 0x1000, .add 0x2000, .add 0x3000, .sleep 3, .sleep 5, .schedule,
      .schedule, .schedule] ∧
    ts.map Transition.switched = [none, none, none, some 1, some 2, none, none, some 0] ∧
    ∀ t ∈ ts, t.call.Schedules → t.Awake := by
  have hrun : Runs clearedTasks.init
      [⟨_, (.add 0x1000, none), _⟩, ⟨_, (.add 0x2000, none), _⟩, ⟨_, (.add 0x3000, none), _⟩,
        ⟨_, (.sleep 3, some 1), _⟩, ⟨_, (.sleep 5, some 2), _⟩, ⟨_, (.schedule, none), _⟩,
        ⟨_, (.schedule, none), _⟩, ⟨_, (.schedule, some 0), _⟩] _ :=
    .cons rfl (.cons rfl (.cons rfl (.cons rfl (.cons rfl (.cons rfl (.cons rfl (.cons rfl (.nil _))))))))
  refine ⟨_, _, hrun, rfl, rfl, (sleepers_rest_iff clearedTasks _ _ hrun).mpr ?_⟩
  have hlast : ∀ s : Scheduler, (s.tasks s.currentTask).state = .ready → s.Served .schedule :=
    fun s hready => Or.inr (Or.inl (by rw [hready]; decide))
  simp only [List.forall_mem_cons, List.not_mem_nil, false_implies, implies_true, and_true]
  refine ⟨trivial, trivial, trivial, ?_, ?_, hlast _ rfl, hlast _ rfl, hlast _ rfl⟩
  · exact Or.inr (Or.inr ⟨by decide, Or.inr ⟨1, by decide, by decide, by decide⟩⟩)
  · exact Or.inr (Or.inr ⟨by decide, Or.inr ⟨2, by decide, by decide, by decide⟩⟩)

end Kaviz.Sched
