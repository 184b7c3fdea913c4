import Kaviz.Sched.Choice

/-! # Counting sleepers down

A pass of `scheduler_schedule` counts a sleeping task down when its search gets
there. A task that is ready, or about to wake, hides the sleepers behind it from
the pass. A sleeper wakes on time exactly when nobody hides it in any pass.
-/

namespace Kaviz.Sched

namespace Scheduler

/-- The state in which a call of the scheduler calls `scheduler_schedule`, if it does. -/
def passed (s : Scheduler) : Op → Option Scheduler
  | .add _ => none
  | .schedule => some s
  | .sleep ticks => if s.taskCount = 0 then none else some (s.dozing ticks)

/-- Nobody whom the search visits before task `i` stops it. -/
def Reaches (s : Scheduler) (i : Nat) : Prop :=
  ∀ j, j < s.taskCount → steps s.taskCount s.currentTask j < steps s.taskCount s.currentTask i →
    ¬ (s.tasks j).Stops

/-- Task `i` is asleep and has ticks left. -/
def Sleeps (s : Scheduler) (i : Nat) : Prop :=
  i < s.taskCount ∧ (s.tasks i).state = .sleeping ∧ 0 < (s.tasks i).sleepTicks

/-- In the pass made by the call, if any, every sleeper among at least two tasks is reached. -/
def ReachesSleepers (s : Scheduler) (op : Op) : Prop :=
  ∀ x ∈ s.passed op, 2 ≤ x.taskCount → ∀ i, x.Sleeps i → x.Reaches i

end Scheduler

/-- The pass made by the call, if any, takes one tick off every sleeper among at least
two tasks. -/
def Transition.CountsSleepers (t : Transition) : Prop :=
  ∀ x ∈ t.before.passed t.call, 2 ≤ x.taskCount → ∀ i, x.Sleeps i →
    (t.after.tasks i).sleepTicks + 1 = (x.tasks i).sleepTicks

def passes (ts : List Transition) : Nat := ts.countP fun t => (t.before.passed t.call).isSome

namespace Scheduler

variable {s s' : Scheduler} {switched : Option Nat}

/-- The search visits a task exactly when it reaches it. -/
theorem Found.reaches_iff (h : Found s s') {i : Nat}
    (hi : i < s.taskCount) : s.Reaches i ↔
      steps s.taskCount s.currentTask i ≤ steps s.taskCount s.currentTask s'.currentTask := by
  have hstops : ∀ t : Task, t.Stops ↔ t.Runnable := fun t => t.runnable_iff.symm
  constructor
  · intro hreach
    by_contra hlt
    have hle := steps_le (c := s.currentTask) hi
    have hself := steps_self s.taskCount s.currentTask
    have hne : s'.currentTask ≠ s.currentTask := by
      intro hsame
      rw [hsame, hself] at hlt
      omega
    have hnot := hreach s'.currentTask h.current_lt (by omega)
    rw [hstops] at hnot
    exact hnot (h.stopped.resolve_right hne)
  · intro hle j hj hlt
    rw [hstops]
    exact h.passed j hj (by omega)

theorem Found.reached (h : Found s s') {i : Nat}
    (hi : i < s.taskCount) (hreach : s.Reaches i) : s'.tasks i = (s.tasks i).countedDown := by
  rw [h.tasks, if_pos ⟨hi, (h.reaches_iff hi).1 hreach⟩, Task.visit_eq]

theorem Found.hidden (h : Found s s') {i : Nat}
    (hi : i < s.taskCount) (hhidden : ¬ s.Reaches i) : s'.tasks i = s.tasks i := by
  rw [h.tasks, if_neg]
  rintro ⟨-, hle⟩
  exact hhidden ((h.reaches_iff hi).2 hle)

theorem countedDown_sleeping {t : Task} (h : t.state = .sleeping) :
    t.countedDown.sleepTicks = t.sleepTicks - 1 ∧
      t.countedDown.state = if t.sleepTicks - 1 = 0 then .ready else .sleeping := by
  unfold Task.countedDown
  rw [if_pos h]
  exact ⟨rfl, rfl⟩

theorem exec_passed {x : Scheduler} {op : Op} (hok : s.Ok) (hrun : s.exec op = some (switched, s'))
    (hx : s.passed op = some x) : x.taskCount = s.taskCount ∧ Outcome x switched s' := by
  rcases exec_cases hok hrun with ⟨entry, rfl, -, -⟩ | ⟨rfl, hout⟩ | ⟨ticks, rfl, hcase⟩
  · cases hx
  · cases hx
    exact ⟨rfl, hout⟩
  · rcases hcase with ⟨hzero, -, -⟩ | ⟨hpos, hout⟩
    · rw [passed, if_pos hzero] at hx
      cases hx
    · rw [passed, if_neg (by omega)] at hx
      cases hx
      exact ⟨rfl, hout⟩

theorem Outcome.found {x : Scheduler} (hout : Outcome x switched s') (hmany : 2 ≤ x.taskCount) :
    Found x s' := by
  rcases hout with ⟨hone, -, -⟩ | ⟨-, hfound, -⟩
  · omega
  · exact hfound

/-- A call counts every sleeper exactly when it reaches every sleeper. -/
theorem exec_counts_iff {op : Op} (hok : s.Ok) (hrun : s.exec op = some (switched, s')) :
    Transition.CountsSleepers ⟨s, (op, switched), s'⟩ ↔ s.ReachesSleepers op := by
  refine forall_congr' fun x => forall_congr' fun hx => forall_congr' fun hmany =>
    forall_congr' fun i => forall_congr' fun hsleeps => ?_
  have hout := (exec_passed hok hrun hx).2
  have hfound := hout.found hmany
  obtain ⟨hi, hstate, hpos⟩ := hsleeps
  dsimp only
  by_cases hreach : x.Reaches i
  · rw [hfound.reached hi hreach, (countedDown_sleeping hstate).1]
    exact iff_of_true (by omega) hreach
  · rw [hfound.hidden hi hreach]
    exact iff_of_false (by omega) hreach

/-! ## Waking up -/

/-- Task `i` has `n` ticks to wait, or is ready when there are none. -/
def Waits (s : Scheduler) (i n : Nat) : Prop :=
  (s.tasks i).sleepTicks = n ∧ (s.tasks i).state = if n = 0 then .ready else .sleeping

theorem Waits.congr {x : Scheduler} {i n : Nat} (h : s.Waits i n) (hx : x.tasks i = s.tasks i) :
    x.Waits i n := by
  unfold Waits
  rw [hx]
  exact h

theorem Waits.countedDown {i n : Nat} (h : s.Waits i n) (hnext : s'.tasks i = (s.tasks i).countedDown) :
    s'.Waits i (n - 1) := by
  obtain ⟨hticks, hstate⟩ := h
  unfold Waits
  rw [hnext]
  by_cases hn : n = 0
  · subst hn
    rw [if_pos rfl] at hstate
    unfold Task.countedDown
    rw [if_neg (by simp [hstate])]
    exact ⟨hticks, hstate⟩
  · rw [if_neg hn] at hstate
    obtain ⟨hticks', hstate'⟩ := countedDown_sleeping hstate
    rw [hticks] at hticks' hstate'
    exact ⟨hticks', hstate'⟩

/-- A call without a pass leaves the tasks alone, one with a pass counts the tasks it reaches. -/
theorem exec_waits {op : Op} (hok : s.Ok) (hmany : 2 ≤ s.taskCount)
    (hrun : s.exec op = some (switched, s')) {i n : Nat} (hi : i < s.taskCount) (h : s.Waits i n)
    (hop : s.currentTask = i → ∀ ticks, op ≠ .sleep ticks) :
    (s.passed op = none ∧ s'.Waits i n) ∨ ∃ x, s.passed op = some x ∧
      ((x.Reaches i ∧ s'.Waits i (n - 1)) ∨ (¬ x.Reaches i ∧ s'.Waits i n)) := by
  cases hx : s.passed op with
  | none =>
      refine Or.inl ⟨rfl, ?_⟩
      cases op with
      | add entry =>
          cases hrun
          exact h.congr (addTask_other hi)
      | schedule => cases hx
      | sleep ticks =>
          rw [passed, if_neg (by omega)] at hx
          cases hx
  | some x =>
      refine Or.inr ⟨x, rfl, ?_⟩
      obtain ⟨hcount, hout⟩ := exec_passed hok hrun hx
      have hfound := hout.found (by omega)
      have hsame : x.tasks i = s.tasks i := by
        cases op with
        | add entry => cases hx
        | schedule =>
            cases hx
            rfl
        | sleep ticks =>
            rw [passed, if_neg (by omega)] at hx
            cases hx
            apply dozing_other
            exact fun hcur => hop hcur.symm ticks rfl
      have hwaits := h.congr hsame
      by_cases hreach : x.Reaches i
      · exact Or.inl ⟨hreach, hwaits.countedDown (hfound.reached (by omega) hreach)⟩
      · exact Or.inr ⟨hreach, hwaits.congr (hfound.hidden (by omega) hreach)⟩

end Scheduler

theorem passes_cons (s s' : Scheduler) (op : Op) (switched : Option Nat) (ts : List Transition) :
    passes (⟨s, (op, switched), s'⟩ :: ts) = passes ts + if (s.passed op).isSome then 1 else 0 := by
  rw [passes, passes, List.countP_cons]
  rfl

theorem reached_cons (s s' : Scheduler) (op : Op) (switched : Option Nat) (ts : List Transition) (i : Nat) :
    (∀ t : Transition, t ∈ ⟨s, (op, switched), s'⟩ :: ts → ∀ x ∈ t.before.passed t.call, x.Reaches i) ↔
      (∀ x ∈ s.passed op, x.Reaches i) ∧ ∀ t ∈ ts, ∀ x ∈ t.before.passed t.call, x.Reaches i :=
  List.forall_mem_cons

/-- A task that does not go to sleep again has waited one tick for every pass exactly
when every pass reached it. -/
theorem Runs.waits {s s' : Scheduler} {ts : List Transition} (h : Runs s ts s') (hok : s.Ok)
    (hmany : 2 ≤ s.taskCount) {i n : Nat} (hi : i < s.taskCount) (hwaits : s.Waits i n)
    (hfew : passes ts ≤ n)
    (hops : ∀ t ∈ ts, t.before.currentTask = i → ∀ ticks, t.call ≠ .sleep ticks) :
    ∃ m, s'.Waits i m ∧ n ≤ m + passes ts ∧
      (n = m + passes ts ↔ ∀ t ∈ ts, ∀ x ∈ t.before.passed t.call, x.Reaches i) := by
  induction h generalizing n with
  | nil => exact ⟨n, hwaits, Nat.le_refl n, by simp [passes]⟩
  | @cons s s₁ _ op ts head _ ih =>
      obtain ⟨op, switched⟩ := op
      replace head := Traces.answered_iff.mp head
      obtain ⟨hok₁, hcount⟩ := Scheduler.exec_ok hok head
      have hrest : ∀ t : Transition, t ∈ ts → t.before.currentTask = i → ∀ ticks, t.call ≠ .sleep ticks :=
        fun t ht => hops t (List.mem_cons_of_mem _ ht)
      rw [passes_cons] at hfew ⊢
      rw [reached_cons]
      rcases Scheduler.exec_waits hok hmany head hi hwaits (hops _ List.mem_cons_self) with
        ⟨hnone, hnext⟩ | ⟨x, hx, hcase⟩
      · dsimp only at hnone
        rw [hnone] at hfew ⊢
        obtain ⟨m, hm, hle, hiff⟩ := ih hok₁ (by omega) (by omega) hnext hfew hrest
        refine ⟨m, hm, hle, hiff.trans ?_⟩
        simp
      · dsimp only at hx
        have hone : (∀ y ∈ some x, y.Reaches i) ↔ x.Reaches i := by simp
        rw [hx, Option.isSome_some, if_pos rfl] at hfew ⊢
        rw [hone]
        rcases hcase with ⟨hreach, hnext⟩ | ⟨hreach, hnext⟩
        · obtain ⟨m, hm, hle, hiff⟩ := ih hok₁ (by omega) (by omega) hnext (by omega) hrest
          refine ⟨m, hm, by omega, ?_⟩
          rw [← hiff]
          exact ⟨fun heq => ⟨hreach, by omega⟩, fun heq => by omega⟩
        · obtain ⟨m, hm, hle, -⟩ := ih hok₁ (by omega) (by omega) hnext (by omega) hrest
          exact ⟨m, hm, by omega, iff_of_false (by omega) fun h => hreach h.1⟩

/-- The pass inside `scheduler_sleep` itself. -/
theorem Scheduler.sleep_waits {s s' : Scheduler} {switched : Option Nat} {n : Nat} (hok : s.Ok)
    (hmany : 2 ≤ s.taskCount) (hpos : 1 ≤ n) (hrun : s.exec (.sleep n) = some (switched, s')) :
    ∃ m, s'.Waits s.currentTask m ∧ n ≤ m + 1 ∧ m ≤ n ∧
      (n = m + 1 ↔ ∀ x ∈ s.passed (.sleep n), x.Reaches s.currentTask) := by
  have hcur := hok.current_lt
  have hx : s.passed (.sleep n) = some (s.dozing n) := by
    rw [passed, if_neg (by omega)]
  obtain ⟨-, hout⟩ := exec_passed hok hrun hx
  have hfound := hout.found hmany
  have hi : s.currentTask < (s.dozing n).taskCount := show _ < s.taskCount by omega
  have hwaits : (s.dozing n).Waits s.currentTask n := by
    unfold Waits
    rw [dozing_current, if_neg (by omega)]
    exact ⟨rfl, rfl⟩
  have hall : (∀ x ∈ s.passed (.sleep n), x.Reaches s.currentTask) ↔
      (s.dozing n).Reaches s.currentTask := by
    simp [hx]
  rw [hall]
  by_cases hreach : (s.dozing n).Reaches s.currentTask
  · refine ⟨n - 1, hwaits.countedDown (hfound.reached hi hreach), by omega, by omega, ?_⟩
    exact iff_of_true (by omega) hreach
  · refine ⟨n, hwaits.congr (hfound.hidden hi hreach), by omega, by omega, ?_⟩
    exact iff_of_false (by omega) hreach

/-- In every run a pass counts every sleeper exactly when it reaches every sleeper, and
a task that went to sleep for `n` ticks is exactly as far as the passes since then
say, and ready at pass `n`, exactly when each of them reached it. -/
theorem pass_counts_iff (s₀ s : Scheduler) (ts : List Transition) (hrun : Runs s₀.init ts s) :
    (∀ t ∈ ts, (t.CountsSleepers ↔ t.before.ReachesSleepers t.call)) ∧
    ∀ us t rest n, ts = us ++ t :: rest → t.call = .sleep n → 1 ≤ n → 2 ≤ t.before.taskCount →
      (∀ u ∈ rest, u.before.currentTask = t.before.currentTask → ∀ m, u.call ≠ .sleep m) →
      passes (t :: rest) ≤ n →
      (((s.tasks t.before.currentTask).sleepTicks = n - passes (t :: rest) ∧
          ((s.tasks t.before.currentTask).state = .ready ↔ passes (t :: rest) = n)) ↔
        ∀ u ∈ t :: rest, ∀ x ∈ u.before.passed u.call, x.Reaches t.before.currentTask) := by
  constructor
  · intro t ht
    obtain ⟨hok, hexec⟩ := Runs.exec_of_mem hrun s₀.init_ok ht
    exact Scheduler.exec_counts_iff hok hexec
  · rintro us t rest n rfl hop hpos hmany hquiet hfew
    obtain ⟨s₁, hfirst, htail⟩ := hrun.split
    have hok := Runs.ok hfirst s₀.init_ok
    cases htail with
    | @cons _ s₂ _ op _ head hrest =>
        obtain ⟨op, switched⟩ := op
        replace head := Traces.answered_iff.mp head
        change op = .sleep n at hop
        subst hop
        dsimp only at hmany hquiet hfew head ⊢
        obtain ⟨hok₂, hcount⟩ := Scheduler.exec_ok hok head
        have hcur := hok.current_lt
        have hpass : (s₁.passed (.sleep n)).isSome := by
          rw [Scheduler.passed, if_neg (by omega)]
          rfl
        obtain ⟨m, hm, hle, hge, hiff⟩ := Scheduler.sleep_waits hok hmany hpos head
        rw [passes_cons, if_pos hpass] at hfew ⊢
        obtain ⟨k, ⟨hticks, hstate⟩, hle', hiff'⟩ :=
          Runs.waits hrest hok₂ (by omega) (by omega) hm (by omega) hquiet
        rw [reached_cons, ← hiff, ← hiff']
        have hready : (s.tasks s₁.currentTask).state = .ready ↔ k = 0 := by
          rw [hstate]
          split <;> simp_all
        rw [hticks, hready]
        omega

/-- The last of three tasks is ready: a pass does not get to the first one, which sleeps. -/
theorem pass_skips_sleeper : ∃ ts s s', Runs clearedTasks.init ts s ∧ s.taskCount = 3 ∧
    s.Sleeps 0 ∧ s.schedule = some (some 2, s') ∧
      (s'.tasks 0).sleepTicks = (s.tasks 0).sleepTicks := by
  have hrun : Runs clearedTasks.init
      [⟨_, (.add 0x1000, none), _⟩, ⟨_, (.add 0x2000, none), _⟩, ⟨_, (.add 0x3000, none), _⟩,
        ⟨_, (.sleep 10, some 1), _⟩] _ :=
    .cons rfl (.cons rfl (.cons rfl (.cons rfl (.nil _))))
  exact ⟨_, _, _, hrun, rfl, ⟨by decide, rfl, by decide⟩, rfl, rfl⟩

/-- When both tasks are asleep two passes take two ticks off the second one. -/
theorem pass_counts_bothAsleep : ∃ us t rest s, Runs clearedTasks.init (us ++ t :: rest) s ∧
    t.call = .sleep 15 ∧ (s.tasks 1).sleepTicks = 13 ∧
      ∀ u ∈ t :: rest, ∀ x ∈ u.before.passed u.call, x.Reaches 1 := by
  have hrun : Runs clearedTasks.init
      ([⟨_, (.add 0x1000, none), _⟩, ⟨_, (.add 0x2000, none), _⟩, ⟨_, (.sleep 10, some 1), _⟩] ++
        ⟨_, (.sleep 15, none), _⟩ :: [⟨_, (.schedule, none), _⟩]) _ :=
    .cons rfl (.cons rfl (.cons rfl (.cons rfl (.cons rfl (.nil _)))))
  refine ⟨_, _, _, _, hrun, rfl, rfl, ?_⟩
  refine ((pass_counts_iff clearedTasks _ _ hrun).2 _ _ _ 15 rfl rfl (by decide) (by decide) ?_
    (by decide)).1 ⟨rfl, by decide⟩
  intro u hu hcur m hop
  rw [List.mem_singleton] at hu
  subst hu
  cases hop

end Kaviz.Sched
