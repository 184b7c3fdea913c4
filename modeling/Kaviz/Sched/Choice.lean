import Kaviz.Sched.Rounds

/-! # The next task in cyclic order

`scheduler_schedule` in the terms of its loop: how many rounds it makes, which
tasks it counts down, which one it leaves current. Task `(c + j) % n` is the one
visited in round `j`.
-/

namespace Kaviz.Sched

/-- A sleeping task after one tick; others are left alone. -/
def Task.countedDown (t : Task) : Task :=
  if t.state = .sleeping then
    { t with
      sleepTicks := t.sleepTicks - 1
      state := if t.sleepTicks - 1 = 0 then .ready else .sleeping }
  else t

/-- The loop stops at the task: it is ready, or its last tick is being counted. -/
def Task.Stops (t : Task) : Prop := t.state = .ready ∨ (t.state = .sleeping ∧ t.sleepTicks ≤ 1)

theorem Task.visit_eq (t : Task) : t.visit = t.countedDown := by
  unfold visit countedDown
  by_cases hs : t.state = .sleeping
  · have hcount : (if t.sleepTicks > 0 then t.sleepTicks - 1 else t.sleepTicks) = t.sleepTicks - 1 := by
      split <;> omega
    simp [hs, hcount]
  · simp [hs]

namespace Scheduler

variable {s s' : Scheduler}

/-- Task number `(c + j) % n` is visited in round `j`. -/
theorem steps_add_mod {n c j : Nat} (hc : c < n) (hpos : 0 < j) (hj : j ≤ n) :
    steps n c ((c + j) % n) = j := by
  unfold steps
  by_cases hwrap : c + j < n
  · rw [Nat.mod_eq_of_lt hwrap, if_pos (by omega)]
    omega
  · have hmod : (c + j) % n = c + j - n := by
      rw [Nat.mod_eq_sub_mod (by omega), Nat.mod_eq_of_lt (by omega)]
    rw [hmod, if_neg (by omega)]
    omega

theorem add_steps_mod {n c i : Nat} (hc : c < n) (hi : i < n) : (c + steps n c i) % n = i := by
  unfold steps
  split
  · rw [Nat.mod_eq_of_lt (by omega)]
    omega
  · rw [Nat.mod_eq_sub_mod (by omega), Nat.mod_eq_of_lt (by omega)]
    omega

/-- From a partial walk that has not reached the last round, the loop makes exactly
the rounds that are left. -/
theorem search_rounds {w : Scheduler} {i k : Nat} (hc : s.currentTask < s.taskCount)
    (hi : i < s.taskCount)
    (hpassed : ∀ j, j < s.taskCount →
      steps s.taskCount s.currentTask j < steps s.taskCount s.currentTask i → ¬ (s.tasks j).Runnable)
    (hstop : (s.tasks i).Runnable ∨ i = s.currentTask) (h : Walked s k w)
    (hk : k < steps s.taskCount s.currentTask i) :
    ∃ t, ∀ fuel, search s.currentTask fuel w =
      if steps s.taskCount s.currentTask i ≤ k + fuel then some t else none := by
  obtain ⟨left, hleft⟩ : ∃ left, steps s.taskCount s.currentTask i = k + 1 + left :=
    ⟨steps s.taskCount s.currentTask i - (k + 1), by omega⟩
  induction left generalizing k w with
  | zero =>
      obtain ⟨hcur, hwalked⟩ := h.advance hc hi hleft
      have hvisit : w.advance.tasks i = (s.tasks i).visit := by
        rw [hwalked.tasks i, if_pos ⟨hi, by omega⟩]
      refine ⟨w.advance, fun fuel => ?_⟩
      cases fuel with
      | zero => rw [if_neg (by omega)]; rfl
      | succ fuel =>
          unfold search
          dsimp only
          have hend : ¬ ((s.tasks i).visit.state ≠ .ready ∧ i ≠ s.currentTask) :=
            fun hgo => hstop.elim hgo.1 hgo.2
          rw [hcur, hvisit, if_neg hend, if_pos (by omega)]
  | succ left ih =>
      have hle := steps_le (c := s.currentTask) hi
      obtain ⟨j, hj, hsteps⟩ := exists_steps hc (show k < s.taskCount by omega)
      obtain ⟨hcur, hwalked⟩ := h.advance hc hj hsteps
      have hvisit : w.advance.tasks j = (s.tasks j).visit := by
        rw [hwalked.tasks j, if_pos ⟨hj, by omega⟩]
      have hself := steps_self s.taskCount s.currentTask
      have hgo : (s.tasks j).visit.state ≠ .ready ∧ j ≠ s.currentTask := by
        refine ⟨hpassed j hj (by omega), ?_⟩
        rintro rfl
        omega
      obtain ⟨t, ht⟩ := ih hwalked (by omega) (by omega)
      refine ⟨t, fun fuel => ?_⟩
      cases fuel with
      | zero => rw [if_neg (by omega)]; rfl
      | succ fuel =>
          unfold search
          dsimp only
          rw [hcur, hvisit, if_pos hgo, ht fuel]
          exact if_congr (by omega) rfl rfl

/-- The loop visits the task it stops at in its last round. -/
theorem Found.rounds (h : Found s s') (hc : s.currentTask < s.taskCount)
    (hrun : search s.currentTask s.taskCount s = some s') (fuel : Nat) :
    search s.currentTask fuel s =
      if steps s.taskCount s.currentTask s'.currentTask ≤ fuel then some s' else none := by
  obtain ⟨t, ht⟩ := search_rounds hc h.current_lt h.passed h.stopped (walked_zero hc) (steps_pos hc)
  have hle := steps_le (c := s.currentTask) h.current_lt
  have hlast := ht s.taskCount
  rw [hrun, if_pos (by omega)] at hlast
  rw [ht fuel, ← hlast, Nat.zero_add]

/-! ## Tasks are ready or asleep -/

/-- Every task added so far is ready or asleep. -/
def AllTimed (s : Scheduler) : Prop :=
  ∀ i, i < s.taskCount → (s.tasks i).state = .ready ∨ (s.tasks i).state = .sleeping

theorem countedDown_timed {t : Task} (h : t.state = .ready ∨ t.state = .sleeping) :
    t.countedDown.state = .ready ∨ t.countedDown.state = .sleeping := by
  unfold Task.countedDown
  by_cases hs : t.state = .sleeping
  · rw [if_pos hs]
    dsimp only
    split
    · exact Or.inl rfl
    · exact Or.inr rfl
  · rw [if_neg hs]
    exact h

theorem Outcome.allTimed {switched : Option Nat} (hout : Outcome s switched s') (h : s.AllTimed) :
    s'.AllTimed := by
  rcases hout with ⟨-, -, rfl⟩ | ⟨-, hfound, -⟩
  · exact h
  · intro i hi
    rw [hfound.count] at hi
    rw [hfound.tasks i]
    split
    · rw [Task.visit_eq]
      exact countedDown_timed (h i hi)
    · exact h i hi

theorem AllTimed.dozing (h : s.AllTimed) (ticks : Nat) : (s.dozing ticks).AllTimed := by
  intro i hi
  by_cases hcur : i = s.currentTask
  · subst hcur
    rw [dozing_current]
    exact Or.inr rfl
  · rw [dozing_other s ticks hcur]
    exact h i hi

theorem AllTimed.addTask (h : s.AllTimed) (entry : Nat) : (s.addTask entry).AllTimed := by
  intro i hi
  unfold Scheduler.addTask at hi ⊢
  by_cases hfull : s.taskCount ≥ maxTasks
  · rw [if_pos hfull] at hi ⊢
    exact h i hi
  · rw [if_neg hfull] at hi ⊢
    dsimp only at hi ⊢
    rw [Function.update_apply]
    split
    · exact Or.inl rfl
    · exact h i (by omega)

theorem exec_allTimed {switched : Option Nat} (h : s.Ok) (htimed : s.AllTimed) {op : Op}
    (hrun : s.exec op = some (switched, s')) : s'.AllTimed := by
  rcases exec_cases h hrun with ⟨entry, -, -, rfl⟩ | ⟨-, hout⟩ | ⟨ticks, -, ⟨-, -, rfl⟩ | ⟨-, hout⟩⟩
  · exact htimed.addTask entry
  · exact hout.allTimed htimed
  · exact htimed
  · exact hout.allTimed (htimed.dozing ticks)

end Scheduler

theorem Runs.allTimed {s s' : Scheduler} {ts : List Transition} (h : Runs s ts s') (hs : s.Ok)
    (htimed : s.AllTimed) : s'.AllTimed := by
  have hboth : s'.Ok ∧ s'.AllTimed := by
    apply Traces.Trace.inv h ⟨hs, htimed⟩
    rintro x op x' ⟨hok, htimed⟩ hstep
    exact ⟨answered_ok hok hstep, Scheduler.exec_allTimed hok htimed (Traces.answered_iff.mp hstep)⟩
  exact hboth.2

/-- What one call of `scheduler_schedule` does among `n` tasks: the loop makes `k`
rounds and stops at the first task that is ready or about to wake, or at the
current one. -/
structure Chooses (s : Scheduler) (k : Nat) (s' : Scheduler) : Prop where
  bounds : 0 < k ∧ k ≤ s.taskCount
  first : ∀ j, 0 < j → j < k → ¬ (s.tasks ((s.currentTask + j) % s.taskCount)).Stops
  found : (s.tasks ((s.currentTask + k) % s.taskCount)).Stops ∨ k = s.taskCount
  rounds : ∀ fuel, Scheduler.search s.currentTask fuel s = if k ≤ fuel then some s' else none
  visited : ∀ j, 0 < j → j ≤ k → s'.tasks ((s.currentTask + j) % s.taskCount) =
    (s.tasks ((s.currentTask + j) % s.taskCount)).countedDown
  others : ∀ i, (∀ j, 0 < j → j ≤ k → i ≠ (s.currentTask + j) % s.taskCount) →
    s'.tasks i = s.tasks i
  count : s'.taskCount = s.taskCount
  current : s'.currentTask = (s.currentTask + k) % s.taskCount

namespace Scheduler

theorem Found.chooses {s s' : Scheduler} (h : Found s s') (hc : s.currentTask < s.taskCount)
    (hrun : search s.currentTask s.taskCount s = some s') :
    Chooses s (steps s.taskCount s.currentTask s'.currentTask) s' := by
  have hle := steps_le (c := s.currentTask) h.current_lt
  have hpos : 0 < s.taskCount := by omega
  have hstops : ∀ t : Task, t.Stops ↔ t.Runnable := fun t => t.runnable_iff.symm
  constructor
  · exact ⟨steps_pos hc, hle⟩
  · intro j hj hlt
    rw [hstops]
    apply h.passed _ (Nat.mod_lt _ hpos)
    rw [steps_add_mod hc hj (by omega)]
    exact hlt
  · rw [add_steps_mod hc h.current_lt, hstops]
    refine h.stopped.imp_right fun hsame => ?_
    rw [hsame, steps_self]
  · exact h.rounds hc hrun
  · intro j hj hjle
    rw [h.tasks, if_pos, Task.visit_eq]
    refine ⟨Nat.mod_lt _ hpos, ?_⟩
    rw [steps_add_mod hc hj (by omega)]
    exact hjle
  · intro i hi
    rw [h.tasks, if_neg]
    rintro ⟨hlt, hsteps⟩
    exact hi _ (steps_pos hc) hsteps (add_steps_mod hc hlt).symm
  · exact h.count
  · exact (add_steps_mod hc h.current_lt).symm

end Scheduler

/-- In every reachable state the array holds the tasks counted and the current one is
among them, every call of the scheduler keeps this, and among at least two tasks
`scheduler_schedule` takes the next one in cyclic order. -/
theorem schedule_cyclic (s₀ s : Scheduler) (ts : List Transition) (hrun : Runs s₀.init ts s) :
    (s.taskCount ≤ 64 ∧ s.currentTask < max s.taskCount 1) ∧
    (∀ op switched s', s.exec op = some (switched, s') →
      s'.taskCount ≤ 64 ∧ s'.currentTask < max s'.taskCount 1) ∧
    (2 ≤ s.taskCount →
      (∀ i, i < s.taskCount → (s.tasks i).state = .ready ∨ (s.tasks i).state = .sleeping) ∧
      ∃ k s', Chooses s k s' ∧ s.schedule =
        some (if s'.currentTask ≠ s.currentTask then some s'.currentTask else none, s')) := by
  have hok := Runs.ok hrun s₀.init_ok
  have htimed : s.AllTimed := by
    apply Runs.allTimed hrun s₀.init_ok
    exact fun i hi => absurd hi (Nat.not_lt_zero i)
  refine ⟨⟨hok.count_le, hok.current_lt⟩, ?_, ?_⟩
  · intro op switched s' hexec
    have hnext := (Scheduler.exec_ok hok hexec).1
    exact ⟨hnext.count_le, hnext.current_lt⟩
  · intro hmany
    have hcur := hok.current_lt
    have hc : s.currentTask < s.taskCount := by omega
    obtain ⟨s', hsearch, hfound⟩ := Scheduler.search_found hc
    refine ⟨htimed, _, s', hfound.chooses hc hsearch, ?_⟩
    rw [Scheduler.schedule, if_neg (by omega), hsearch]
    rfl

theorem schedule_cyclic_turns : ∃ ts s, Runs clearedTasks.init ts s ∧ s.taskCount = 2 ∧
    ∃ k s', Chooses s k s' ∧ s.schedule =
      some (if s'.currentTask ≠ s.currentTask then some s'.currentTask else none, s') := by
  have hrun : Runs clearedTasks.init
      [⟨_, (.add 0x1000, none), _⟩, ⟨_, (.add 0x2000, none), _⟩, ⟨_, (.sleep 3, some 1), _⟩] _ :=
    .cons rfl (.cons rfl (.cons rfl (.nil _)))
  exact ⟨_, _, hrun, rfl, ((schedule_cyclic clearedTasks _ _ hrun).2.2 (by decide)).2⟩

end Kaviz.Sched
