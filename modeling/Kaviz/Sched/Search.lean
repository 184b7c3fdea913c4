import Kaviz.Sched.Tasks

/-! # What the search for the next task finds

The search walks the task array as a circle, starting behind the current task,
and stops at the first task that is ready when visited or back where it started.
`steps` counts the rounds to a task. `Found` describes the outcome without the
loop, and everything about `scheduler_schedule` follows from it.
-/

namespace Kaviz.Sched

/-- Rounds of the search until it visits task `i`, from task `current` on. -/
def steps (count current i : Nat) : Nat := if current < i then i - current else i + count - current

def Task.Runnable (t : Task) : Prop := t.visit.state = .ready

instance (t : Task) : Decidable t.Runnable := inferInstanceAs (Decidable (_ = _))

theorem Task.runnable_iff (t : Task) :
    t.Runnable ↔ t.state = .ready ∨ (t.state = .sleeping ∧ t.sleepTicks ≤ 1) := by
  unfold Runnable visit
  by_cases hs : t.state = .sleeping
  · have hcount : (if t.sleepTicks > 0 then t.sleepTicks - 1 else t.sleepTicks) = t.sleepTicks - 1 := by
      split <;> omega
    simp only [hs, if_true, hcount]
    by_cases hlast : t.sleepTicks ≤ 1
    · have hzero : t.sleepTicks - 1 = 0 := by omega
      simp [hzero, hlast]
    · have hleft : t.sleepTicks - 1 ≠ 0 := by omega
      simp [hleft, hlast]
  · simp [hs]

theorem Task.visit_of_ne {t : Task} (h : t.state ≠ .sleeping) : t.visit = t := if_neg h

theorem Task.visit_context (t : Task) : t.visit.context = t.context := by
  unfold visit
  split <;> rfl

/-- A visited task that is not ready and was asleep still is. -/
theorem Task.visit_sleeping_iff (t : Task) :
    t.visit.state = .sleeping ↔ t.state = .sleeping ∧ 1 < t.sleepTicks := by
  have hrun := t.runnable_iff
  unfold Runnable at hrun
  by_cases hs : t.state = .sleeping
  · have hstates : t.visit.state = .ready ∨ t.visit.state = .sleeping := by
      unfold visit
      rw [if_pos hs]
      dsimp only
      generalize (if t.sleepTicks > 0 then t.sleepTicks - 1 else t.sleepTicks) = k
      by_cases hk : k = 0
      · exact Or.inl (if_pos hk)
      · exact Or.inr ((if_neg hk).trans hs)
    rcases hstates with hv | hv
    · have hcase := hrun.mp hv
      simp only [hv, hs, reduceCtorEq, false_or, true_and, false_iff, Nat.not_lt] at hcase ⊢
      exact hcase
    · rw [hv] at hrun
      simp only [hv, hs, true_and, true_iff, reduceCtorEq, false_or, false_iff, Nat.not_le] at hrun ⊢
      exact hrun
  · rw [visit_of_ne hs]
    simp [hs]

namespace Scheduler

variable {s s' : Scheduler}

/-- `s'` is `s` after the search has walked `k` rounds without finding a task. -/
structure Walked (s : Scheduler) (k : Nat) (s' : Scheduler) : Prop where
  count : s'.taskCount = s.taskCount
  current : ∀ i, i < s.taskCount → steps s.taskCount s.currentTask i = k + 1 →
    (s'.currentTask + 1) % s.taskCount = i
  tasks : ∀ i, s'.tasks i =
    if i < s.taskCount ∧ steps s.taskCount s.currentTask i ≤ k then (s.tasks i).visit else s.tasks i

structure Found (s s' : Scheduler) : Prop where
  count : s'.taskCount = s.taskCount
  current_lt : s'.currentTask < s.taskCount
  tasks : ∀ i, s'.tasks i =
    if i < s.taskCount ∧ steps s.taskCount s.currentTask i ≤
        steps s.taskCount s.currentTask s'.currentTask then (s.tasks i).visit
    else s.tasks i
  passed : ∀ i, i < s.taskCount → steps s.taskCount s.currentTask i <
    steps s.taskCount s.currentTask s'.currentTask → ¬ (s.tasks i).Runnable
  stopped : (s.tasks s'.currentTask).Runnable ∨ s'.currentTask = s.currentTask

theorem steps_pos {n c i : Nat} (hc : c < n) : 0 < steps n c i := by
  unfold steps
  split <;> omega

theorem steps_le {n c i : Nat} (hi : i < n) : steps n c i ≤ n := by
  unfold steps
  split <;> omega

theorem steps_inj {n c i j : Nat} (hc : c < n) (hi : i < n) (hj : j < n) (h : steps n c i = steps n c j) :
    i = j := by
  unfold steps at h
  split at h <;> split at h <;> omega

theorem steps_self (n c : Nat) : steps n c c = n := by
  unfold steps
  rw [if_neg (Nat.lt_irrefl c)]
  omega

/-- After any number of rounds below the length of the circle there is a next task. -/
theorem exists_steps {n c k : Nat} (hc : c < n) (hk : k < n) : ∃ i, i < n ∧ steps n c i = k + 1 := by
  unfold steps
  by_cases hwrap : c + k + 1 < n
  · exact ⟨c + k + 1, hwrap, by rw [if_pos (by omega)]; omega⟩
  · exact ⟨c + k + 1 - n, by omega, by rw [if_neg (by omega)]; omega⟩

theorem succ_mod_of_steps {n c i j k : Nat} (hc : c < n) (hi : i < n) (hj : j < n)
    (hik : steps n c i = k + 1) (hjk : steps n c j = k + 2) : (i + 1) % n = j := by
  unfold steps at hik hjk
  by_cases hlast : i + 1 = n
  · rw [hlast, Nat.mod_self]
    split at hik <;> split at hjk <;> omega
  · rw [Nat.mod_eq_of_lt (by omega)]
    split at hik <;> split at hjk <;> omega

theorem walked_zero (hc : s.currentTask < s.taskCount) : Walked s 0 s := by
  refine ⟨rfl, fun i hi hsteps => ?_, fun i => ?_⟩
  · unfold steps at hsteps
    by_cases hlast : s.currentTask + 1 = s.taskCount
    · rw [hlast, Nat.mod_self]
      split at hsteps <;> omega
    · rw [Nat.mod_eq_of_lt (by omega)]
      split at hsteps <;> omega
  · have := steps_pos (n := s.taskCount) (i := i) hc
    rw [if_neg (by omega)]

theorem Walked.advance {k : Nat} (h : Walked s k s') (hc : s.currentTask < s.taskCount)
    {i : Nat} (hi : i < s.taskCount) (hk : steps s.taskCount s.currentTask i = k + 1) :
    s'.advance.currentTask = i ∧ Walked s (k + 1) s'.advance := by
  have hcur : (s'.currentTask + 1) % s'.taskCount = i := by
    rw [h.count]
    exact h.current i hi hk
  have hnew : s'.advance.currentTask = i := hcur
  refine ⟨hnew, h.count, fun j hj hsteps => ?_, fun j => ?_⟩
  · rw [hnew]
    exact succ_mod_of_steps hc hi hj hk hsteps
  · have htasks : s'.advance.tasks j =
        if j = i then (s'.tasks i).visit else s'.tasks j := by
      simp only [Scheduler.advance, hcur, Function.update_apply]
    rw [htasks]
    by_cases hji : j = i
    · subst hji
      rw [if_pos rfl, h.tasks j, if_neg (by omega), if_pos ⟨hi, by omega⟩]
    · have hne : j < s.taskCount → steps s.taskCount s.currentTask j ≠ k + 1 :=
        fun hj hsame => hji (steps_inj hc hj hi (hsame.trans hk.symm))
      rw [if_neg hji, h.tasks j]
      by_cases hin : j < s.taskCount ∧ steps s.taskCount s.currentTask j ≤ k
      · rw [if_pos hin, if_pos ⟨hin.1, by omega⟩]
      · rw [if_neg hin, if_neg]
        rintro ⟨hj, hle⟩
        have := hne hj
        exact hin ⟨hj, by omega⟩

/-- The loop from a partial walk on: it ends, and describes the outcome. -/
theorem search_walked {fuel k : Nat} (hc : s.currentTask < s.taskCount) (h : Walked s k s')
    (hfuel : k + fuel = s.taskCount) (hpos : 0 < fuel)
    (hpassed : ∀ i, i < s.taskCount → steps s.taskCount s.currentTask i ≤ k →
      ¬ (s.tasks i).Runnable) :
    ∃ t, search s.currentTask fuel s' = some t ∧ Found s t := by
  induction fuel generalizing k s' with
  | zero => omega
  | succ fuel ih =>
      obtain ⟨i, hi, hk⟩ := exists_steps hc (show k < s.taskCount by omega)
      obtain ⟨hcur, hwalked⟩ := h.advance hc hi hk
      have hvisit : s'.advance.tasks i = (s.tasks i).visit := by
        rw [hwalked.tasks i, if_pos ⟨hi, by omega⟩]
      unfold search
      dsimp only
      rw [hcur, hvisit]
      by_cases hgo : (s.tasks i).visit.state ≠ .ready ∧ i ≠ s.currentTask
      · rw [if_pos hgo]
        have hlt : k + 1 < s.taskCount := by
          have hle := steps_le (c := s.currentTask) hi
          have hself := steps_self s.taskCount s.currentTask
          by_contra hge
          exact hgo.2 (steps_inj hc hi hc (by omega))
        refine ih hwalked (by omega) (by omega) fun j hj hle => ?_
        by_cases hj' : steps s.taskCount s.currentTask j ≤ k
        · exact hpassed j hj hj'
        · obtain rfl := steps_inj hc hj hi (show steps _ _ j = steps _ _ i by omega)
          exact hgo.1
      · rw [if_neg hgo]
        refine ⟨_, rfl, hwalked.count, by rw [hcur]; exact hi, fun j => ?_, fun j hj hlt => ?_, ?_⟩
        · rw [hcur, hk]
          exact hwalked.tasks j
        · rw [hcur, hk] at hlt
          exact hpassed j hj (by omega)
        · rw [hcur]
          by_cases hready : (s.tasks i).visit.state = .ready
          · exact Or.inl hready
          · exact Or.inr (by_contra fun hne => hgo ⟨hready, hne⟩)

theorem search_found (hc : s.currentTask < s.taskCount) :
    ∃ t, search s.currentTask s.taskCount s = some t ∧ Found s t := by
  refine search_walked hc (walked_zero hc) (by omega) (by omega) fun i _ hle => ?_
  have := steps_pos (n := s.taskCount) (i := i) hc
  omega

end Scheduler

end Kaviz.Sched
