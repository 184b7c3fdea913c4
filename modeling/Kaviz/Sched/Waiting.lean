import Kaviz.Lib.Progress
import Kaviz.Sched.Choice
import Kaviz.Sched.Contexts

/-! # How long a task waits

A task that has lost the CPU gets it back after a number of passes of
`scheduler_schedule` that its own sleep counter bounds from both sides, whatever
the other tasks do in the meantime: among `n` tasks the search comes by at least
once in `n - 1` passes, and takes off one tick each time it does.
-/

namespace Kaviz.Sched

open Traces Progress

/-- Visits of the search until the task runs. -/
def Task.looks (t : Task) : Nat := if t.state = .sleeping then max t.sleepTicks 1 else 1

namespace Scheduler

/-- Task `i` does not have the CPU. -/
structure Waiting (s : Scheduler) (i : Nat) : Prop where
  ok : s.Ok
  timed : s.AllTimed
  lt : i < s.taskCount
  other : s.currentTask ≠ i

/-- What is left of the wait, in passes, if there are never more than `n` tasks. -/
def wait (s : Scheduler) (n i : Nat) : Nat :=
  ((s.tasks i).looks - 1) * (n - 1) + steps n s.currentTask i - 1

end Scheduler

def Op.passes : Op → Bool
  | .add _ => false
  | .schedule => true
  | .sleep _ => true

def makesPass (t : Step Switching Act) : Bool :=
  match t.op with
  | .call op => op.passes
  | .work _ => false

def Resumes (i : Nat) (t : Step Switching Act) : Prop :=
  t.before.sched.currentTask ≠ i ∧ t.after.sched.currentTask = i

/-! ## One pass -/

theorem Task.looks_pos (t : Task) : 0 < t.looks := by
  unfold looks
  split <;> omega

/-- A task that is ready or asleep runs when it is looked at for the last time. -/
theorem Task.runnable_iff_looks {t : Task} (h : t.state = .ready ∨ t.state = .sleeping) :
    t.Runnable ↔ t.looks = 1 := by
  rw [t.runnable_iff]
  rcases h with h | h
  · simp [looks, h]
  · simp [looks, h]

/-- Any other visit is one look less. -/
theorem Task.visit_looks {t : Task} (h : t.state = .ready ∨ t.state = .sleeping) (hnot : ¬ t.Runnable) :
    t.visit.looks + 1 = t.looks := by
  rw [t.runnable_iff] at hnot
  rcases h with h | h
  · simp [h] at hnot
  · have hticks : 1 < t.sleepTicks := by simpa [h] using hnot
    have hpos : 0 < t.sleepTicks := by omega
    have hleft : t.sleepTicks - 1 ≠ 0 := by omega
    simp only [visit, looks, h, hpos, hleft, if_true, if_false]
    omega

theorem steps_lt {n c i : Nat} (hi : i < n) (hne : c ≠ i) : steps n c i ≤ n - 1 := by
  unfold steps
  split <;> omega

/-- Moving on along the circle without passing task `i` brings it nearer, also on a larger one. -/
theorem steps_anti {m n c c' i : Nat} (hm : m ≤ n) (hc : c < m) (hc' : c' < m) (hi : i < m)
    (h : steps m c c' < steps m c i) : steps n c' i < steps n c i := by
  unfold steps at *
  split at h <;> split at h <;> split <;> omega

namespace Scheduler

variable {s s' : Scheduler} {i : Nat} {switched : Option Nat}

theorem Waiting.count (h : s.Waiting i) : 1 < s.taskCount ∧ s.currentTask < s.taskCount := by
  have hcur := h.ok.current_lt
  have hlt := h.lt
  have hother := h.other
  omega

theorem Waiting.bounds (h : s.Waiting i) {n : Nat} (hn : s.taskCount ≤ n) :
    0 < steps n s.currentTask i ∧ steps n s.currentTask i ≤ n - 1 := by
  have hcur := h.count.2
  have hlt := h.lt
  exact ⟨Scheduler.steps_pos (by omega), steps_lt (by omega) h.other⟩

/-- A pass gives the CPU to task `i`, or comes nearer to it, or has looked at it. -/
theorem Found.waiting (hfound : Found s s') (h : s.Waiting i) {n : Nat} (hn : s.taskCount ≤ n) :
    (s'.currentTask = i ∧ (s.tasks i).looks = 1) ∨
      (s'.currentTask ≠ i ∧ s'.tasks i = s.tasks i ∧
        steps n s'.currentTask i < steps n s.currentTask i) ∨
      (s'.currentTask ≠ i ∧ (s'.tasks i).looks + 1 = (s.tasks i).looks) := by
  have hcur := h.count.2
  have hlt := h.lt
  have htimed := h.timed i hlt
  by_cases hhere : s'.currentTask = i
  · refine .inl ⟨hhere, ?_⟩
    rw [← Task.runnable_iff_looks htimed, ← hhere]
    exact hfound.stopped.resolve_right (by rw [hhere]; exact Ne.symm h.other)
  · refine .inr ?_
    by_cases hreached : steps s.taskCount s.currentTask i ≤ steps s.taskCount s.currentTask s'.currentTask
    · have hpast : steps s.taskCount s.currentTask i ≠ steps s.taskCount s.currentTask s'.currentTask :=
        fun hsame => hhere (steps_inj hcur hfound.current_lt hlt hsame.symm)
      refine .inr ⟨hhere, ?_⟩
      rw [hfound.tasks, if_pos ⟨hlt, hreached⟩]
      exact Task.visit_looks htimed (hfound.passed i hlt (by omega))
    · refine .inl ⟨hhere, ?_, steps_anti hn hcur hfound.current_lt hlt (by omega)⟩
      rw [hfound.tasks, if_neg fun hin => hreached hin.2]

/-- The scheduler with other registers in its tasks. -/
structure SameTimes (s s' : Scheduler) : Prop where
  count : s'.taskCount = s.taskCount
  current : s'.currentTask = s.currentTask
  state : ∀ i, (s'.tasks i).state = (s.tasks i).state
  ticks : ∀ i, (s'.tasks i).sleepTicks = (s.tasks i).sleepTicks

theorem SameTimes.looks (h : SameTimes s s') (i : Nat) : (s'.tasks i).looks = (s.tasks i).looks := by
  simp [Task.looks, h.state, h.ticks]

theorem SameTimes.wait (h : SameTimes s s') (n i : Nat) : s'.wait n i = s.wait n i := by
  simp [Scheduler.wait, h.looks, h.current]

theorem SameTimes.waiting (h : SameTimes s s') (hw : s.Waiting i) : s'.Waiting i := by
  refine ⟨⟨?_, ?_⟩, ?_, ?_, ?_⟩
  · rw [h.count]
    exact hw.ok.count_le
  · rw [h.count, h.current]
    exact hw.ok.current_lt
  · intro j hj
    rw [h.state]
    exact hw.timed j (by rw [← h.count]; exact hj)
  · rw [h.count]
    exact hw.lt
  · rw [h.current]
    exact hw.other

/-- What a call does to a waiting task that it does not give the CPU to, among at most `n` tasks. -/
structure Advances (s s' : Scheduler) (n i : Nat) (counted : Bool) : Prop where
  waiting : s'.Waiting i
  nearer : s'.wait n i + counted.toNat ≤ s.wait n i
  steady : (s.tasks i).looks ≤ (s'.tasks i).looks + counted.toNat

theorem Outcome.waiting (hout : Outcome s switched s') (h : s.Waiting i) {n : Nat}
    (hn : s.taskCount ≤ n) :
    (s'.currentTask = i ∧ (s.tasks i).looks = 1) ∨ Advances s s' n i true := by
  rcases hout with ⟨hone, -, -⟩ | ⟨hmany, hfound, rfl⟩
  · have hcount := h.count
    omega
  · have hnext : s'.currentTask ≠ i → s'.Waiting i := fun hne =>
      ⟨Outcome.ok (.inr ⟨hmany, hfound, rfl⟩) h.ok, Outcome.allTimed (.inr ⟨hmany, hfound, rfl⟩) h.timed,
        by rw [hfound.count]; exact h.lt, hne⟩
    have hn' : s'.taskCount ≤ n := by rw [hfound.count]; exact hn
    have hbefore := h.bounds hn
    rcases hfound.waiting h hn with hgoal | ⟨hne, hsame, hlt⟩ | ⟨hne, hlooks⟩
    · exact .inl hgoal
    · have hafter := (hnext hne).bounds hn'
      refine .inr ⟨hnext hne, ?_, by simp [hsame]⟩
      simp only [Scheduler.wait, hsame, Bool.toNat_true]
      omega
    · have hafter := (hnext hne).bounds hn'
      obtain ⟨k, hk⟩ : ∃ k, (s'.tasks i).looks = k + 1 :=
        ⟨_, (Nat.succ_pred_eq_of_pos (s'.tasks i).looks_pos).symm⟩
      refine .inr ⟨hnext hne, ?_, by simp [hlooks]⟩
      simp only [Scheduler.wait, ← hlooks, hk, Nat.add_sub_cancel, Bool.toNat_true, Nat.succ_mul]
      omega

/-- A call gives the CPU to a waiting task that needs one more look, in a pass, or leaves it waiting. -/
theorem exec_waiting {op : Op} (hrun : s.exec op = some (switched, s')) (h : s.Waiting i) {n : Nat}
    (hn : s'.taskCount ≤ n) :
    (s'.currentTask = i ∧ (s.tasks i).looks = 1 ∧ op.passes = true) ∨ Advances s s' n i op.passes := by
  have hcount := (exec_ok h.ok hrun).2
  rcases exec_cases h.ok hrun with ⟨entry, rfl, -, rfl⟩ | ⟨rfl, hout⟩ | ⟨ticks, rfl, hcase⟩
  · refine .inr ⟨⟨h.ok.addTask entry, h.timed.addTask entry, ?_, ?_⟩, ?_, ?_⟩
    · exact Nat.lt_of_lt_of_le h.lt hcount
    · rw [addTask_current]
      exact h.other
    · simp [wait, addTask_other h.lt, addTask_current, Op.passes]
    · simp [addTask_other h.lt]
  · rcases hout.waiting (n := n) h (by omega) with ⟨hcur, hlooks⟩ | hadvances
    · exact .inl ⟨hcur, hlooks, rfl⟩
    · exact .inr hadvances
  · have hmany := h.count
    rcases hcase with ⟨hzero, -, -⟩ | ⟨-, hout⟩
    · omega
    · have hsame : (s.dozing ticks).tasks i = s.tasks i := dozing_other s ticks (Ne.symm h.other)
      have hdozing : (s.dozing ticks).Waiting i := ⟨h.ok.dozing ticks, h.timed.dozing ticks, h.lt, h.other⟩
      have hwait : (s.dozing ticks).wait n i = s.wait n i := by
        rw [wait, hsame]
        rfl
      rcases hout.waiting hdozing (Nat.le_trans hcount hn) with ⟨hcur, hlooks⟩ | hadvances
      · exact .inl ⟨hcur, hsame ▸ hlooks, rfl⟩
      · exact .inr ⟨hadvances.waiting, hwait ▸ hadvances.nearer, hsame ▸ hadvances.steady⟩

end Scheduler

/-! ## The scheduler with its registers -/

section

variable {k k' : Switching} {act : Act} {i n : Nat}

theorem Switching.step_sched {op : Op} (h : k.step (.call op) = some k') :
    ∃ switched s, k.sched.exec op = some (switched, s) ∧ Scheduler.SameTimes s k'.sched := by
  obtain ⟨⟨switched, s⟩, hexec, h⟩ := Option.bind_eq_some_iff.mp h
  refine ⟨switched, s, hexec, ?_⟩
  cases switched with
  | none =>
      cases h
      exact ⟨rfl, rfl, fun _ => rfl, fun _ => rfl⟩
  | some next =>
      cases h
      refine ⟨rfl, rfl, fun j => ?_, fun j => ?_⟩
      · by_cases hj : j = k.sched.currentTask
        · simp [Switching.switchTo, Switching.contextSwitch, hj]
        · simp [Switching.switchTo, Switching.contextSwitch, hj]
      · by_cases hj : j = k.sched.currentTask
        · simp [Switching.switchTo, Switching.contextSwitch, hj]
        · simp [Switching.switchTo, Switching.contextSwitch, hj]

/-- Every step of a run, for a task that waits. -/
theorem Switching.step_waiting (h : k.step act = some k') (hw : k.sched.Waiting i)
    (hn : k'.sched.taskCount ≤ n) :
    (Resumes i ⟨k, act, k'⟩ ∧ (k.sched.tasks i).looks = 1 ∧ makesPass ⟨k, act, k'⟩ = true) ∨
      Scheduler.Advances k.sched k'.sched n i (makesPass ⟨k, act, k'⟩) := by
  cases act with
  | work cpu =>
      cases h
      exact .inr ⟨hw, Nat.le_refl _, Nat.le_refl _⟩
  | call op =>
      obtain ⟨switched, s, hexec, hsame⟩ := step_sched h
      rcases Scheduler.exec_waiting (n := n) hexec hw (hsame.count ▸ hn) with
        ⟨hcur, hlooks, hpass⟩ | hadvances
      · exact .inl ⟨⟨hw.other, hsame.current.trans hcur⟩, hlooks, hpass⟩
      · refine .inr ⟨hsame.waiting hadvances.waiting, ?_, ?_⟩
        · rw [hsame.wait]
          exact hadvances.nearer
        · rw [hsame.looks]
          exact hadvances.steady

theorem Switching.step_count (h : k.step act = some k') (hok : k.sched.Ok) :
    k.sched.taskCount ≤ k'.sched.taskCount := by
  cases act with
  | work cpu =>
      cases h
      exact Nat.le_refl _
  | call op =>
      obtain ⟨switched, s, hexec, hsame⟩ := step_sched h
      rw [hsame.count]
      exact (Scheduler.exec_ok hok hexec).2

/-- Task `i` gets the CPU, or there are more than `n` tasks. -/
def ResumesOrGrows (n i : Nat) (t : Step Switching Act) : Prop :=
  Resumes i t ∨ n < t.after.sched.taskCount

/-- The rounds left are a ranking, -/
theorem waiting_ranking (n i : Nat) :
    Ranking Switching.step makesPass (ResumesOrGrows n i) (fun k => k.sched.Waiting i)
      (fun k => k.sched.wait n i) := by
  have hstep : ∀ {k act k'}, k.sched.Waiting i → Switching.step k act = some k' →
      ¬ ResumesOrGrows n i ⟨k, act, k'⟩ →
      Scheduler.Advances k.sched k'.sched n i (makesPass ⟨k, act, k'⟩) := by
    intro k act k' hw h hnot
    obtain ⟨hresumes, hgrows⟩ := not_or.mp hnot
    rcases Switching.step_waiting h hw (Nat.le_of_not_lt hgrows) with ⟨hgoal, -⟩ | hadvances
    · exact absurd hgoal hresumes
    · exact hadvances
  exact ⟨fun hw h hnot => (hstep hw h hnot).waiting, fun hw h hnot => (hstep hw h hnot).nearer⟩

/-- and the looks left a distance. -/
theorem waiting_distance (i : Nat) :
    Distance Switching.step makesPass (Resumes i) (fun k => k.sched.Waiting i)
      (fun k => (k.sched.tasks i).looks) := by
  have hstep : ∀ {k act k'}, k.sched.Waiting i → Switching.step k act = some k' →
      ¬ Resumes i ⟨k, act, k'⟩ →
      Scheduler.Advances k.sched k'.sched k'.sched.taskCount i (makesPass ⟨k, act, k'⟩) := by
    intro k act k' hw h hnot
    rcases Switching.step_waiting h hw (Nat.le_refl _) with ⟨hgoal, -⟩ | hadvances
    · exact absurd hgoal hnot
    · exact hadvances
  refine ⟨fun hw h hnot => (hstep hw h hnot).waiting, fun hw h hnot => (hstep hw h hnot).steady, ?_⟩
  intro k act k' hw h hgoal
  rcases Switching.step_waiting h hw (Nat.le_refl _) with ⟨-, hlooks, hpass⟩ | hadvances
  · simp [hlooks, hpass]
  · exact absurd hgoal.2 hadvances.waiting.other

end

/-! ## Whole runs -/

theorem Switching.count_le {k k' : Switching} {ts : List (Step Switching Act)}
    (h : Trace Switching.step k ts k') (hok : k.sched.Ok) :
    k.sched.taskCount ≤ k'.sched.taskCount ∧ ∀ t ∈ ts, t.after.sched.taskCount ≤ k'.sched.taskCount := by
  induction h with
  | nil => simp
  | cons head _ ih =>
      obtain ⟨hrest, hall⟩ := ih (step_ok hok head)
      have hfirst := step_count head hok
      exact ⟨Nat.le_trans hfirst hrest, List.forall_mem_cons.mpr ⟨hrest, hall⟩⟩

theorem Switching.step_allTimed {k k' : Switching} {act : Act} (h : k.step act = some k')
    (hok : k.sched.Ok) (htimed : k.sched.AllTimed) : k'.sched.AllTimed := by
  cases act with
  | work cpu =>
      cases h
      exact htimed
  | call op =>
      obtain ⟨switched, s, hexec, hsame⟩ := step_sched h
      intro j hj
      rw [hsame.state]
      exact Scheduler.exec_allTimed hok htimed hexec j (by rw [← hsame.count]; exact hj)

/-- In every run a task without the CPU gets it back within `n - 1` passes for each look it needs,
when there are `n` tasks in the end, and it never gets it back in fewer passes than looks. -/
theorem waits_between (s₀ : Scheduler) (cpu : Context) (us ts : List (Step Switching Act))
    (k k' : Switching) (hstart : Trace Switching.step (Switching.boot s₀ cpu) us k)
    (hrun : Trace Switching.step k ts k') (i : Nat) (hi : i < k.sched.taskCount)
    (hother : k.sched.currentTask ≠ i) :
    ((k.sched.tasks i).looks * (k'.sched.taskCount - 1) ≤ total makesPass ts →
        ∃ t ∈ ts, Resumes i t) ∧
      ∀ vs t ws, ts = vs ++ t :: ws → Resumes i t →
        (k.sched.tasks i).looks ≤ total makesPass (vs ++ [t]) := by
  obtain ⟨hok, htimed⟩ := @Trace.inv _ _ _ _ _ _ (fun k => k.sched.Ok ∧ k.sched.AllTimed) hstart
    ⟨s₀.init_ok, fun j hj => absurd hj (Nat.not_lt_zero j)⟩
    fun h hstep => ⟨Switching.step_ok h.1 hstep, Switching.step_allTimed hstep h.1 h.2⟩
  have hw : k.sched.Waiting i := ⟨hok, htimed, hi, hother⟩
  obtain ⟨hcount, hall⟩ := Switching.count_le hrun hok
  constructor
  · intro hmany
    have hbounds := hw.bounds hcount
    obtain ⟨m, hm⟩ : ∃ m, (k.sched.tasks i).looks = m + 1 :=
      ⟨_, (Nat.succ_pred_eq_of_pos (k.sched.tasks i).looks_pos).symm⟩
    have hleft : k.sched.wait k'.sched.taskCount i < total makesPass ts := by
      simp only [Scheduler.wait, hm, Nat.add_sub_cancel, Nat.succ_mul] at hmany ⊢
      omega
    obtain ⟨t, ht, hgoal | hgrows⟩ := (waiting_ranking k'.sched.taskCount i).reaches hrun hw hleft
    · exact ⟨t, ht, hgoal⟩
    · exact absurd (hall t ht) (Nat.not_le.mpr hgrows)
  · rintro vs t ws rfl hgoal
    exact (waiting_distance i).le_total hrun hw hgoal

/-- Two tasks; the first one sleeps for three ticks while the second one yields. -/
def napTurns : List Act :=
  [.call (.add 0x1000), .call (.add 0x2000), .call (.sleep 3), .call .schedule, .call .schedule,
    .call .schedule]

theorem napTurns_states : (collect Switching.step (Switching.boot clearedTasks bootContext)
    napTurns).map (fun ts => ts.map fun t => (t.before.sched.taskCount, t.before.sched.currentTask,
      (t.before.sched.tasks 0).looks, t.after.sched.taskCount, makesPass t)) =
    some [(0, 0, 1, 1, false), (1, 0, 1, 2, false), (2, 0, 1, 2, true), (2, 1, 3, 2, true),
      (2, 1, 2, 2, true), (2, 1, 1, 2, true)] := by
  decide

theorem waits_between_naps : ∃ us ts k k',
    Trace Switching.step (Switching.boot clearedTasks bootContext) us k ∧
      Trace Switching.step k ts k' ∧ (k.sched.tasks 0).looks = 3 ∧ ts.length = 3 ∧
      ∃ t ∈ ts, Resumes 0 t := by
  obtain ⟨ts, hts, hmap⟩ := Option.map_eq_some_iff.mp napTurns_states
  obtain ⟨k', hrun⟩ := collect_trace hts
  match ts, hmap with
  | [t₁, t₂, t₃, t₄, t₅, t₆], hmap =>
      simp only [List.map_cons, List.map_nil, List.cons.injEq, Prod.mk.injEq, and_true] at hmap
      obtain ⟨-, -, -, ⟨hcount, hcurrent, hlooks, -, hpass₄⟩, ⟨-, -, -, -, hpass₅⟩,
        -, -, -, hcount', hpass₆⟩ := hmap
      obtain ⟨k, hstart, hrest⟩ := (show Trace Switching.step _ ([t₁, t₂, t₃] ++ [t₄, t₅, t₆]) k' from
        hrun).split
      have hfinal : k'.sched.taskCount = 2 := by
        cases hrest with
        | cons _ h => cases h with
          | cons _ h => cases h with
            | cons _ h => cases h with
              | nil => exact hcount'
      have hfirst : t₄.before = k := by
        cases hrest
        rfl
      rw [hfirst] at hcount hcurrent hlooks
      have hresumes := (waits_between clearedTasks bootContext _ _ k k' hstart hrest 0 (by omega)
        (by omega)).1
      rw [hlooks, hfinal] at hresumes
      exact ⟨_, _, k, k', hstart, hrest, hlooks, rfl, hresumes (by simp [hpass₄, hpass₅, hpass₆])⟩

end Kaviz.Sched
