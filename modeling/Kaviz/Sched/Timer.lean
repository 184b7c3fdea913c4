import Kaviz.Lib.Traces
import Kaviz.Sched.Sleep

/-! # Timer interrupts and their acknowledgement

`timer_callback` of `kernel/timer.c` acknowledges the interrupt after the call of
`scheduler_schedule`, and that call may leave to another task. A suspended task
continues where it was suspended: in a call it made itself, or inside
`timer_callback` in front of `apic_eoi`. `context_switch` is taken at its
specification.
-/

namespace Kaviz.Sched

open Traces

/-- Where a task continues. -/
inductive Resume
  | task
  | timer
  deriving DecidableEq

structure Timed where
  sched : Scheduler
  tickCount : Nat
  inService : Bool
  resume : Nat → Resume

inductive Event
  | tick
  | call (op : Op)

namespace Timed

/-- After `scheduler_init` and `timer_init`. -/
def boot (s : Scheduler) : Timed where
  sched := s.init
  tickCount := 0
  inService := false
  resume _ := .task

def apicEoi (k : Timed) : Timed := { k with inService := false }

/-- The rest of `timer_callback` is the acknowledgement. -/
def proceed (k : Timed) : Resume → Timed
  | .task => k
  | .timer => k.apicEoi

/-- The scheduler has been called by task `old` from the place `here`. -/
def switchTo (k : Timed) (old : Nat) (here : Resume) : Option Nat → Timed
  | none => k.proceed here
  | some next => { k with resume := Function.update k.resume old here }.proceed (k.resume next)

def timerCallback (k : Timed) : Option Timed :=
  let tickCount := (k.tickCount + 1) % 2 ^ 32
  let k := { k with tickCount := tickCount }
  if tickCount % 5 = 0 then do
    let (switched, s) ← k.sched.schedule
    return { k with sched := s }.switchTo k.sched.currentTask .timer switched
  else
    some k.apicEoi

/-- A new task continues at its entry point. -/
def call (k : Timed) (op : Op) : Option Timed := do
  let (switched, s) ← k.sched.exec op
  return { k with
    sched := s
    resume := match op with
      | .add _ => Function.update k.resume k.sched.taskCount .task
      | _ => k.resume }.switchTo k.sched.currentTask .task switched

/-- A timer interrupt is delivered only while none is in service. -/
def step (k : Timed) : Event → Option Timed
  | .tick => if k.inService then none else { k with inService := true }.timerCallback
  | .call op => k.call op

/-- No interrupt is in service, and nobody is suspended with one. -/
structure Calm (k : Timed) : Prop where
  ok : k.sched.Ok
  clear : k.inService = false
  resume : ∀ i, k.resume i = .task

/-- A tick that reaches the scheduler finds nobody else to run. -/
def Undisturbed (k : Timed) : Event → Prop
  | .tick => (k.tickCount + 1) % 2 ^ 32 % 5 = 0 → 1 < k.sched.taskCount → ¬ k.sched.OtherRunnable
  | .call _ => True

theorem boot_calm (s : Scheduler) : (boot s).Calm := ⟨s.init_ok, rfl, fun _ => rfl⟩

variable {k k' : Timed} {op : Op}

/-- Among calm tasks a call switches to code that is not the timer's. -/
theorem Calm.call (h : k.Calm) (hrun : k.call op = some k') : k'.Calm := by
  obtain ⟨⟨switched, s⟩, hexec, hrun⟩ := Option.bind_eq_some_iff.mp hrun
  cases hrun
  have hok := (Scheduler.exec_ok h.ok hexec).1
  have hnew : ∀ i, (match op with
      | .add _ => Function.update k.resume k.sched.taskCount .task
      | _ => k.resume) i = .task := by
    intro i
    cases op with
    | add entry => simp [Function.update_apply, h.resume]
    | schedule => exact h.resume i
    | sleep ticks => exact h.resume i
  cases switched with
  | none => exact ⟨hok, h.clear, hnew⟩
  | some next =>
      dsimp only [switchTo]
      rw [hnew next]
      refine ⟨hok, h.clear, fun i => ?_⟩
      show Function.update _ _ _ i = _
      rw [Function.update_apply, hnew i, ite_self]

/-- A tick among calm tasks is acknowledged exactly when nobody else can run. -/
theorem Calm.tick (h : k.Calm) (hrun : k.step .tick = some k') :
    (k'.inService = false ↔ k.Undisturbed .tick) ∧ (k.Undisturbed .tick → k'.Calm) := by
  rw [step, h.clear] at hrun
  simp only [Bool.false_eq_true, if_false, timerCallback] at hrun
  by_cases hfive : (k.tickCount + 1) % 2 ^ 32 % 5 = 0
  · rw [if_pos hfive] at hrun
    obtain ⟨⟨switched, s⟩, hsched, hrun⟩ := Option.bind_eq_some_iff.mp hrun
    cases hrun
    have hout := Scheduler.outcome_of_schedule h.ok hsched
    have hiff := hout.switched_iff h.ok
    have hund : k.Undisturbed .tick ↔ switched = none := by
      rw [← Option.not_isSome_iff_eq_none, hiff, not_and]
      exact ⟨fun hund => hund hfive, fun hno _ => hno⟩
    rw [hund]
    cases switched with
    | none =>
        have hcalm : ∀ x : Timed, x.sched = s → x.inService = false → x.resume = k.resume →
            x.Calm := by
          intro x hx hclear hres
          exact ⟨by rw [hx]; exact hout.ok h.ok, hclear, by rw [hres]; exact h.resume⟩
        exact ⟨iff_of_true rfl rfl, fun _ => hcalm _ rfl rfl rfl⟩
    | some next =>
        dsimp only [switchTo]
        rw [h.resume next]
        simp [proceed]
  · rw [if_neg hfive] at hrun
    cases hrun
    have hund : k.Undisturbed .tick := fun hzero => absurd hzero hfive
    exact ⟨iff_of_true rfl hund, fun _ => ⟨h.ok, rfl, h.resume⟩⟩

end Timed

/-- Task code never runs with the timer interrupt in service exactly in the runs
in which no tick takes the CPU away from a task. -/
theorem acknowledged_iff (s₀ : Scheduler) (ts : List (Step Timed Event)) (k : Timed)
    (hrun : Trace Timed.step (Timed.boot s₀) ts k) :
    (∀ t ∈ ts, t.after.inService = false) ↔ ∀ t ∈ ts, t.before.Undisturbed t.op := by
  refine hrun.forall_iff (Timed.boot_calm s₀) ?_ ?_
  · intro k event k' hcalm hstep
    cases event with
    | tick => exact (hcalm.tick hstep).1
    | call op => exact iff_of_true (hcalm.call hstep).clear trivial
  · intro k event k' hcalm hstep hund
    cases event with
    | tick => exact (hcalm.tick hstep).2 hund
    | call op => exact hcalm.call hstep

def fiveTicks : List Event :=
  [.call (.add 0x1000), .call (.add 0x2000), .tick, .tick, .tick, .tick, .tick]

theorem fiveTicks_flags : (collect Timed.step (Timed.boot clearedTasks) fiveTicks).map
    (fun ts => ts.map fun t => t.after.inService) =
      some [false, false, false, false, false, false, true] := by
  decide

/-- The second task starts with the interrupt in service. -/
theorem unacknowledged_start : ∃ ts k, Trace Timed.step (Timed.boot clearedTasks) ts k ∧
    ¬ ∀ t ∈ ts, t.after.inService = false := by
  obtain ⟨ts, hts, hmap⟩ := Option.map_eq_some_iff.mp fiveTicks_flags
  obtain ⟨k, hrun⟩ := collect_trace hts
  refine ⟨ts, k, hrun, fun hclear => ?_⟩
  have hmem : true ∈ ts.map fun t => t.after.inService := by
    rw [hmap]
    decide
  obtain ⟨t, ht, hflag⟩ := List.mem_map.mp hmem
  rw [hclear t ht] at hflag
  cases hflag

theorem acknowledged_iff_fiveTicks : ∃ ts k, Trace Timed.step (Timed.boot clearedTasks) ts k ∧
    ts.length = 7 ∧
      ((∀ t ∈ ts, t.after.inService = false) ↔ ∀ t ∈ ts, t.before.Undisturbed t.op) := by
  obtain ⟨ts, hts, hmap⟩ := Option.map_eq_some_iff.mp fiveTicks_flags
  obtain ⟨k, hrun⟩ := collect_trace hts
  have hlen : ts.length = 7 := by simpa using congrArg List.length hmap
  exact ⟨ts, k, hrun, hlen, acknowledged_iff clearedTasks ts k hrun⟩

end Kaviz.Sched
