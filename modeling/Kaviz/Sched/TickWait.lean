import Mathlib.Data.List.Chain
import Kaviz.Lib.Ring
import Kaviz.Sched.Timer

/-! # Waiting on the tick counter

`sleep` of `kernel/timer.c` compares the 32-bit difference of `tick_count` and its
value at the start with a bound. The wait is run beside a clock that never wraps;
they agree as long as every interrupt is followed by a look at the counter.
-/

namespace Kaviz.Sched

inductive Moment
  | interrupt
  | observe
  deriving DecidableEq

def interrupts (run : List Moment) : Nat := run.count .interrupt

@[simp] theorem interrupts_nil : interrupts [] = 0 := rfl

theorem interrupts_interrupt (run : List Moment) :
    interrupts (.interrupt :: run) = interrupts run + 1 :=
  List.count_cons_self

theorem interrupts_observe (run : List Moment) : interrupts (.observe :: run) = interrupts run :=
  List.count_cons_of_ne (by decide)

/-- No two interrupts without a look at the counter between them. -/
def Observed (run : List Moment) : Prop :=
  run.IsChain fun m m' => ¬ (m = .interrupt ∧ m' = .interrupt)

structure Wait where
  tickCount : Nat
  start : Nat
  ticks : Nat
  left : Bool
  deriving DecidableEq

def timerFrequency : Nat := 100

namespace Wait

/-- `sleep` in front of its loop. -/
def sleep (tickCount milliseconds : Nat) : Wait where
  tickCount := tickCount
  start := tickCount
  ticks := milliseconds / (1000 / timerFrequency)
  left := false

/-- `get_tick_count() - start`. -/
def elapsed (w : Wait) : Nat := (w.tickCount + 2 ^ 32 - w.start) % 2 ^ 32

def step (w : Wait) : Moment → Wait
  | .interrupt => { w with tickCount := (w.tickCount + 1) % 2 ^ 32 }
  | .observe => if w.left then w else { w with left := ¬ w.elapsed < w.ticks }

def run (w : Wait) (moments : List Moment) : Wait := moments.foldl step w

end Wait

/-- The clock that never wraps: a wait for `need` interrupts. -/
structure Clock where
  since : Nat
  left : Bool

namespace Clock

def step (need : Nat) (c : Clock) : Moment → Clock
  | .interrupt => { c with since := c.since + 1 }
  | .observe => if c.left then c else { c with left := need ≤ c.since }

def run (need : Nat) (c : Clock) (moments : List Moment) : Clock := moments.foldl (step need) c

variable {need : Nat} {c : Clock} {moments : List Moment}

theorem run_append (first rest : List Moment) :
    c.run need (first ++ rest) = (c.run need first).run need rest :=
  List.foldl_append

theorem since_run : (c.run need moments).since = c.since + interrupts moments := by
  induction moments generalizing c with
  | nil => rfl
  | cons m moments ih =>
      show ((c.step need m).run need moments).since = _
      rw [ih]
      cases m with
      | interrupt =>
          rw [interrupts_interrupt]
          show c.since + 1 + _ = _
          omega
      | observe =>
          rw [interrupts_observe, step]
          split <;> rfl

/-- A look in a run is the first moment or lies behind it. -/
theorem exists_look_cons {P : List Moment → Prop} (m : Moment) :
    (∃ pre post, m :: moments = pre ++ .observe :: post ∧ P pre) ↔
      (m = .observe ∧ P []) ∨ ∃ pre post, moments = pre ++ .observe :: post ∧ P (m :: pre) := by
  constructor
  · rintro ⟨pre, post, hsplit, hpre⟩
    cases pre with
    | nil => exact .inl ⟨(List.cons.inj hsplit).1, hpre⟩
    | cons m' pre =>
        obtain ⟨rfl, hrest⟩ := List.cons.inj hsplit
        exact .inr ⟨pre, post, hrest, hpre⟩
  · rintro (⟨rfl, hnil⟩ | ⟨pre, post, rfl, hpre⟩)
    · exact ⟨[], moments, rfl, hnil⟩
    · exact ⟨m :: pre, post, rfl, hpre⟩

/-- The clock has left exactly if one of the looks came late enough. -/
theorem left_run : (c.run need moments).left = true ↔ c.left = true ∨
    ∃ pre post, moments = pre ++ .observe :: post ∧ need ≤ c.since + interrupts pre := by
  induction moments generalizing c with
  | nil => simp [run]
  | cons m moments ih =>
      show ((c.step need m).run need moments).left = true ↔ _
      rw [ih, exists_look_cons]
      cases m with
      | interrupt =>
          simp only [step, interrupts_interrupt, reduceCtorEq, false_and, false_or, Nat.add_assoc,
            Nat.add_comm 1]
      | observe =>
          have hleft : (c.step need .observe).left = true ↔ c.left = true ∨ need ≤ c.since := by
            cases h : c.left <;> simp [step, h]
          have hsince : (c.step need .observe).since = c.since := by
            rw [step]
            split <;> rfl
          rw [hleft, hsince, or_assoc]
          simp [interrupts_observe]

end Clock

/-- How far the count may still run before the next look. -/
def slack : Moment → Nat
  | .interrupt => 0
  | .observe => 1

/-- The wrapped counter follows the clock; `last` is what happened last. -/
structure Agrees (w : Wait) (c : Clock) (last : Moment) : Prop where
  start : w.start < 2 ^ 32
  ticks : w.ticks < 2 ^ 32
  counter : w.tickCount = (w.start + c.since) % 2 ^ 32
  left : w.left = c.left
  few : c.left = false → c.since + slack last ≤ max w.ticks 1

section Simulation

variable {w : Wait} {c : Clock} {last : Moment} {moments : List Moment}

/-- Less than a whole turn after the start the difference is the number of interrupts. -/
theorem Agrees.elapsed_eq (h : Agrees w c last) (hfew : c.since < 2 ^ 32) :
    w.elapsed = c.since := by
  show Rings.unread (2 ^ 32) w.tickCount w.start = c.since
  rw [h.counter, Rings.unread_add h.start hfew]

theorem Agrees.interrupt (h : Agrees w c .observe) :
    Agrees (w.step .interrupt) (c.step w.ticks .interrupt) .interrupt where
  start := h.start
  ticks := h.ticks
  counter := by
    show (w.tickCount + 1) % 2 ^ 32 = (w.start + (c.since + 1)) % 2 ^ 32
    rw [h.counter, Nat.mod_add_mod, Nat.add_assoc]
  left := h.left
  few := h.few

theorem Agrees.observe (h : Agrees w c last) :
    Agrees (w.step .observe) (c.step w.ticks .observe) .observe := by
  cases hleft : c.left with
  | true =>
      have hw : w.step .observe = w := if_pos (h.left.trans hleft)
      have hc : c.step w.ticks .observe = c := if_pos hleft
      rw [hw, hc]
      exact ⟨h.start, h.ticks, h.counter, h.left, fun hnot => by rw [hleft] at hnot; cases hnot⟩
  | false =>
      have hfew := h.few hleft
      have helapsed := h.elapsed_eq (by have := h.ticks; omega)
      have hw : w.step .observe = { w with left := ¬ w.elapsed < w.ticks } :=
        if_neg (by rw [h.left, hleft]; decide)
      have hc : c.step w.ticks .observe = { c with left := w.ticks ≤ c.since } :=
        if_neg (by rw [hleft]; decide)
      rw [hw, hc, helapsed]
      refine ⟨h.start, h.ticks, h.counter, decide_eq_decide.mpr Nat.not_lt, fun hnot => ?_⟩
      have hlt : c.since < w.ticks := Nat.not_le.mp (of_decide_eq_false hnot)
      show c.since + 1 ≤ max w.ticks 1
      omega

theorem Wait.step_ticks (w : Wait) (m : Moment) : (w.step m).ticks = w.ticks := by
  cases m with
  | interrupt => rfl
  | observe =>
      rw [step]
      split <;> rfl

/-- A run in which every interrupt is seen is a run of the clock. -/
theorem Agrees.run (h : Agrees w c last)
    (hseen : (last :: moments).IsChain fun m m' => ¬ (m = .interrupt ∧ m' = .interrupt)) :
    (w.run moments).left = (c.run w.ticks moments).left := by
  induction moments generalizing w c last with
  | nil => exact h.left
  | cons m moments ih =>
      obtain ⟨hpair, hrest⟩ := List.isChain_cons_cons.mp hseen
      have hstep : Agrees (w.step m) (c.step w.ticks m) m := by
        cases m with
        | observe => exact h.observe
        | interrupt =>
            cases last with
            | interrupt => exact absurd ⟨rfl, rfl⟩ hpair
            | observe => exact h.interrupt
      have htail := ih hstep hrest
      rw [w.step_ticks] at htail
      exact htail

/-- Every look is within a whole turn of the start. -/
theorem Agrees.sleep {start milliseconds : Nat} (hstart : start < 2 ^ 32)
    (hms : milliseconds < 2 ^ 32) :
    Agrees (Wait.sleep start milliseconds) ⟨0, false⟩ .observe where
  start := hstart
  ticks := (Nat.div_le_self _ _).trans_lt hms
  counter := (Nat.mod_eq_of_lt hstart).symm
  left := rfl
  few _ := Nat.le_max_right _ _

end Simulation

/-! ## The counter of the kernel -/

section Counter

open Traces

variable {k k' : Timed} {ts : List (Step Timed Event)}

theorem Timed.switchTo_tickCount (old : Nat) (here : Resume) (switched : Option Nat) :
    (k.switchTo old here switched).tickCount = k.tickCount := by
  have hproceed : ∀ (k : Timed) (r : Resume), (k.proceed r).tickCount = k.tickCount := by
    intro k r
    cases r <;> rfl
  cases switched with
  | none => exact hproceed k here
  | some next => exact hproceed _ (k.resume next)

/-- `tick_count` after a step; only `timer_callback` writes it. -/
def Event.counted (tickCount : Nat) : Event → Nat
  | .tick => (tickCount + 1) % 2 ^ 32
  | .call _ => tickCount

theorem Timed.step_tickCount {event : Event} (h : k.step event = some k') :
    k'.tickCount = event.counted k.tickCount := by
  cases event with
  | call op =>
      obtain ⟨⟨switched, s⟩, -, hk⟩ := Option.bind_eq_some_iff.mp h
      cases hk
      exact Timed.switchTo_tickCount _ _ switched
  | tick =>
      simp only [Timed.step, Timed.timerCallback] at h
      by_cases hservice : k.inService = true
      · rw [if_pos hservice] at h
        cases h
      · rw [if_neg hservice] at h
        by_cases hfive : (k.tickCount + 1) % 2 ^ 32 % 5 = 0
        · rw [if_pos hfive] at h
          obtain ⟨⟨switched, s⟩, -, hk⟩ := Option.bind_eq_some_iff.mp h
          cases hk
          exact Timed.switchTo_tickCount _ _ switched
        · rw [if_neg hfive] at h
          cases h
          rfl

theorem Wait.tickCount_run (w : Wait) (moments : List Moment) (hlt : w.tickCount < 2 ^ 32) :
    (w.run moments).tickCount = (w.tickCount + interrupts moments) % 2 ^ 32 := by
  induction moments generalizing w with
  | nil => exact (Nat.mod_eq_of_lt hlt).symm
  | cons m moments ih =>
      cases m with
      | interrupt =>
          rw [interrupts_interrupt]
          refine (ih _ (Nat.mod_lt _ (by decide))).trans ?_
          show ((w.tickCount + 1) % 2 ^ 32 + _) % 2 ^ 32 = _
          rw [Nat.mod_add_mod, Nat.add_assoc, Nat.add_comm 1]
      | observe =>
          have hcount : (w.step .observe).tickCount = w.tickCount := by
            rw [step]
            split <;> rfl
          rw [interrupts_observe, ← hcount]
          exact ih _ (by rw [hcount]; exact hlt)

/-- What a step of the kernel is to a task in `sleep`. -/
def Event.moments : Event → List Moment
  | .tick => [.interrupt]
  | .call _ => []

/-- The task in `sleep` reads the counter of the kernel around it. -/
theorem Wait.follows {w : Wait} {moments : List Moment} (hrun : Trace Timed.step k ts k')
    (hw : w.tickCount = k.tickCount) (hlt : w.tickCount < 2 ^ 32)
    (hmoments : interrupts moments = interrupts (ts.flatMap fun t => t.op.moments)) :
    (w.run moments).tickCount = k'.tickCount := by
  rw [w.tickCount_run moments hlt, hmoments]
  clear hmoments
  induction hrun generalizing w with
  | nil => exact (Nat.mod_eq_of_lt hlt).trans hw
  | @cons s s₁ s' event ts head tail ih =>
      have hstep := Timed.step_tickCount head
      rw [List.flatMap_cons]
      cases event with
      | tick =>
          have hcount : (w.step .interrupt).tickCount = s₁.tickCount := by
            rw [hstep, Event.counted, ← hw]
            rfl
          rw [← ih hcount (Nat.mod_lt _ (by decide))]
          show (w.tickCount + interrupts (.interrupt :: ts.flatMap fun t => t.op.moments)) % 2 ^ 32 =
            ((w.tickCount + 1) % 2 ^ 32 + interrupts (ts.flatMap fun t => t.op.moments)) % 2 ^ 32
          rw [interrupts_interrupt, Nat.mod_add_mod, Nat.add_assoc, Nat.add_comm 1]
      | call op => exact ih (hw.trans hstep.symm) hlt

end Counter

/-! ## Leaving the loop -/

namespace Wait

/-- The loop is left at a look behind `moments`, and at no look before. -/
def LeavesAt (w : Wait) (moments : List Moment) : Prop :=
  (w.run moments).left = false ∧ (w.run (moments ++ [.observe])).left = true

end Wait

/-- The first look behind which `need` interrupts have occurred comes after `moments`. -/
def FirstLook (need : Nat) (moments : List Moment) : Prop :=
  need ≤ interrupts moments ∧
    ∀ pre post, moments = pre ++ .observe :: post → interrupts pre < need

theorem Clock.leaves_iff (need : Nat) (moments : List Moment) :
    ((Clock.run need ⟨0, false⟩ moments).left = false ∧
        (Clock.run need ⟨0, false⟩ (moments ++ [.observe])).left = true) ↔
      FirstLook need moments := by
  have hbefore : (Clock.run need ⟨0, false⟩ moments).left = false ↔
      ∀ pre post, moments = pre ++ .observe :: post → interrupts pre < need := by
    rw [← Bool.not_eq_true, Clock.left_run]
    simp
  rw [hbefore, FirstLook, and_comm]
  refine and_congr_left fun hall => ?_
  rw [Clock.run_append]
  show (Clock.step need _ .observe).left = true ↔ _
  rw [Clock.step, if_neg (by rw [hbefore.mpr hall]; decide), Clock.since_run]
  simp

/-- `sleep` leaves at the first look behind which `milliseconds / 10` interrupts have
occurred, also across the end of the counter. -/
theorem sleep_leaves_iff {start milliseconds : Nat} (hstart : start < 2 ^ 32)
    (hms : milliseconds < 2 ^ 32) {moments : List Moment} (hseen : Observed moments) :
    (Wait.sleep start milliseconds).LeavesAt moments ↔
      FirstLook (milliseconds / 10) moments := by
  have hrun : ∀ rest : List Moment, Observed rest →
      ((Wait.sleep start milliseconds).run rest).left =
        (Clock.run (milliseconds / 10) ⟨0, false⟩ rest).left := by
    intro rest hrest
    refine (Agrees.sleep hstart hms).run (List.isChain_cons.mpr ⟨?_, hrest⟩)
    intro m _ hpair
    cases hpair.1
  have hlook : Observed (moments ++ [.observe]) := by
    refine List.isChain_append.mpr ⟨hseen, List.isChain_singleton _, ?_⟩
    intro m _ m' hm' hpair
    rw [List.head?_cons, Option.mem_some_iff] at hm'
    rw [← hm'] at hpair
    cases hpair.2
  rw [Wait.LeavesAt, hrun moments hseen, hrun _ hlook, Clock.leaves_iff]

/-- A wait of 25 ms that starts at the end of the counter. -/
theorem sleep_leaves_wrapped :
    (Wait.sleep (2 ^ 32 - 1) 25).LeavesAt [.interrupt, .observe, .observe, .interrupt] ∧
      ((Wait.sleep (2 ^ 32 - 1) 25).LeavesAt [.interrupt, .observe, .observe, .interrupt] ↔
        FirstLook (25 / 10) [.interrupt, .observe, .observe, .interrupt]) := by
  refine ⟨?_, sleep_leaves_iff (by decide) (by decide) ?_⟩
  · unfold Wait.LeavesAt
    decide
  · unfold Observed
    decide

end Kaviz.Sched
