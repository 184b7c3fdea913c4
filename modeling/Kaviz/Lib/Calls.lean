import Mathlib.Algebra.Order.Ring.Nat
import Mathlib.Data.List.Basic

/-! # Programs that record their calls

A program works on a world it knows nothing about: every answer comes from the
world, and `none` means that it does not return. The calls it makes are recorded
newest first. The rules are those of partial correctness, for every world at once.
A world can be made to keep a log of its own, which changes no run.
-/

namespace Kaviz.Calls

variable {κ ω α β : Type}

/-- Programs over a world `ω` that record calls `κ`. -/
abbrev Prog (κ ω α : Type) := StateT (List κ × ω) Option α

/-- Ask the world and record the call with its answer. -/
def call (record : α → κ) (answer : ω → Option (α × ω)) : Prog κ ω α :=
  fun s => (answer s.2).map fun r => (r.1, record r.1 :: s.1, r.2)

/-- Ask the world without a record. -/
def silent (answer : ω → Option (α × ω)) : Prog κ ω α :=
  fun s => (answer s.2).map fun r => (r.1, s.1, r.2)

/-- In every world the program, started on the calls `cs`, can return only with
an answer and calls that satisfy `Q`. -/
def Ensures (cs : List κ) (p : Prog κ ω α) (Q : α → List κ → Prop) : Prop :=
  ∀ w a cs' w', p (cs, w) = some (a, cs', w') → Q a cs'

variable {cs : List κ} {Q : β → List κ → Prop} {R : α → List κ → Prop}

theorem Ensures.pure {a : α} (h : R a cs) : Ensures cs (Pure.pure a : Prog κ ω α) R := by
  intro w a' cs' w' hrun
  cases hrun
  exact h

theorem Ensures.mono {p : Prog κ ω α} {R' : α → List κ → Prop} (hp : Ensures cs p R)
    (himp : ∀ a cs', R a cs' → R' a cs') : Ensures cs p R' := by
  intro w a cs' w' hrun
  exact himp a cs' (hp w a cs' w' hrun)

theorem Ensures.bind {p : Prog κ ω α} {q : α → Prog κ ω β} (hp : Ensures cs p R)
    (hq : ∀ a cs', R a cs' → Ensures cs' (q a) Q) : Ensures cs (p >>= q) Q := by
  intro w b cs' w' hrun
  obtain ⟨⟨a, cs₁, w₁⟩, hfirst, hrest⟩ := Option.bind_eq_some_iff.mp hrun
  exact hq a cs₁ (hp w a cs₁ w₁ hfirst) w₁ b cs' w' hrest

theorem Ensures.call_bind {record : α → κ} {answer : ω → Option (α × ω)} {q : α → Prog κ ω β}
    (hq : ∀ a, Ensures (record a :: cs) (q a) Q) : Ensures cs (call record answer >>= q) Q := by
  have hcall : Ensures cs (call record answer) fun a cs' => cs' = record a :: cs := by
    intro w a cs' w' hrun
    obtain ⟨r, -, hr⟩ := Option.map_eq_some_iff.mp hrun
    cases hr
    rfl
  refine hcall.bind ?_
  intro a cs' h
  rw [h]
  exact hq a

theorem Ensures.silent_bind {answer : ω → Option (α × ω)} {q : α → Prog κ ω β}
    (hq : ∀ a, Ensures cs (q a) Q) : Ensures cs (silent answer >>= q) Q := by
  have hsilent : Ensures cs (silent answer) fun (_ : α) cs' => cs' = cs := by
    intro w a cs' w' hrun
    obtain ⟨r, -, hr⟩ := Option.map_eq_some_iff.mp hrun
    cases hr
    rfl
  refine hsilent.bind ?_
  intro a cs' h
  rw [h]
  exact hq a

/-! ## Worlds that keep a log -/

section Logs

variable {η : Type} {log : List η}

/-- Answer as before, and note the answer in the log. Irreducible, so that the rules find it. -/
@[irreducible]
def noted (answer : ω → Option (α × ω)) (note : α → List η → List η) :
    ω × List η → Option (α × (ω × List η)) :=
  fun w => (answer w.1).map fun r => (r.1, r.2, note r.1 w.2)

theorem noted_log {answer : ω → Option (α × ω)} {note : α → List η → List η} {w : ω}
    {r : α × ω × List η} (h : noted answer note (w, log) = some r) : r.2.2 = note r.1 log := by
  unfold noted at h
  obtain ⟨x, -, hx⟩ := Option.map_eq_some_iff.mp h
  rw [← hx]

/-- In every world with this log the program can return only with an answer and a log
that satisfy `Q`. -/
def Leaves (log : List η) (p : Prog κ (ω × List η) α) (Q : α → List η → Prop) : Prop :=
  ∀ cs w a cs' w' log', p (cs, w, log) = some (a, cs', w', log') → Q a log'

variable {Q : β → List η → Prop} {R : α → List η → Prop}

theorem Leaves.pure {a : α} (h : R a log) : Leaves log (Pure.pure a : Prog κ (ω × List η) α) R := by
  intro cs w a' cs' w' log' hrun
  cases hrun
  exact h

theorem Leaves.mono {p : Prog κ (ω × List η) α} {R' : α → List η → Prop} (hp : Leaves log p R)
    (himp : ∀ a log', R a log' → R' a log') : Leaves log p R' := by
  intro cs w a cs' w' log' hrun
  exact himp a log' (hp cs w a cs' w' log' hrun)

theorem Leaves.bind {p : Prog κ (ω × List η) α} {q : α → Prog κ (ω × List η) β}
    (hp : Leaves log p R) (hq : ∀ a log', R a log' → Leaves log' (q a) Q) :
    Leaves log (p >>= q) Q := by
  intro cs w b cs' w' log' hrun
  obtain ⟨⟨a, cs₁, w₁, log₁⟩, hfirst, hrest⟩ := Option.bind_eq_some_iff.mp hrun
  exact hq a log₁ (hp cs w a cs₁ w₁ log₁ hfirst) cs₁ w₁ b cs' w' log' hrest

theorem Leaves.call_bind {record : α → κ} {answer : ω → Option (α × ω)}
    {note : α → List η → List η} {q : α → Prog κ (ω × List η) β}
    (hq : ∀ a, Leaves (note a log) (q a) Q) :
    Leaves log (call record (noted answer note) >>= q) Q := by
  have hcall : Leaves log (@call κ _ _ record (noted answer note)) fun a log' =>
      log' = note a log := by
    intro cs w a cs' w' log' hrun
    obtain ⟨⟨a₁, w₁, log₁⟩, hr, hsome⟩ := Option.map_eq_some_iff.mp hrun
    cases hsome
    exact noted_log hr
  refine hcall.bind ?_
  intro a log' h
  rw [h]
  exact hq a

theorem Leaves.silent_bind {answer : ω → Option (α × ω)} {note : α → List η → List η}
    {q : α → Prog κ (ω × List η) β} (hq : ∀ a, Leaves (note a log) (q a) Q) :
    Leaves log (silent (noted answer note) >>= q) Q := by
  have hsilent : Leaves log (@silent κ _ _ (noted answer note)) fun a log' =>
      log' = note a log := by
    intro cs w a cs' w' log' hrun
    obtain ⟨⟨a₁, w₁, log₁⟩, hr, hsome⟩ := Option.map_eq_some_iff.mp hrun
    cases hsome
    exact noted_log hr
  refine hsilent.bind ?_
  intro a log' h
  rw [h]
  exact hq a

/-- Without the log the first program runs as the second does. -/
def Erases (p : Prog κ (ω × List η) α) (q : Prog κ ω α) : Prop :=
  ∀ cs w log, (p (cs, w, log)).map (fun r => (r.1, r.2.1, r.2.2.1)) = q (cs, w)

theorem Erases.pure (a : α) :
    Erases (Pure.pure a : Prog κ (ω × List η) α) (Pure.pure a : Prog κ ω α) := by
  intro cs w log
  rfl

theorem Erases.bind {p : Prog κ (ω × List η) α} {p' : Prog κ ω α} {q : α → Prog κ (ω × List η) β}
    {q' : α → Prog κ ω β} (hp : Erases p p') (hq : ∀ a, Erases (q a) (q' a)) :
    Erases (p >>= q) (p' >>= q') := by
  intro cs w log
  have hfirst := hp cs w log
  show ((p (cs, w, log)).bind fun r => q r.1 r.2).map _ = (p' (cs, w)).bind fun r => q' r.1 r.2
  cases hrun : p (cs, w, log) with
  | none =>
      rw [hrun] at hfirst
      rw [← hfirst]
      rfl
  | some r =>
      rw [hrun] at hfirst
      rw [← hfirst]
      exact hq r.1 r.2.1 r.2.2.1 r.2.2.2

theorem Erases.call (record : α → κ) (answer : ω → Option (α × ω)) (note : α → List η → List η) :
    Erases (call record (noted answer note)) (call record answer) := by
  intro cs w log
  cases h : answer w with
  | none => simp [Calls.call, noted, h]
  | some r => simp [Calls.call, noted, h]

theorem Erases.silent (answer : ω → Option (α × ω)) (note : α → List η → List η) :
    Erases (@silent κ _ _ (noted answer note)) (silent answer) := by
  intro cs w log
  cases h : answer w with
  | none => simp [Calls.silent, noted, h]
  | some r => simp [Calls.silent, noted, h]

/-- A run without the log is a run with it. -/
theorem Erases.exists_log {p : Prog κ (ω × List η) α} {q : Prog κ ω α} (h : Erases p q)
    {cs cs' : List κ} {w w' : ω} {a : α} (hrun : q (cs, w) = some (a, cs', w')) (log : List η) :
    ∃ log', p (cs, w, log) = some (a, cs', w', log') := by
  rw [← h cs w log] at hrun
  obtain ⟨⟨a', cs₁, w₁, log'⟩, hp, hr⟩ := Option.map_eq_some_iff.mp hrun
  cases hr
  exact ⟨log', hp⟩

end Logs

end Kaviz.Calls
