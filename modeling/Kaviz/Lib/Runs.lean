import Mathlib.Algebra.Order.Ring.Nat
import Mathlib.Data.List.Basic

/-! # Runs of an operation list, and simulation by a specification

A component takes operations one after another and answers each. A
specification relates an operation, an abstract state, an answer and the next
abstract state. One step lemma about the component lifts to whole runs.
-/

namespace Kaviz.Runs

variable {σ α β μ : Type*}

def run (step : σ → α → β × σ) : σ → List α → List β × σ
  | s, [] => ([], s)
  | s, a :: as =>
      let first := step s a
      let rest := run step first.2 as
      (first.1 :: rest.1, rest.2)

/-- A run of the specification: answers `bs` to operations `as`. -/
inductive SpecRun (spec : α → μ → β → μ → Prop) : μ → List α → List β → μ → Prop
  | nil (m : μ) : SpecRun spec m [] [] m
  | cons {m m' m'' : μ} {a : α} {b : β} {as : List α} {bs : List β}
      (head : spec a m b m') (tail : SpecRun spec m' as bs m'') :
      SpecRun spec m (a :: as) (b :: bs) m''

/-- A step lemma under an invariant gives the invariant and the simulation of every run. -/
theorem run_simulates {step : σ → α → β × σ} {spec : α → μ → β → μ → Prop} {Inv : σ → Prop}
    {valid : α → Prop} (abs : σ → μ)
    (hstep : ∀ s a, Inv s → valid a →
      Inv (step s a).2 ∧ spec a (abs s) (step s a).1 (abs (step s a).2))
    {s : σ} (hinv : Inv s) {as : List α} (hvalid : ∀ a ∈ as, valid a) :
    Inv (run step s as).2 ∧ SpecRun spec (abs s) as (run step s as).1 (abs (run step s as).2) := by
  induction as generalizing s with
  | nil => exact ⟨hinv, .nil _⟩
  | cons a as ih =>
      obtain ⟨hnext, hspec⟩ := hstep s a hinv (hvalid a (by simp))
      obtain ⟨hlast, htail⟩ := ih hnext (fun b hb => hvalid b (by simp [hb]))
      exact ⟨hlast, .cons hspec htail⟩

end Kaviz.Runs
