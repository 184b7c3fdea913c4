import Mathlib.Algebra.Order.Ring.Nat
import Mathlib.Data.List.Basic

/-! # Traces of a machine that takes requests

A machine either takes a step at a request or refuses it. A trace records the
states around every step, so that properties of whole runs can be stated about
its members. The rules reduce such properties to one step.
-/

namespace Kaviz.Traces

variable {σ α : Type*}

structure Step (σ α : Type*) where
  before : σ
  op : α
  after : σ

inductive Trace (step : σ → α → Option σ) : σ → List (Step σ α) → σ → Prop
  | nil (s : σ) : Trace step s [] s
  | cons {s s₁ s' : σ} {op : α} {ts : List (Step σ α)} (head : step s op = some s₁)
      (tail : Trace step s₁ ts s') : Trace step s (⟨s, op, s₁⟩ :: ts) s'

section Rules

variable {step : σ → α → Option σ} {s s' : σ} {ts us : List (Step σ α)} {Inv : σ → Prop}

theorem Trace.split (h : Trace step s (ts ++ us) s') :
    ∃ s₁, Trace step s ts s₁ ∧ Trace step s₁ us s' := by
  induction ts generalizing s with
  | nil => exact ⟨s, .nil s, h⟩
  | cons t ts ih =>
      cases h with
      | cons head tail =>
          obtain ⟨s₁, hfirst, hrest⟩ := ih tail
          exact ⟨s₁, .cons head hfirst, hrest⟩

/-- What every step preserves holds at the end. -/
theorem Trace.inv (h : Trace step s ts s') (hs : Inv s)
    (hstep : ∀ {s op s'}, Inv s → step s op = some s' → Inv s') : Inv s' := by
  induction h with
  | nil => exact hs
  | cons head _ ih => exact ih (hstep hs head)

/-- What every step preserves holds around every step. -/
theorem Trace.inv_of_mem (h : Trace step s ts s') (hs : Inv s)
    (hstep : ∀ {s op s'}, Inv s → step s op = some s' → Inv s') {t : Step σ α} (ht : t ∈ ts) :
    Inv t.before ∧ step t.before t.op = some t.after := by
  induction h with
  | nil => cases ht
  | cons head _ ih =>
      rcases List.mem_cons.mp ht with rfl | ht
      · exact ⟨hs, head⟩
      · exact ih (hstep hs head) ht

/-- What every step of a kind preserves holds around the steps of a trace of that kind. -/
theorem Trace.forall_inv {Cond : Step σ α → Prop} (h : Trace step s ts s') (hs : Inv s)
    (hstep : ∀ {s op s'}, Inv s → step s op = some s' → Cond ⟨s, op, s'⟩ → Inv s')
    (hcond : ∀ t ∈ ts, Cond t) : ∀ t ∈ ts, Inv t.before ∧ Inv t.after := by
  induction h with
  | nil => simp
  | cons head _ ih =>
      rw [List.forall_mem_cons] at hcond ⊢
      have hnext := hstep hs head hcond.1
      exact ⟨⟨hs, hnext⟩, ih hnext hcond.2⟩

/-- A property of the steps is equivalent to a condition on them in every trace,
when it is for a single step and the condition keeps the invariant. -/
theorem Trace.forall_iff {Good Cond : Step σ α → Prop} (h : Trace step s ts s') (hs : Inv s)
    (hstep : ∀ {s op s'}, Inv s → step s op = some s' → (Good ⟨s, op, s'⟩ ↔ Cond ⟨s, op, s'⟩))
    (hkeep : ∀ {s op s'}, Inv s → step s op = some s' → Cond ⟨s, op, s'⟩ → Inv s') :
    (∀ t ∈ ts, Good t) ↔ ∀ t ∈ ts, Cond t := by
  induction h with
  | nil => simp
  | cons head _ ih =>
      rw [List.forall_mem_cons, List.forall_mem_cons, hstep hs head]
      exact and_congr_right fun hcond => ih (hkeep hs head hcond)

end Rules

/-! ## Answers

A machine that answers its requests is one whose requests come with the answers they get.
-/

section Answers

variable {β : Type*} [DecidableEq β]

def answered (exec : σ → α → Option (β × σ)) (s : σ) (op : α × β) : Option σ :=
  (exec s op.1).bind fun r => if r.1 = op.2 then some r.2 else none

theorem answered_iff {exec : σ → α → Option (β × σ)} {s s' : σ} {op : α × β} :
    answered exec s op = some s' ↔ exec s op.1 = some (op.2, s') := by
  rw [answered, Option.bind_eq_some_iff]
  constructor
  · rintro ⟨⟨b, s₁⟩, hexec, hsame⟩
    obtain ⟨rfl, hstate⟩ := Option.ite_none_right_eq_some.mp hsame
    cases hstate
    exact hexec
  · intro hexec
    exact ⟨(op.2, s'), hexec, if_pos rfl⟩

end Answers

/-! ## Computed traces -/

def collect (step : σ → α → Option σ) : σ → List α → Option (List (Step σ α))
  | _, [] => some []
  | s, op :: ops => (step s op).bind fun s₁ => (collect step s₁ ops).map (⟨s, op, s₁⟩ :: ·)

theorem collect_trace {step : σ → α → Option σ} {s : σ} {ops : List α} {ts : List (Step σ α)}
    (h : collect step s ops = some ts) : ∃ s', Trace step s ts s' := by
  induction ops generalizing s ts with
  | nil =>
      cases h
      exact ⟨s, .nil s⟩
  | cons op ops ih =>
      obtain ⟨s₁, hstep, h⟩ := Option.bind_eq_some_iff.mp h
      obtain ⟨us, hus, rfl⟩ := Option.map_eq_some_iff.mp h
      obtain ⟨s', hrest⟩ := ih hus
      exact ⟨s', .cons hstep hrest⟩

end Kaviz.Traces
