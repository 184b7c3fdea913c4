import Kaviz.Lib.Traces

/-! # How long something takes

A machine takes steps, some of which are counted. A rank that every counted step
lowers bounds the number of steps until a goal from above; a distance that no
step lowers by more than it counts bounds it from below. Both are shown for one
step and hold for every run.
-/

namespace Kaviz.Progress

open Traces

variable {σ α : Type*}

def total (counts : Step σ α → Bool) (ts : List (Step σ α)) : Nat := ts.countP counts

section

variable {counts : Step σ α → Bool} {t : Step σ α} {ts us : List (Step σ α)}

@[simp] theorem total_nil : total counts ([] : List (Step σ α)) = 0 := rfl

@[simp] theorem total_cons : total counts (t :: ts) = total counts ts + (counts t).toNat := by
  cases h : counts t <;> simp [total, h]

@[simp] theorem total_append : total counts (ts ++ us) = total counts ts + total counts us := by
  simp [total]

end

/-- As long as a step is not the goal it keeps the invariant, does not raise the rank, and lowers
it when it counts. -/
structure Ranking (step : σ → α → Option σ) (counts : Step σ α → Bool) (Goal : Step σ α → Prop)
    (Inv : σ → Prop) (rank : σ → Nat) : Prop where
  keeps : ∀ {s op s'}, Inv s → step s op = some s' → ¬ Goal ⟨s, op, s'⟩ → Inv s'
  drops : ∀ {s op s'}, Inv s → step s op = some s' → ¬ Goal ⟨s, op, s'⟩ →
    rank s' + (counts ⟨s, op, s'⟩).toNat ≤ rank s

/-- Up to the goal no step brings it nearer than it counts, and the last one counts. -/
structure Distance (step : σ → α → Option σ) (counts : Step σ α → Bool) (Goal : Step σ α → Prop)
    (Inv : σ → Prop) (distance : σ → Nat) : Prop where
  keeps : ∀ {s op s'}, Inv s → step s op = some s' → ¬ Goal ⟨s, op, s'⟩ → Inv s'
  steady : ∀ {s op s'}, Inv s → step s op = some s' → ¬ Goal ⟨s, op, s'⟩ →
    distance s ≤ distance s' + (counts ⟨s, op, s'⟩).toNat
  last : ∀ {s op s'}, Inv s → step s op = some s' → Goal ⟨s, op, s'⟩ →
    distance s ≤ (counts ⟨s, op, s'⟩).toNat

section

variable {step : σ → α → Option σ} {counts : Step σ α → Bool} {Goal : Step σ α → Prop}
  {Inv : σ → Prop} {rank distance : σ → Nat} {s s' : σ} {ts : List (Step σ α)}

/-- A run without the goal counts no more steps than the rank it starts from. -/
theorem Ranking.total_le (hrank : Ranking step counts Goal Inv rank) (h : Trace step s ts s')
    (hs : Inv s) (hnot : ∀ t ∈ ts, ¬ Goal t) : rank s' + total counts ts ≤ rank s := by
  induction h with
  | nil => simp
  | cons head _ ih =>
      rw [List.forall_mem_cons] at hnot
      have hrest := ih (hrank.keeps hs head hnot.1) hnot.2
      have hstep := hrank.drops hs head hnot.1
      rw [total_cons]
      omega

theorem Ranking.reaches (hrank : Ranking step counts Goal Inv rank) (h : Trace step s ts s')
    (hs : Inv s) (hmany : rank s < total counts ts) : ∃ t ∈ ts, Goal t := by
  by_contra hnone
  have hle := hrank.total_le h hs fun t ht hgoal => hnone ⟨t, ht, hgoal⟩
  omega

/-- The goal is not reached before its distance was counted. -/
theorem Distance.le_total (hdistance : Distance step counts Goal Inv distance) {us vs : List (Step σ α)}
    {t : Step σ α} (h : Trace step s (us ++ t :: vs) s') (hs : Inv s) (hgoal : Goal t) :
    distance s ≤ total counts (us ++ [t]) := by
  induction us generalizing s with
  | nil =>
      cases h with
      | cons head _ => simpa using hdistance.last hs head hgoal
  | cons u us ih =>
      cases h with
      | cons head tail =>
          rw [List.cons_append, total_cons]
          rename_i s₁ op
          by_cases hfirst : Goal ⟨s, op, s₁⟩
          · have hlast := hdistance.last hs head hfirst
            omega
          · have hrest := ih tail (hdistance.keeps hs head hfirst)
            have hstep := hdistance.steady hs head hfirst
            omega

/-- What grows by what is counted only. -/
theorem le_add_total {f : σ → Nat} (h : Trace step s ts s')
    (hstep : ∀ {s op s'}, step s op = some s' → f s' ≤ f s + (counts ⟨s, op, s'⟩).toNat) :
    f s' ≤ f s + total counts ts := by
  induction h with
  | nil => simp
  | cons head _ ih =>
      have hfirst := hstep head
      rw [total_cons]
      omega

end

end Kaviz.Progress
