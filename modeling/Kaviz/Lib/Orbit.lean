import Mathlib.Algebra.Order.Ring.Nat
import Mathlib.Data.Finset.Card
import Mathlib.Logic.Function.Iterate

/-! # Walks that come back

A walk takes the same step from the same place every time. Inside finitely many
places it goes on for ever exactly when it comes back to a place before it has
left them, and it then never visits another one.
-/

namespace Kaviz.Orbit

variable {α : Type*} {f : α → α} {x : α} {i j : Nat}

/-- Once the walk has come back, it stays among the places before. -/
theorem iterate_before (hij : i < j) (hback : f^[i] x = f^[j] x) (k : Nat) :
    ∃ m, m < j ∧ f^[k] x = f^[m] x := by
  induction k using Nat.strong_induction_on with
  | h k ih =>
      by_cases hk : k < j
      · exact ⟨k, hk, rfl⟩
      · obtain ⟨m, hm, heq⟩ := ih (k - j + i) (by omega)
        refine ⟨m, hm, ?_⟩
        calc f^[k] x = f^[k - j + j] x := by rw [Nat.sub_add_cancel (Nat.le_of_not_lt hk)]
          _ = f^[k - j] (f^[i] x) := by rw [Function.iterate_add_apply, ← hback]
          _ = f^[m] x := by rw [← Function.iterate_add_apply, heq]

/-- A walk inside finitely many places comes back to one of them. -/
theorem exists_back (s : Finset α) (h : ∀ k, f^[k] x ∈ s) :
    ∃ i j, i < j ∧ f^[i] x = f^[j] x := by
  have hcard : s.card < (Finset.range (s.card + 1)).card := by
    rw [Finset.card_range]
    exact Nat.lt_succ_self _
  obtain ⟨i, -, j, -, hne, heq⟩ :=
    Finset.exists_ne_map_eq_of_card_lt_of_maps_to hcard fun k _ => h k
  rcases Nat.lt_or_gt_of_ne hne with hlt | hgt
  · exact ⟨i, j, hlt, heq⟩
  · exact ⟨j, i, hgt, heq.symm⟩

/-- What holds of finitely many places only holds all along a walk exactly when the
walk comes back while it still holds. -/
theorem forall_iterate_iff {P : α → Prop} (s : Finset α) (hs : ∀ y, P y → y ∈ s) :
    (∀ k, P (f^[k] x)) ↔ ∃ i j, i < j ∧ f^[i] x = f^[j] x ∧ ∀ k, k < j → P (f^[k] x) := by
  constructor
  · intro hall
    obtain ⟨i, j, hij, hback⟩ := exists_back s fun k => hs _ (hall k)
    exact ⟨i, j, hij, hback, fun k _ => hall k⟩
  · rintro ⟨i, j, hij, hback, hbefore⟩ k
    obtain ⟨m, hm, heq⟩ := iterate_before hij hback k
    rw [heq]
    exact hbefore m hm

end Kaviz.Orbit
