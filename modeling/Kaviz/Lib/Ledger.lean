import Mathlib.Algebra.Order.Ring.Nat
import Mathlib.Data.List.Count

/-! # Ledgers of acquired and released resources

A history, newest entry first, of what a program acquired and gave back. The
same resource may be handed out again after its release, so what is live is a
multiset: a release takes out one acquisition.
-/

namespace Kaviz.Ledger

variable {α : Type*} [DecidableEq α]

inductive Entry (α : Type*)
  | acquire (a : α)
  | release (a : α)
  deriving DecidableEq

def live : List (Entry α) → List α
  | [] => []
  | .acquire a :: h => a :: live h
  | .release a :: h => (live h).erase a

def Disciplined : List (Entry α) → Prop
  | [] => True
  | .acquire _ :: h => Disciplined h
  | .release a :: h => a ∈ live h ∧ Disciplined h

/-- No resource has been released more often than it was acquired. -/
def ReleasedOnce (h : List (Entry α)) : Prop :=
  ∀ a, h.count (.release a) ≤ h.count (.acquire a)

/-- Releases and live acquisitions make up the acquisitions. -/
theorem Disciplined.count_eq {h : List (Entry α)} (hd : Disciplined h) (a : α) :
    h.count (.release a) + (live h).count a = h.count (.acquire a) := by
  induction h with
  | nil => rfl
  | cons e h ih =>
      cases e with
      | acquire b =>
          have hrest := ih hd
          rw [live, List.count_cons, List.count_cons, List.count_cons]
          by_cases hb : b = a
          · subst hb
            simp
            omega
          · simp [hb]
            omega
      | release b =>
          have hrest := ih hd.2
          rw [live, List.count_cons, List.count_cons, List.count_erase]
          by_cases hb : b = a
          · subst hb
            have hpos := List.count_pos_iff.mpr hd.1
            simp
            omega
          · simp [hb]
            omega

theorem Disciplined.releasedOnce {h : List (Entry α)} (hd : Disciplined h) : ReleasedOnce h := by
  intro a
  have hcount := hd.count_eq a
  omega

/-- What was acquired last and is released at once leaves the live resources as they were. -/
theorem live_release_acquire (a : α) (h : List (Entry α)) :
    live (.release a :: .acquire a :: h) = live h := by
  rw [live, live, List.erase_cons_head]

/-- What is disciplined was disciplined at every earlier time. -/
theorem Disciplined.suffix {h h' : List (Entry α)} (hd : Disciplined (h ++ h')) : Disciplined h' := by
  induction h with
  | nil => exact hd
  | cons e h ih =>
      cases e with
      | acquire _ => exact ih hd
      | release _ => exact ih hd.2

/-- A disciplined stretch of history releases only what it acquired itself. -/
theorem Disciplined.live_append {h : List (Entry α)} (hd : Disciplined h) (before : List (Entry α)) :
    live (h ++ before) = live h ++ live before := by
  induction h with
  | nil => rfl
  | cons e h ih =>
      cases e with
      | acquire a =>
          rw [List.cons_append, live, ih hd]
          rfl
      | release a =>
          rw [List.cons_append, live, ih hd.2, List.erase_append_left _ hd.1]
          rfl

end Kaviz.Ledger
