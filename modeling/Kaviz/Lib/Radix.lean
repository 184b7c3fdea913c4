import Mathlib.Algebra.Order.Ring.Nat
import Mathlib.Data.List.Induction

/-! # Multi-level tables

A radix tree stored in memory is seen through its `child` function: the table
that entry `i` of table `t` points to, if any. Tables are named by the index
path that leads to them from the root. When different paths lead to different
tables, an update of one entry is visible only below that entry; the lemmas
compute every walk after an update from the walks before it.
-/

namespace Kaviz.Radix

/-- The table reached from `t` along an index path. -/
def walk (child : Nat → Nat → Option Nat) : Nat → List Nat → Option Nat
  | t, [] => some t
  | t, i :: is => (child t i).bind fun t' => walk child t' is

/-- Tables missing on a path. -/
def missing (child : Nat → Nat → Option Nat) : Nat → List Nat → Nat
  | _, [] => 0
  | t, i :: is =>
      match child t i with
      | none => is.length + 1
      | some t' => missing child t' is

/-- Paths to the tables of a tree of the given depth. -/
def Within (fanout depth : Nat) (path : List Nat) : Prop :=
  path.length ≤ depth ∧ ∀ i ∈ path, i < fanout

/-- Different paths lead to different tables. -/
def Separated (child : Nat → Nat → Option Nat) (root fanout depth : Nat) : Prop :=
  ∀ p q t, Within fanout depth p → Within fanout depth q →
    walk child root p = some t → walk child root q = some t → p = q

/-- Two child functions agree on the entries of the tree, except at one entry. -/
def AgreeExcept (child child' : Nat → Nat → Option Nat) (root fanout depth t₀ i₀ : Nat) : Prop :=
  ∀ p t i, Within fanout depth p → walk child root p = some t → i < fanout →
    ¬ (t = t₀ ∧ i = i₀) → child' t i = child t i

section Walk

variable {child child' : Nat → Nat → Option Nat} {root fanout depth : Nat}

theorem walk_append (t : Nat) (p q : List Nat) :
    walk child t (p ++ q) = (walk child t p).bind fun t' => walk child t' q := by
  induction p generalizing t with
  | nil => rfl
  | cons i is ih =>
      cases h : child t i with
      | none => simp [walk, h]
      | some t' => simpa [walk, h] using ih t'

theorem walk_snoc (t : Nat) (p : List Nat) (i : Nat) :
    walk child t (p ++ [i]) = (walk child t p).bind fun t' => child t' i := by
  rw [walk_append]
  congr
  funext t'
  cases h : child t' i <;> simp [walk, h]

theorem missing_append {t t' : Nat} {p : List Nat} (h : walk child t p = some t') (q : List Nat) :
    missing child t (p ++ q) = missing child t' q := by
  induction p generalizing t with
  | nil =>
      cases h
      rfl
  | cons i is ih =>
      rw [walk] at h
      obtain ⟨x, hx, h⟩ := Option.bind_eq_some_iff.mp h
      rw [List.cons_append, missing, hx]
      exact ih h

theorem missing_of_none {t i : Nat} (h : child t i = none) (is : List Nat) :
    missing child t (i :: is) = is.length + 1 := by
  rw [missing, h]

theorem missing_le (child : Nat → Nat → Option Nat) (t : Nat) (p : List Nat) :
    missing child t p ≤ p.length := by
  induction p generalizing t with
  | nil => exact Nat.le_refl 0
  | cons i is ih =>
      rw [missing]
      cases child t i with
      | none => exact Nat.le_refl _
      | some t' => exact Nat.le_succ_of_le (ih t')

theorem missing_empty {t : Nat} {p : List Nat} (hempty : ∀ i, i < fanout → child t i = none)
    (hp : ∀ i ∈ p, i < fanout) : missing child t p = p.length := by
  cases p with
  | nil => rfl
  | cons i is => exact missing_of_none (hempty i (hp i (by simp))) is

theorem missing_eq_zero {t : Nat} {p : List Nat} : missing child t p = 0 ↔ (walk child t p).isSome := by
  induction p generalizing t with
  | nil => simp [missing, walk]
  | cons i is ih =>
      cases h : child t i with
      | none => simp [missing, walk, h]
      | some t' => simpa [missing, walk, h] using ih

/-- Trees that agree on the walks along a path miss the same tables. -/
theorem missing_congr {p : List Nat}
    (h : ∀ q, q <+: p → walk child' root q = walk child root q) :
    missing child' root p = missing child root p := by
  induction p generalizing root with
  | nil => rfl
  | cons i is ih =>
      have hone : child' root i = child root i := by
        have hwalk := h [i] ⟨is, rfl⟩
        simpa [walk] using hwalk
      cases hc : child root i with
      | none => simp [missing, hone, hc]
      | some x =>
          rw [missing, missing, hone, hc]
          refine ih fun q hq => ?_
          have hwalk := h (i :: q) (List.cons_prefix_cons.mpr ⟨rfl, hq⟩)
          simpa [walk, hone, hc] using hwalk

theorem Within.of_append {p q : List Nat} (h : Within fanout depth (p ++ q)) :
    Within fanout depth p := by
  refine ⟨?_, fun i hi => h.2 i (List.mem_append_left q hi)⟩
  have hlen := h.1
  rw [List.length_append] at hlen
  omega

theorem Within.last_lt {p : List Nat} {i : Nat} (h : Within fanout depth (p ++ [i])) :
    i < fanout := h.2 i (by simp)

/-- An update at entry `(t₀, i₀)` is invisible to every path that avoids it. -/
theorem walk_frame {t₀ i₀ : Nat} {p₀ : List Nat} (hsep : Separated child root fanout depth)
    (hp₀ : Within fanout depth p₀) (hwalk : walk child root p₀ = some t₀)
    (hagree : AgreeExcept child child' root fanout depth t₀ i₀) :
    ∀ p, Within fanout depth p → ¬ (p₀ ++ [i₀]) <+: p → walk child' root p = walk child root p := by
  intro p
  induction p using List.reverseRecOn with
  | nil => intro _ _; rfl
  | append_singleton p i ih =>
      intro hp havoid
      have hshort := ih hp.of_append (fun h => havoid (h.trans (List.prefix_append p [i])))
      rw [walk_snoc, walk_snoc, hshort]
      cases ht : walk child root p with
      | none => rfl
      | some t =>
          -- The only entry that may differ is excluded because its path is unique.
          refine hagree p t i hp.of_append ht hp.last_lt ?_
          rintro ⟨rfl, rfl⟩
          obtain rfl : p₀ = p := hsep p₀ p t hp₀ hp.of_append hwalk ht
          exact havoid (List.prefix_refl _)

section Link

variable {t₀ i₀ new : Nat} {p₀ : List Nat}

/-- Below the entry that now points to an empty table, only that table is found. -/
theorem walk_below_link (hsep : Separated child root fanout depth)
    (hp₀ : Within fanout depth p₀) (hwalk : walk child root p₀ = some t₀)
    (hagree : AgreeExcept child child' root fanout depth t₀ i₀)
    (hlink : child' t₀ i₀ = some new) (hempty : ∀ i, i < fanout → child' new i = none)
    (q : List Nat) (hq : ∀ i ∈ q, i < fanout) :
    walk child' root (p₀ ++ [i₀] ++ q) = if q = [] then some new else none := by
  have havoid : ¬ (p₀ ++ [i₀]) <+: p₀ := fun h => by
    have hlen := h.length_le
    rw [List.length_append, List.length_singleton] at hlen
    omega
  have hkeep := walk_frame hsep hp₀ hwalk hagree p₀ hp₀ havoid
  rw [walk_append, walk_snoc, hkeep, hwalk]
  cases q with
  | nil => simp [hlink, walk]
  | cons i is => simp [hlink, walk, hempty i (hq i (by simp))]

/-- A path reaches a table either as before or through the new link. -/
theorem walk_link_cases (hsep : Separated child root fanout depth)
    (hp₀ : Within fanout depth p₀) (hwalk : walk child root p₀ = some t₀)
    (hagree : AgreeExcept child child' root fanout depth t₀ i₀)
    (hlink : child' t₀ i₀ = some new) (hempty : ∀ i, i < fanout → child' new i = none)
    {p : List Nat} {t : Nat} (hp : Within fanout depth p) (ht : walk child' root p = some t) :
    (p = p₀ ++ [i₀] ∧ t = new) ∨ walk child root p = some t := by
  by_cases hbelow : (p₀ ++ [i₀]) <+: p
  · obtain ⟨q, rfl⟩ := hbelow
    rw [walk_below_link hsep hp₀ hwalk hagree hlink hempty q
      (fun i hi => hp.2 i (List.mem_append_right _ hi))] at ht
    split at ht
    · next hnil =>
        subst hnil
        exact Or.inl ⟨by simp, (Option.some.inj ht).symm⟩
    · cases ht
  · exact Or.inr (by rw [← walk_frame hsep hp₀ hwalk hagree p hp hbelow]; exact ht)

/-- Linking an empty table that was not part of the tree keeps paths unique. -/
theorem separated_link (hsep : Separated child root fanout depth)
    (hp₀ : Within fanout depth p₀) (hwalk : walk child root p₀ = some t₀)
    (hagree : AgreeExcept child child' root fanout depth t₀ i₀)
    (hlink : child' t₀ i₀ = some new) (hempty : ∀ i, i < fanout → child' new i = none)
    (hnew : ∀ p, Within fanout depth p → walk child root p ≠ some new) :
    Separated child' root fanout depth := by
  intro p q t hp hq hpt hqt
  rcases walk_link_cases hsep hp₀ hwalk hagree hlink hempty hp hpt with ⟨rfl, rfl⟩ | hpt'
  · rcases walk_link_cases hsep hp₀ hwalk hagree hlink hempty hq hqt with ⟨rfl, _⟩ | hqt'
    · rfl
    · exact absurd hqt' (hnew q hq)
  · rcases walk_link_cases hsep hp₀ hwalk hagree hlink hempty hq hqt with ⟨rfl, rfl⟩ | hqt'
    · exact absurd hpt' (hnew p hp)
    · exact hsep p q t hp hq hpt' hqt'

end Link

end Walk

end Kaviz.Radix
