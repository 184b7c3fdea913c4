import Mathlib.Algebra.Order.Ring.Nat
import Mathlib.Logic.Function.Basic
import Mathlib.Data.Nat.ModEq

/-! # Circular buffers

A buffer of `cap` cells is read from an index on and wraps around. The window is
the list of the cells in reading order; storing behind it and advancing its start
are the two operations of a queue.
-/

namespace Kaviz.Rings

variable {α : Type*} {cap : Nat}

def window (cells : Nat → α) (cap start n : Nat) : List α :=
  (List.range n).map fun i => cells ((start + i) % cap)

/-- Number of cells from `tail` up to `head`. -/
def unread (cap head tail : Nat) : Nat := (head + cap - tail) % cap

@[simp] theorem window_length (cells : Nat → α) (start n : Nat) :
    (window cells cap start n).length = n := by
  simp [window]

@[simp] theorem window_zero (cells : Nat → α) (start : Nat) : window cells cap start 0 = [] := rfl

theorem unread_lt (hcap : 0 < cap) (head tail : Nat) : unread cap head tail < cap :=
  Nat.mod_lt _ hcap

theorem tail_add_unread {head tail : Nat} (hh : head < cap) (ht : tail < cap) :
    (tail + unread cap head tail) % cap = head := by
  unfold unread
  by_cases hle : tail ≤ head
  · rw [Nat.sub_add_comm hle, Nat.add_mod_right, Nat.mod_eq_of_lt (show head - tail < cap by omega),
      Nat.add_sub_cancel' hle, Nat.mod_eq_of_lt hh]
  · rw [Nat.mod_eq_of_lt (show head + cap - tail < cap by omega), Nat.add_sub_cancel' (by omega),
      Nat.add_mod_right, Nat.mod_eq_of_lt hh]

/-- The cell behind a window of `n` cells is `n` cells away. -/
theorem unread_add {tail n : Nat} (ht : tail < cap) (hn : n < cap) :
    unread cap ((tail + n) % cap) tail = n := by
  unfold unread
  by_cases hlt : tail + n < cap
  · rw [Nat.mod_eq_of_lt hlt, Nat.add_assoc, Nat.add_sub_cancel_left, Nat.add_mod_right,
      Nat.mod_eq_of_lt hn]
  · have hwrap : (tail + n) % cap = tail + n - cap := by
      rw [Nat.mod_eq_sub_mod (Nat.not_lt.mp hlt), Nat.mod_eq_of_lt (by omega)]
    rw [hwrap, Nat.sub_add_cancel (Nat.not_lt.mp hlt), Nat.add_sub_cancel_left, Nat.mod_eq_of_lt hn]

theorem unread_succ {head tail : Nat} (hh : head < cap) (ht : tail < cap)
    (hroom : (head + 1) % cap ≠ tail) :
    unread cap ((head + 1) % cap) tail = unread cap head tail + 1 := by
  unfold unread
  by_cases hwrap : head + 1 = cap
  · rw [hwrap, Nat.mod_self] at hroom ⊢
    by_cases hle : tail ≤ head
    · rw [Nat.sub_add_comm hle, Nat.add_mod_right, Nat.mod_eq_of_lt (by omega),
        Nat.mod_eq_of_lt (by omega)]
      omega
    · omega
  · rw [Nat.mod_eq_of_lt (show head + 1 < cap by omega)] at hroom ⊢
    by_cases hle : tail ≤ head
    · rw [Nat.sub_add_comm hle, Nat.sub_add_comm (show tail ≤ head + 1 by omega), Nat.add_mod_right,
        Nat.add_mod_right, Nat.mod_eq_of_lt (by omega), Nat.mod_eq_of_lt (by omega)]
      omega
    · rw [Nat.mod_eq_of_lt (by omega), Nat.mod_eq_of_lt (by omega)]
      omega

/-- The buffer is full when the next store would meet the reading index. -/
theorem unread_of_full {head tail : Nat} (hh : head < cap) (hfull : (head + 1) % cap = tail) :
    unread cap head tail = cap - 1 := by
  unfold unread
  by_cases hwrap : head + 1 = cap
  · rw [hwrap, Nat.mod_self] at hfull
    rw [← hfull, Nat.sub_zero, Nat.add_mod_right, Nat.mod_eq_of_lt hh]
    omega
  · rw [Nat.mod_eq_of_lt (by omega)] at hfull
    rw [← hfull, Nat.mod_eq_of_lt (by omega)]
    omega

theorem unread_advance {head tail : Nat} (hh : head < cap) (ht : tail < cap) (hne : head ≠ tail) :
    unread cap head tail = unread cap head ((tail + 1) % cap) + 1 := by
  unfold unread
  by_cases hwrap : tail + 1 = cap
  · rw [hwrap, Nat.mod_self, Nat.sub_zero, Nat.add_mod_right, Nat.mod_eq_of_lt hh,
      Nat.mod_eq_of_lt (by omega)]
    omega
  · rw [Nat.mod_eq_of_lt (show tail + 1 < cap by omega)]
    by_cases hle : tail ≤ head
    · rw [Nat.sub_add_comm hle, Nat.sub_add_comm (show tail + 1 ≤ head by omega), Nat.add_mod_right,
        Nat.add_mod_right, Nat.mod_eq_of_lt (by omega), Nat.mod_eq_of_lt (by omega)]
      omega
    · rw [Nat.mod_eq_of_lt (by omega), Nat.mod_eq_of_lt (by omega)]
      omega

theorem window_push (cells : Nat → α) {start n : Nat} (hn : n < cap) (v : α) :
    window (Function.update cells ((start + n) % cap) v) cap start (n + 1) =
      window cells cap start n ++ [v] := by
  unfold window
  rw [List.range_succ, List.map_append, List.map_singleton, Function.update_self]
  congr 1
  apply List.map_congr_left
  intro i hi
  have hlt := List.mem_range.1 hi
  apply Function.update_of_ne
  intro heq
  have hmod : (start + i) % cap = (start + n) % cap := heq
  have := Nat.ModEq.add_left_cancel' start hmod
  rw [Nat.ModEq, Nat.mod_eq_of_lt (by omega), Nat.mod_eq_of_lt hn] at this
  omega

theorem window_pop (cells : Nat → α) {start : Nat} (hs : start < cap) (n : Nat) :
    window cells cap start (n + 1) = cells start :: window cells cap ((start + 1) % cap) n := by
  unfold window
  rw [List.range_succ_eq_map, List.map_cons, Nat.add_zero, Nat.mod_eq_of_lt hs, List.map_map]
  congr 1
  apply List.map_congr_left
  intro i _
  show cells ((start + (i + 1)) % cap) = cells (((start + 1) % cap + i) % cap)
  rw [Nat.mod_add_mod, Nat.add_assoc, Nat.add_comm 1 i]

end Kaviz.Rings
