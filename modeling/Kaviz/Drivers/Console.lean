import Mathlib.Algebra.Order.Ring.Nat
import Mathlib.Logic.Function.Basic
import Mathlib.Data.List.Basic

/-! # The text console

`kernel/drivers/console.c`. The screen is the array of cells behind `con.buffer`;
the indices stored to are logged. The cursor goes to the display controller through
an index port and a data port. The abstract terminal has rows without end, of which
the console shows the last ones.
-/

namespace Kaviz.Drivers

def vgaWidth : Nat := 80

def vgaHeight : Nat := 25

def vgaEntryColor (fg bg : UInt8) : UInt8 := fg ||| bg <<< 4

def vgaEntry (uc : UInt8) (color : UInt8) : UInt16 := uc.toUInt16 ||| color.toUInt16 <<< 8

structure Console where
  row : Nat
  column : Nat
  color : UInt8
  buffer : Nat → UInt16
  /-- The indices stored to, last first. -/
  written : List Nat
  /-- Index port of the display controller. -/
  selected : UInt8
  /-- Its registers. -/
  registers : UInt8 → UInt8

namespace Console

/-- `con.buffer[index] = entry`. -/
def store (c : Console) (index : Nat) (entry : UInt16) : Console :=
  { c with buffer := Function.update c.buffer index entry, written := index :: c.written }

/-- `outb` to the two ports of the display controller. -/
def outb (c : Console) (port : Nat) (value : UInt8) : Console :=
  if port = 0x3D4 then { c with selected := value }
  else if port = 0x3D5 then { c with registers := Function.update c.registers c.selected value }
  else c

def updateCursor (c : Console) : Console :=
  let pos := UInt16.ofNat (c.row * vgaWidth + c.column)
  let c := c.outb 0x3D4 0x0F
  let c := c.outb 0x3D5 (pos &&& 0xFF).toUInt8
  let c := c.outb 0x3D4 0x0E
  c.outb 0x3D5 ((pos >>> 8) &&& 0xFF).toUInt8

def cursor (c : Console) : Nat := (c.registers 0x0E).toNat * 256 + (c.registers 0x0F).toNat

/-- One pass of an inner loop: cells `dest`, `dest + 1`, ... get the entries from `entry`. -/
def storeRow (c : Console) (dest n : Nat) (entry : Console → Nat → UInt16) : Console :=
  (List.range n).foldl (fun c x => c.store (dest + x) (entry c x)) c

def clear (c : Console) : Console :=
  let c := (List.range vgaHeight).foldl
    (fun c y => c.storeRow (y * vgaWidth) vgaWidth fun c _ => vgaEntry 0x20 c.color) c
  updateCursor { c with row := 0, column := 0 }

def consoleInitialize (c : Console) : Console :=
  clear { c with row := 0, column := 0, color := vgaEntryColor 7 0 }

def scroll (c : Console) : Console :=
  let c := (List.range' 1 (vgaHeight - 1)).foldl
    (fun c y => c.storeRow ((y - 1) * vgaWidth) vgaWidth fun c x => c.buffer (y * vgaWidth + x)) c
  let c := c.storeRow ((vgaHeight - 1) * vgaWidth) vgaWidth fun c _ => vgaEntry 0x20 c.color
  { c with row := vgaHeight - 1 }

/-- The end of `console_putchar`: wrap, scroll and show the cursor. -/
def settle (c : Console) : Console :=
  let c := if c.column ≥ vgaWidth then { c with column := 0, row := c.row + 1 } else c
  let c := if c.row ≥ vgaHeight then c.scroll else c
  c.updateCursor

def putchar (c : Console) (ch : UInt8) : Console :=
  settle <|
    if ch = 0x0A then { c with column := 0, row := c.row + 1 }
    else if ch = 0x0D then { c with column := 0 }
    else if ch = 0x08 then
      if c.column > 0 then
        let c := putchar { c with column := c.column - 1 } 0x20
        { c with column := c.column - 1 }
      else c
    else
      let c := c.store (c.row * vgaWidth + c.column) (vgaEntry ch c.color)
      { c with column := c.column + 1 }
termination_by if ch = 0x08 then 1 else 0
decreasing_by simp [*]

/-- `console_write`, up to the terminator. -/
def write (c : Console) : List UInt8 → Console
  | [] => c
  | b :: bs => if b ≠ 0 then write (c.putchar b) bs else c

end Console

/-! ## The terminal -/

/-- Rows without end. -/
structure Terminal where
  cells : Nat → Nat → UInt8
  row : Nat
  column : Nat

namespace Terminal

def blank : Terminal := ⟨fun _ _ => 0x20, 0, 0⟩

def set (t : Terminal) (row column : Nat) (b : UInt8) : Nat → Nat → UInt8 :=
  Function.update t.cells row (Function.update (t.cells row) column b)

def put (t : Terminal) (b : UInt8) : Terminal :=
  if b = 0x0A then { t with row := t.row + 1, column := 0 }
  else if b = 0x0D then { t with column := 0 }
  else if b = 0x08 then
    if t.column > 0 then
      { t with cells := t.set t.row (t.column - 1) 0x20, column := t.column - 1 }
    else t
  else
    let t := { t with cells := t.set t.row t.column b }
    if t.column + 1 = 80 then { t with row := t.row + 1, column := 0 }
    else { t with column := t.column + 1 }

def top (t : Terminal) : Nat := t.row - 24

end Terminal

/-! ## The loops -/

namespace Console

variable {c : Console}

/-- An inner loop whose entries do not depend on the cells it has stored. -/
theorem storeRow_eq (dest : Nat) (entry : Console → Nat → UInt16) {n k : Nat} {f : Nat → UInt16}
    (hk : k ≤ n) (hentry : ∀ c' x, x < n → c'.color = c.color →
      (∀ i, i < dest ∨ dest + n ≤ i → c'.buffer i = c.buffer i) → entry c' x = f x) :
    ∃ w, c.storeRow dest k entry = { c with
        buffer := fun i => if dest ≤ i ∧ i < dest + k then f (i - dest) else c.buffer i
        written := w ++ c.written } ∧ ∀ i ∈ w, i < dest + k := by
  induction k with
  | zero =>
      refine ⟨[], ?_, by simp⟩
      have hnone : ∀ i, ¬ (dest ≤ i ∧ i < dest + 0) := by omega
      simp only [storeRow, List.range_zero, List.foldl_nil, hnone, if_false, List.nil_append]
  | succ k ih =>
      obtain ⟨w, heq, hw⟩ := ih (by omega)
      have hf : entry (c.storeRow dest k entry) k = f k := by
        apply hentry
        · omega
        · rw [heq]
        · intro i hi
          rw [heq]
          exact if_neg (by omega)
      have hsucc : c.storeRow dest (k + 1) entry =
          (c.storeRow dest k entry).store (dest + k) (f k) := by
        rw [storeRow, List.range_succ, List.foldl_append, List.foldl_cons, List.foldl_nil, ← storeRow,
          hf]
      refine ⟨(dest + k) :: w, ?_, ?_⟩
      · rw [hsucc, heq]
        unfold store
        congr 1
        funext i
        by_cases hi : i = dest + k
        · rw [hi, Function.update_self, if_pos (by omega), Nat.add_sub_cancel_left]
        · rw [Function.update_of_ne hi]
          dsimp only
          by_cases hin : dest ≤ i ∧ i < dest + k
          · rw [if_pos hin, if_pos (by omega)]
          · rw [if_neg hin, if_neg (by omega)]
      · intro i hi
        rcases List.mem_cons.1 hi with rfl | hi
        · omega
        · have := hw i hi
          omega

/-- An outer loop, line by line from the first on; a line may depend on those below it. -/
theorem storeRows_eq (k : Nat) (entry : Nat → Console → Nat → UInt16) {f : Nat → UInt16}
    (hentry : ∀ c' y x, x < vgaWidth → c'.color = c.color →
      (∀ i, (y + 1) * vgaWidth ≤ i → c'.buffer i = c.buffer i) →
      entry y c' x = f (y * vgaWidth + x)) :
    ∃ w, (List.range k).foldl (fun c y => c.storeRow (y * vgaWidth) vgaWidth (entry y)) c = { c with
        buffer := fun i => if i < k * vgaWidth then f i else c.buffer i
        written := w ++ c.written } ∧ ∀ i ∈ w, i < k * vgaWidth := by
  induction k with
  | zero =>
      refine ⟨[], ?_, by simp⟩
      have hnone : ∀ i, ¬ i < 0 * vgaWidth := by omega
      simp only [List.range_zero, List.foldl_nil, hnone, if_false, List.nil_append]
  | succ k ih =>
      obtain ⟨w, heq, hw⟩ := ih
      have hnext : (k + 1) * vgaWidth = k * vgaWidth + vgaWidth := Nat.succ_mul _ _
      rw [List.range_succ, List.foldl_append, heq, List.foldl_cons, List.foldl_nil]
      obtain ⟨w', heq', hw'⟩ := storeRow_eq (k * vgaWidth) (entry k)
        (f := fun x => f (k * vgaWidth + x))
        (c := { c with
          buffer := fun i => if i < k * vgaWidth then f i else c.buffer i
          written := w ++ c.written }) (Nat.le_refl vgaWidth) (by
          intro c' x hx hcolor hrest
          apply hentry c' k x hx hcolor
          intro i hi
          rw [hrest i (by omega)]
          exact if_neg (by omega))
      refine ⟨w' ++ w, ?_, ?_⟩
      · rw [heq', hnext, List.append_assoc]
        congr 1
        funext i
        dsimp only
        by_cases hi : i < k * vgaWidth
        · rw [if_neg (by omega), if_pos hi, if_pos (by omega)]
        · by_cases hi' : i < k * vgaWidth + vgaWidth
          · rw [if_pos (by omega), if_pos hi', Nat.add_sub_cancel' (by omega)]
          · rw [if_neg (by omega), if_neg hi, if_neg hi']
      · intro i hi
        rcases List.mem_append.1 hi with hi | hi
        · have := hw' i hi
          omega
        · have := hw i hi
          omega

theorem clear_eq (c : Console) :
    ∃ w, c.clear = updateCursor { c with
        row := 0
        column := 0
        buffer := fun i => if i < 2000 then vgaEntry 0x20 c.color else c.buffer i
        written := w ++ c.written } ∧ ∀ i ∈ w, i < 2000 := by
  obtain ⟨w, heq, hw⟩ := storeRows_eq (c := c) vgaHeight
    (fun _ c _ => vgaEntry 0x20 c.color) (f := fun _ => vgaEntry 0x20 c.color) (by
      intro c' y x _ hcolor _
      rw [hcolor])
  refine ⟨w, ?_, hw⟩
  unfold clear
  rw [heq]
  rfl

theorem scroll_eq (c : Console) :
    ∃ w, c.scroll = { c with
        row := 24
        buffer := fun i => if i < 1920 then c.buffer (i + 80)
          else if i < 2000 then vgaEntry 0x20 c.color else c.buffer i
        written := w ++ c.written } ∧ ∀ i ∈ w, i < 2000 := by
  obtain ⟨w, heq, hw⟩ := storeRows_eq (c := c) (vgaHeight - 1)
    (fun y c x => c.buffer ((1 + y) * vgaWidth + x)) (f := fun i => c.buffer (i + vgaWidth)) (by
      intro c' y x _ _ hrest
      have hnext : (1 + y) * vgaWidth = y * vgaWidth + vgaWidth := by
        rw [Nat.add_comm 1 y, Nat.succ_mul]
      rw [hrest _ (by rw [Nat.add_comm 1 y]; exact Nat.le_add_right _ _), hnext, Nat.add_right_comm])
  obtain ⟨w', heq', hw'⟩ := storeRow_eq ((vgaHeight - 1) * vgaWidth)
    (fun c _ => vgaEntry 0x20 c.color) (f := fun _ => vgaEntry 0x20 c.color) (c := { c with
      buffer := fun i => if i < (vgaHeight - 1) * vgaWidth then c.buffer (i + vgaWidth) else c.buffer i
      written := w ++ c.written }) (Nat.le_refl vgaWidth) (by
      intro c' x _ hcolor _
      rw [hcolor])
  have hloop : (List.range' 1 (vgaHeight - 1)).foldl (fun c y => c.storeRow ((y - 1) * vgaWidth)
      vgaWidth fun c x => c.buffer (y * vgaWidth + x)) c =
      (List.range (vgaHeight - 1)).foldl (fun c y => c.storeRow (y * vgaWidth) vgaWidth
        fun c x => c.buffer ((1 + y) * vgaWidth + x)) c := by
    rw [List.range'_eq_map_range, List.foldl_map]
    simp only [Nat.add_sub_cancel_left]
  refine ⟨w' ++ w, ?_, ?_⟩
  · unfold scroll
    rw [hloop, heq]
    dsimp only
    rw [heq', List.append_assoc]
    have hlast : (vgaHeight - 1) * vgaWidth = 1920 := rfl
    have hwidth : vgaWidth = 80 := rfl
    dsimp only
    congr 1
    funext i
    rw [hlast, hwidth]
    by_cases hi : i < 1920
    · rw [if_neg (by omega), if_pos hi, if_pos hi]
    · by_cases hi' : i < 2000
      · rw [if_pos (by omega), if_neg hi, if_pos hi']
      · rw [if_neg (by omega), if_neg hi, if_neg hi, if_neg hi']
  · intro i hi
    rcases List.mem_append.1 hi with hi | hi
    · exact hw' i hi
    · exact Nat.lt_trans (hw i hi) (by decide)

theorem cursor_updateCursor (h : c.row * vgaWidth + c.column < 2 ^ 16) :
    c.updateCursor.cursor = c.row * vgaWidth + c.column := by
  generalize hpos : c.row * vgaWidth + c.column = pos at h
  have hmask : (0xFF : UInt16).toNat = 2 ^ 8 - 1 := rfl
  have hshift : (8 : UInt16).toNat % 16 = 8 := rfl
  have hlow : ((UInt16.ofNat pos &&& 0xFF).toUInt8).toNat = pos % 256 := by
    rw [UInt16.toNat_toUInt8, UInt16.toNat_and, UInt16.toNat_ofNat', Nat.mod_eq_of_lt h, hmask,
      Nat.and_two_pow_sub_one_eq_mod]
    omega
  have hhigh : (((UInt16.ofNat pos >>> 8) &&& 0xFF).toUInt8).toNat = pos / 256 := by
    rw [UInt16.toNat_toUInt8, UInt16.toNat_and, UInt16.toNat_shiftRight, UInt16.toNat_ofNat',
      Nat.mod_eq_of_lt h, hmask, hshift, Nat.and_two_pow_sub_one_eq_mod, Nat.shiftRight_eq_div_pow]
    omega
  have hregs : c.updateCursor.cursor =
      (((UInt16.ofNat pos >>> 8) &&& 0xFF).toUInt8).toNat * 256 +
        ((UInt16.ofNat pos &&& 0xFF).toUInt8).toNat := by
    rw [← hpos]
    rfl
  rw [hregs, hlow, hhigh]
  omega

end Console

/-! ## The console shows the last rows -/

/-- The console shows the rows of the terminal from `top` on; those it has not come
to are blank. -/
structure Window (top : Nat) (c : Console) (t : Terminal) : Prop where
  row : c.row + top = t.row
  row_le : c.row ≤ 25
  anchored : top = 0 ∨ 24 ≤ c.row
  column : c.column = t.column
  column_lt : c.column < 80
  cells : ∀ y x, y < 25 → x < 80 → c.buffer (y * 80 + x) = vgaEntry (t.cells (top + y) x) c.color
  below : ∀ y x, top + 25 ≤ y → t.cells y x = 0x20
  written : ∀ i ∈ c.written, i < 2000

structure Shows (c : Console) (t : Terminal) : Prop where
  window : Window t.top c t
  row_lt : c.row < 25
  cursor : c.cursor = c.row * 80 + c.column

theorem Window.scroll {top : Nat} {c : Console} {t : Terminal} (h : Window top c t)
    (hrow : c.row = 25) : Window (top + 1) c.scroll t := by
  obtain ⟨w, heq, hw⟩ := c.scroll_eq
  have hlast := h.row
  rw [heq]
  refine ⟨by dsimp only; omega, (by decide : 24 ≤ 25), Or.inr (Nat.le_refl 24), h.column, h.column_lt, ?_, ?_, ?_⟩
  · intro y x hy hx
    dsimp only
    by_cases hlow : y < 24
    · rw [if_pos (by omega), show y * 80 + x + 80 = (y + 1) * 80 + x by omega,
        h.cells (y + 1) x (by omega) hx, Nat.add_assoc, Nat.add_comm y 1]
    · obtain rfl : y = 24 := by omega
      rw [if_neg (by omega), if_pos (by omega), h.below (top + 1 + 24) x (by omega)]
  · intro y x hy
    exact h.below y x (by omega)
  · intro i hi
    rcases List.mem_append.1 hi with hi | hi
    · exact hw i hi
    · exact h.written i hi

/-- A row on the screen is the cursor's distance from the first row shown. -/
theorem Window.shows {top : Nat} {c : Console} {t : Terminal} (h : Window top c t)
    (hrow : c.row < 25) : Shows c.updateCursor t := by
  have htop : t.top = top := by
    have := h.row
    have := h.anchored
    unfold Terminal.top
    omega
  have hpos : c.row * vgaWidth + c.column < 2 ^ 16 := by
    have := h.column_lt
    unfold vgaWidth
    omega
  rw [← htop] at h
  exact ⟨⟨h.row, h.row_le, h.anchored, h.column, h.column_lt, h.cells, h.below, h.written⟩, hrow,
    Console.cursor_updateCursor hpos⟩

/-- The end of `console_putchar` from a column on the screen. -/
theorem Window.settle {top : Nat} {c : Console} {t : Terminal} (h : Window top c t) :
    Shows c.settle t := by
  have hcol : ¬ c.column ≥ vgaWidth := Nat.not_le.2 h.column_lt
  unfold Console.settle
  rw [if_neg hcol]
  dsimp only
  by_cases hrow : c.row ≥ vgaHeight
  · have hrow' : c.row = 25 := Nat.le_antisymm h.row_le hrow
    rw [if_pos hrow]
    apply (h.scroll hrow').shows
    obtain ⟨w, heq, -⟩ := c.scroll_eq
    rw [heq]
    exact (by decide : 24 < 25)
  · rw [if_neg hrow]
    exact h.shows (Nat.lt_of_not_le hrow)

theorem settle_wrap {c : Console} (h : c.column = 80) :
    c.settle = Console.settle { c with column := 0, row := c.row + 1 } := by
  have hcol : c.column ≥ vgaWidth := Nat.le_of_eq h.symm
  have hcol' : ¬ 0 ≥ vgaWidth := by decide
  unfold Console.settle
  rw [if_pos hcol]
  dsimp only
  rw [if_neg hcol']

section Bytes

variable {top : Nat} {c : Console} {t : Terminal}

theorem Window.store_cells (h : Window top c t) (b : UInt8) {y x : Nat} (hx : x < 80) (hy : y < 25) :
    (c.store (c.row * vgaWidth + c.column) (vgaEntry b c.color)).buffer (y * 80 + x) =
      vgaEntry (t.set t.row t.column b (top + y) x) c.color := by
  have hr := h.row
  have hcol := h.column_lt
  have hwidth : vgaWidth = 80 := rfl
  unfold Console.store Terminal.set
  dsimp only
  rw [hwidth, ← h.column]
  by_cases hy' : y = c.row
  · rw [show top + y = t.row by omega, Function.update_self]
    by_cases hx' : x = c.column
    · rw [hy', hx', Function.update_self, Function.update_self]
    · rw [Function.update_of_ne (by omega), Function.update_of_ne hx', h.cells y x hy hx,
        show top + y = t.row by omega]
  · rw [Function.update_of_ne (by omega), Function.update_of_ne (by omega), h.cells y x hy hx]

theorem Window.store_below (h : Window top c t) (hrow : c.row < 25) (b : UInt8) {y x : Nat}
    (hy : top + 25 ≤ y) : t.set t.row t.column b y x = 0x20 := by
  have hr := h.row
  unfold Terminal.set
  rw [Function.update_of_ne (by omega), h.below y x hy]

theorem Window.store_written (h : Window top c t) (hrow : c.row < 25) (e : UInt16) :
    ∀ i ∈ (c.store (c.row * vgaWidth + c.column) e).written, i < 2000 := by
  have hcol := h.column_lt
  have hwidth : vgaWidth = 80 := rfl
  rw [hwidth]
  intro i hi
  rcases List.mem_cons.1 hi with rfl | hi
  · omega
  · exact h.written i hi

/-- `console_putchar` of a byte without a meaning of its own. -/
theorem putchar_plain {b : UInt8} (h1 : b ≠ 0x0A) (h2 : b ≠ 0x0D) (h3 : b ≠ 0x08) :
    c.putchar b = Console.settle { c.store (c.row * vgaWidth + c.column) (vgaEntry b c.color) with
      column := c.column + 1 } := by
  rw [Console.putchar, if_neg h1, if_neg h2, if_neg h3]
  rfl

theorem Window.plain (hw : Window t.top c t) (hrow : c.row < 25) {b : UInt8} (h1 : b ≠ 0x0A)
    (h2 : b ≠ 0x0D) (h3 : b ≠ 0x08) : Shows (c.putchar b) (t.put b) := by
  have hr := hw.row
  have hcol := hw.column
  have hlt := hw.column_lt
  have hanchor := hw.anchored
  rw [putchar_plain h1 h2 h3, Terminal.put, if_neg h1, if_neg h2, if_neg h3]
  dsimp only
  by_cases hedge : t.column + 1 = 80
  · rw [if_pos hedge, settle_wrap (by dsimp only; omega)]
    apply @Window.settle t.top
    refine ⟨?_, ?_, ?_, rfl, (by decide : 0 < 80), fun y x hy hx => hw.store_cells b hx hy,
      fun y x hy => hw.store_below hrow b hy, hw.store_written hrow (vgaEntry b c.color)⟩
    · show c.row + 1 + t.top = t.row + 1
      omega
    · show c.row + 1 ≤ 25
      omega
    · show t.top = 0 ∨ 24 ≤ c.row + 1
      omega
  · rw [if_neg hedge]
    apply @Window.settle t.top
    refine ⟨hr, hw.row_le, hanchor, ?_, ?_, fun y x hy hx => hw.store_cells b hx hy,
      fun y x hy => hw.store_below hrow b hy, hw.store_written hrow (vgaEntry b c.color)⟩
    · show c.column + 1 = t.column + 1
      omega
    · show c.column + 1 < 80
      omega

theorem Shows.newline (h : Shows c t) : Shows (c.putchar 0x0A) (t.put 0x0A) := by
  have hw := h.window
  have hrow := h.row_lt
  have hr := hw.row
  have hanchor := hw.anchored
  rw [Console.putchar, if_pos rfl, Terminal.put, if_pos rfl]
  apply @Window.settle t.top
  refine ⟨?_, ?_, ?_, rfl, (by decide : 0 < 80), hw.cells, hw.below, hw.written⟩
  · show c.row + 1 + t.top = t.row + 1
    omega
  · show c.row + 1 ≤ 25
    omega
  · show t.top = 0 ∨ 24 ≤ c.row + 1
    omega

theorem Shows.carriageReturn (h : Shows c t) : Shows (c.putchar 0x0D) (t.put 0x0D) := by
  have hw := h.window
  rw [Console.putchar, if_neg (by decide), if_pos rfl, Terminal.put, if_neg (by decide), if_pos rfl]
  apply @Window.settle t.top
  exact ⟨hw.row, hw.row_le, hw.anchored, rfl, (by decide : 0 < 80), hw.cells, hw.below, hw.written⟩

/-- A backspace writes a blank by a call of its own, which moves the cursor back where it
was: the column is left of the edge, so that call does not wrap. -/
theorem Shows.backspace (h : Shows c t) : Shows (c.putchar 0x08) (t.put 0x08) := by
  have hw := h.window
  have hcol := hw.column
  have hlt := hw.column_lt
  have hA : (0x08 : UInt8) ≠ 0x0A := by decide
  have hD : (0x08 : UInt8) ≠ 0x0D := by decide
  rw [Console.putchar, if_neg hA, if_neg hD, if_pos rfl, Terminal.put, if_neg hA, if_neg hD,
    if_pos rfl]
  by_cases hzero : c.column > 0
  · rw [if_pos hzero, if_pos (by omega)]
    have hback : Window t.top { c with column := c.column - 1 } { t with column := t.column - 1 } :=
      ⟨hw.row, hw.row_le, hw.anchored, congrArg (· - 1) hcol, by dsimp only; omega, hw.cells, hw.below,
        hw.written⟩
    have hblank := Window.plain (t := { t with column := t.column - 1 }) hback h.row_lt (b := 0x20)
      (by decide) (by decide) (by decide)
    have hput : Terminal.put { t with column := t.column - 1 } 0x20 =
        { t with cells := t.set t.row (t.column - 1) 0x20, column := t.column } := by
      rw [Terminal.put, if_neg (by decide), if_neg (by decide), if_neg (by decide)]
      dsimp only
      rw [if_neg (by omega), Nat.sub_add_cancel (by omega)]
      rfl
    rw [hput] at hblank
    generalize Console.putchar { c with column := c.column - 1 } 0x20 = c' at hblank
    have hw' := hblank.window
    have hcol' : c'.column = t.column := hw'.column
    apply @Window.settle t.top
    exact ⟨hw'.row, hw'.row_le, hw'.anchored, congrArg (· - 1) hcol', by dsimp only; omega, hw'.cells,
      hw'.below, hw'.written⟩
  · rw [if_neg hzero, if_neg (by omega)]
    exact hw.settle

theorem Shows.putchar (h : Shows c t) (b : UInt8) : Shows (c.putchar b) (t.put b) := by
  by_cases h1 : b = 0x0A
  · rw [h1]
    exact h.newline
  by_cases h2 : b = 0x0D
  · rw [h2]
    exact h.carriageReturn
  by_cases h3 : b = 0x08
  · rw [h3]
    exact h.backspace
  exact h.window.plain h.row_lt h1 h2 h3

end Bytes

theorem shows_initial (c : Console) (hc : c.written = []) :
    Shows c.consoleInitialize Terminal.blank := by
  obtain ⟨w, heq, hw⟩ :=
    Console.clear_eq { c with row := 0, column := 0, color := vgaEntryColor 7 0 }
  rw [Console.consoleInitialize, heq]
  apply @Window.shows 0
  · refine ⟨rfl, (by decide : 0 ≤ 25), Or.inl rfl, rfl, (by decide : 0 < 80), ?_, fun _ _ _ => rfl, ?_⟩
    · intro y x hy hx
      exact if_pos (by omega)
    · intro i hi
      rw [hc, List.append_nil] at hi
      exact hw i hi
  · exact (by decide : 0 < 25)

/-- After every string of bytes other than NUL the console shows the last rows of the
terminal, and the display controller has the cursor. -/
theorem console_shows_tail (c : Console) (hc : c.written = []) (data : List UInt8)
    (hdata : ∀ b ∈ data, b ≠ 0) :
    Shows (c.consoleInitialize.write data) (data.foldl Terminal.put Terminal.blank) := by
  have hwrite : ∀ (c : Console) (t : Terminal), Shows c t →
      Shows (c.write data) (data.foldl Terminal.put t) := by
    induction data with
    | nil => exact fun _ _ h => h
    | cons b data ih =>
        intro c t h
        have hb := hdata b List.mem_cons_self
        rw [Console.write, if_pos hb, List.foldl_cons]
        exact ih (fun b' hb' => hdata b' (List.mem_cons_of_mem _ hb')) _ _ (h.putchar b)
  exact hwrite _ _ (shows_initial c hc)

theorem console_shows_tail_typed :
    Shows ((Console.consoleInitialize ⟨3, 90, 0x1F, fun _ => 0, [], 0, fun _ => 0⟩).write
        [0x6B, 0x61, 0x08, 0x0A])
      ([0x6B, 0x61, 0x08, 0x0A].foldl Terminal.put Terminal.blank) :=
  console_shows_tail ⟨3, 90, 0x1F, fun _ => 0, [], 0, fun _ => 0⟩ rfl [0x6B, 0x61, 0x08, 0x0A]
    (by simp)

end Kaviz.Drivers
