import Kaviz.Lib.Ring

/-! # The keyboard buffer

`kernel/drivers/keyboard.c`. The interrupt handler runs as a whole; the reader, the
main loop of `kernel_main` with `keyboard_has_input` and `keyboard_getchar`, runs
one load or store at a time, and the handler may come before each of them. C leaves
open which of the two indices a comparison loads first, so both orders are taken.
The logs of stored and of returned characters belong to no program variable.
-/

namespace Kaviz.Drivers

open Rings

/-- `KEYBOARD_BUFFER_SIZE`. -/
def bufferSize : Nat := 256

structure Keyboard where
  buffer : Nat → UInt8
  head : Nat
  tail : Nat

def scancodeToAscii : List UInt8 :=
  ['\x00', '\x00', '1', '2', '3', '4', '5', '6', '7', '8', '9', '0', '-', '=', '\x08',
    '\t', 'q', 'w', 'e', 'r', 't', 'y', 'u', 'i', 'o', 'p', '[', ']', '\n',
    '\x00', 'a', 's', 'd', 'f', 'g', 'h', 'j', 'k', 'l', ';', '\x27', '\x60', '\x00',
    '\x5c', 'z', 'x', 'c', 'v', 'b', 'n', 'm', ',', '.', '/', '\x00', '*', '\x00', ' '].map
    Char.toUInt8

def decode (scancode : UInt8) : Option UInt8 :=
  if scancode &&& 0x80 = 0 then
    if scancode.toNat < scancodeToAscii.length then
      let c := scancodeToAscii.getD scancode.toNat 0
      if c ≠ 0 then some c else none
    else none
  else none

/-- `keyboard_handler`, with the character it stored. -/
def keyboardHandler (k : Keyboard) (scancode : UInt8) : Keyboard × Option UInt8 :=
  match decode scancode with
  | none => (k, none)
  | some c =>
      let nextHead := (k.head + 1) % bufferSize
      if nextHead ≠ k.tail then
        ({ k with buffer := Function.update k.buffer k.head c, head := nextHead }, some c)
      else (k, none)

/-! ## The reader -/

/-- Where the main loop is; a location carries what was loaded. -/
inductive Location
  /-- In front of `keyboard_has_input`. -/
  | poll
  | pollHead (head : Nat)
  | pollTail (tail : Nat)
  /-- `keyboard_getchar` is entered, which asks again. -/
  | getchar
  | askHead (head : Nat)
  | askTail (tail : Nat)
  /-- In front of `keyboard_buffer[buffer_tail]`. -/
  | fetch
  | fetchAt (tail : Nat)
  /-- In front of the update of `buffer_tail`. -/
  | advance (c : UInt8)
  | advanceFrom (c : UInt8) (tail : Nat)

structure Machine where
  keyboard : Keyboard
  location : Location
  /-- What `keyboard_getchar` returned to the main loop. -/
  returned : List UInt8
  /-- What the handler stored. -/
  accepted : List UInt8

inductive Event
  /-- The interrupt, with the scancode it reads. -/
  | key (scancode : UInt8)
  /-- The next load or store of the reader. -/
  | read (headFirst : Bool)

/-- `keyboard_has_input` has loaded both indices in the main loop. -/
def polled (head tail : Nat) : Location := if head ≠ tail then .getchar else .poll

/-- `keyboard_getchar` has loaded both indices: without input it returns 0. -/
def asked (m : Machine) (head tail : Nat) : Machine :=
  if head ≠ tail then { m with location := .fetch }
  else { m with location := .poll, returned := m.returned ++ [0] }

/-- One load or store of the main loop. -/
def read (m : Machine) (headFirst : Bool) : Machine :=
  let k := m.keyboard
  match m.location with
  | .poll => { m with location := if headFirst then .pollHead k.head else .pollTail k.tail }
  | .pollHead h => { m with location := polled h k.tail }
  | .pollTail t => { m with location := polled k.head t }
  | .getchar => { m with location := if headFirst then .askHead k.head else .askTail k.tail }
  | .askHead h => asked m h k.tail
  | .askTail t => asked m k.head t
  | .fetch => { m with location := .fetchAt k.tail }
  | .fetchAt t => { m with location := .advance (k.buffer t) }
  | .advance c => { m with location := .advanceFrom c k.tail }
  | .advanceFrom c t =>
      { m with
        keyboard := { k with tail := (t + 1) % bufferSize }
        location := .poll
        returned := m.returned ++ [c] }

def step (m : Machine) : Event → Machine
  | .key scancode =>
      let result := keyboardHandler m.keyboard scancode
      { m with keyboard := result.1, accepted := m.accepted ++ result.2.toList }
  | .read headFirst => read m headFirst

def start : Machine := ⟨⟨fun _ => 0, 0, 0⟩, .poll, [], []⟩

def run (events : List Event) : Machine := events.foldl step start

def buffered (k : Keyboard) : List UInt8 :=
  window k.buffer bufferSize k.tail (unread bufferSize k.head k.tail)

/-! ## The invariant -/

/-- What the reader may rely on at a location. Only the reader moves the tail, and
the handler never empties the buffer. -/
def Location.Holds (k : Keyboard) : Location → Prop
  | .poll => True
  | .pollHead h => h ≠ k.tail → k.head ≠ k.tail
  | .pollTail t => t = k.tail
  | .getchar | .fetch => k.head ≠ k.tail
  | .askHead h => h ≠ k.tail ∧ k.head ≠ k.tail
  | .askTail t | .fetchAt t => t = k.tail ∧ k.head ≠ k.tail
  | .advance c => c = k.buffer k.tail ∧ k.head ≠ k.tail
  | .advanceFrom c t => c = k.buffer k.tail ∧ t = k.tail ∧ k.head ≠ k.tail

structure Inv (m : Machine) : Prop where
  head_lt : m.keyboard.head < bufferSize
  tail_lt : m.keyboard.tail < bufferSize
  location : m.location.Holds m.keyboard
  fifo : m.returned ++ buffered m.keyboard = m.accepted

theorem inv_start : Inv start := ⟨by decide, by decide, trivial, rfl⟩

theorem keyboardHandler_cases (k : Keyboard) (scancode : UInt8) :
    (∃ c, decode scancode = some c ∧ (k.head + 1) % bufferSize ≠ k.tail ∧
      keyboardHandler k scancode = ({ k with
        buffer := Function.update k.buffer k.head c
        head := (k.head + 1) % bufferSize }, some c)) ∨
    (keyboardHandler k scancode = (k, none) ∧
      (decode scancode = none ∨ (k.head + 1) % bufferSize = k.tail)) := by
  unfold keyboardHandler
  cases hdecode : decode scancode with
  | none => exact Or.inr ⟨rfl, Or.inl rfl⟩
  | some c =>
      dsimp only
      by_cases hroom : (k.head + 1) % bufferSize ≠ k.tail
      · rw [if_pos hroom]
        exact Or.inl ⟨c, rfl, hroom, rfl⟩
      · rw [if_neg hroom]
        exact Or.inr ⟨rfl, Or.inr (not_not.1 hroom)⟩

theorem buffered_store {k : Keyboard} (hh : k.head < bufferSize) (ht : k.tail < bufferSize)
    (hroom : (k.head + 1) % bufferSize ≠ k.tail) (c : UInt8) :
    buffered ⟨Function.update k.buffer k.head c, (k.head + 1) % bufferSize, k.tail⟩ =
      buffered k ++ [c] := by
  have hlt := unread_lt (show 0 < bufferSize by decide) k.head k.tail
  have hpush := @window_push UInt8 bufferSize k.buffer k.tail _ hlt c
  rw [tail_add_unread hh ht] at hpush
  unfold buffered
  rw [unread_succ hh ht hroom, hpush]

theorem buffered_take {k : Keyboard} (hh : k.head < bufferSize) (ht : k.tail < bufferSize)
    (hne : k.head ≠ k.tail) :
    buffered k = k.buffer k.tail :: buffered { k with tail := (k.tail + 1) % bufferSize } := by
  unfold buffered
  rw [unread_advance hh ht hne, window_pop k.buffer ht]

/-- The interrupt leaves the reader what it relies on. -/
theorem Location.holds_store {k : Keyboard} {l : Location} (h : l.Holds k)
    (hroom : (k.head + 1) % bufferSize ≠ k.tail) (c : UInt8) :
    l.Holds ⟨Function.update k.buffer k.head c, (k.head + 1) % bufferSize, k.tail⟩ := by
  cases l with
  | poll => trivial
  | pollHead _ => exact fun _ => hroom
  | pollTail _ => exact h
  | getchar => exact hroom
  | fetch => exact hroom
  | askHead _ => exact ⟨h.1, hroom⟩
  | askTail _ => exact ⟨h.1, hroom⟩
  | fetchAt _ => exact ⟨h.1, hroom⟩
  | advance _ => exact ⟨h.1.trans (Function.update_of_ne h.2.symm _ _).symm, hroom⟩
  | advanceFrom _ _ =>
      exact ⟨h.1.trans (Function.update_of_ne h.2.2.symm _ _).symm, h.2.1, hroom⟩

theorem inv_key {m : Machine} (h : Inv m) (scancode : UInt8) : Inv (step m (.key scancode)) := by
  obtain ⟨c, -, hroom, heq⟩ | ⟨heq, -⟩ := keyboardHandler_cases m.keyboard scancode
  · simp only [step, heq]
    refine ⟨Nat.mod_lt _ (by decide), h.tail_lt, Location.holds_store h.location hroom c, ?_⟩
    show m.returned ++ buffered _ = m.accepted ++ [c]
    rw [buffered_store h.head_lt h.tail_lt hroom, ← List.append_assoc, h.fifo]
  · simp only [step, heq]
    refine ⟨h.head_lt, h.tail_lt, h.location, ?_⟩
    show m.returned ++ buffered _ = m.accepted ++ []
    rw [List.append_nil, h.fifo]

theorem Inv.move {m : Machine} (h : Inv m) {l : Location} (hl : l.Holds m.keyboard) :
    Inv { m with location := l } := ⟨h.head_lt, h.tail_lt, hl, h.fifo⟩

theorem inv_read {m : Machine} (h : Inv m) (headFirst : Bool) : Inv (read m headFirst) := by
  have hlocation := h.location
  unfold read
  cases hl : m.location with
  | poll =>
      apply h.move
      cases headFirst with
      | true => exact id
      | false => exact rfl
  | pollHead n =>
      rw [hl] at hlocation
      apply h.move
      unfold polled
      split
      · exact hlocation ‹_›
      · trivial
  | pollTail n =>
      rw [hl] at hlocation
      apply h.move
      unfold polled
      split
      · rename_i hne
        rwa [show n = m.keyboard.tail from hlocation] at hne
      · trivial
  | getchar =>
      rw [hl] at hlocation
      apply h.move
      cases headFirst with
      | true => exact ⟨hlocation, hlocation⟩
      | false => exact ⟨rfl, hlocation⟩
  | askHead n =>
      -- the buffer was not empty when the head was loaded, and is not now
      rw [hl] at hlocation
      dsimp only [asked]
      rw [if_pos hlocation.1]
      exact h.move hlocation.2
  | askTail n =>
      rw [hl] at hlocation
      dsimp only [asked]
      rw [hlocation.1, if_pos hlocation.2]
      exact h.move hlocation.2
  | fetch =>
      rw [hl] at hlocation
      exact h.move ⟨rfl, hlocation⟩
  | fetchAt n =>
      rw [hl] at hlocation
      apply h.move
      exact ⟨by rw [hlocation.1], hlocation.2⟩
  | advance c =>
      rw [hl] at hlocation
      exact h.move ⟨hlocation.1, rfl, hlocation.2⟩
  | advanceFrom c n =>
      rw [hl] at hlocation
      obtain ⟨hc, hn, hne⟩ := hlocation
      have htake := buffered_take h.head_lt h.tail_lt hne
      refine ⟨h.head_lt, Nat.mod_lt _ (by decide), trivial, ?_⟩
      dsimp only
      rw [← h.fifo, htake, hc, hn, List.append_assoc, List.singleton_append]

theorem inv_step {m : Machine} (h : Inv m) (e : Event) : Inv (step m e) := by
  cases e with
  | key scancode => exact inv_key h scancode
  | read headFirst => exact inv_read h headFirst

theorem inv_run (events : List Event) : Inv (run events) := by
  unfold run
  have hfold : ∀ m, Inv m → Inv (events.foldl step m) := by
    induction events with
    | nil => exact fun _ h => h
    | cons e events ih => exact fun m h => ih (step m e) (inv_step h e)
  exact hfold start inv_start

/-- The character of an event that is a mapped key press. -/
def Event.pressed : Event → Option UInt8
  | .key scancode => decode scancode
  | .read _ => none

theorem read_accepted (m : Machine) (headFirst : Bool) : (read m headFirst).accepted = m.accepted := by
  unfold read
  cases m.location <;> first | rfl | (dsimp only [asked]; split <;> rfl)

theorem step_accepted (m : Machine) (e : Event) :
    ∃ stored, (step m e).accepted = m.accepted ++ stored ∧ stored.Sublist e.pressed.toList := by
  cases e with
  | read headFirst => exact ⟨[], by rw [List.append_nil]; exact read_accepted m headFirst, by simp⟩
  | key scancode =>
      obtain ⟨c, hc, -, heq⟩ | ⟨heq, -⟩ := keyboardHandler_cases m.keyboard scancode
      · have hpressed : (Event.key scancode).pressed.toList = [c] := by
          rw [Event.pressed, hc, Option.toList_some]
        refine ⟨[c], by simp only [step, heq, Option.toList_some], ?_⟩
        exact hpressed.symm ▸ List.Sublist.refl [c]
      · exact ⟨[], by simp only [step, heq, Option.toList_none], by simp⟩

/-- The stored characters are those of mapped key presses, in order. -/
theorem accepted_sublist (events : List Event) :
    (run events).accepted.Sublist (events.filterMap Event.pressed) := by
  have hfold : ∀ m, ∃ stored, (events.foldl step m).accepted = m.accepted ++ stored ∧
      stored.Sublist (events.filterMap Event.pressed) := by
    induction events with
    | nil => exact fun m => ⟨[], (List.append_nil _).symm, List.Sublist.refl _⟩
    | cons e events ih =>
        intro m
        obtain ⟨first, hfirst, hsub⟩ := step_accepted m e
        obtain ⟨rest, hrest, hsub'⟩ := ih (step m e)
        refine ⟨first ++ rest, ?_, ?_⟩
        · rw [List.foldl_cons, hrest, hfirst, List.append_assoc]
        · rw [← List.singleton_append, List.filterMap_append]
          apply List.Sublist.append _ hsub'
          cases hp : e.pressed <;> simpa [hp] using hsub
  obtain ⟨stored, hstored, hsub⟩ := hfold start
  rw [run, hstored]
  exact hsub

/-- In every interleaving of the handler with the loads and stores of the reader,
what was returned and what is still buffered are together the stored characters, in
their order. A mapped key press is stored unless 255 characters are unread. -/
theorem keyboard_fifo (events : List Event) :
    (run events).returned ++ buffered (run events).keyboard = (run events).accepted ∧
      (run events).accepted.Sublist (events.filterMap Event.pressed) ∧
      (run events).keyboard.head < 256 ∧ (run events).keyboard.tail < 256 ∧
      ∀ scancode c, decode scancode = some c →
        (run (events ++ [.key scancode])).accepted = (run events).accepted ++ [c] ∨
          (run (events ++ [.key scancode])).accepted = (run events).accepted ∧
            (buffered (run events).keyboard).length = 255 := by
  have h := inv_run events
  refine ⟨h.fifo, accepted_sublist events, h.head_lt, h.tail_lt, ?_⟩
  intro scancode c hc
  have hlast : run (events ++ [.key scancode]) = step (run events) (.key scancode) := by
    rw [run, List.foldl_append]
    rfl
  rw [hlast]
  obtain ⟨c', hc', -, heq⟩ | ⟨heq, hdrop⟩ := keyboardHandler_cases (run events).keyboard scancode
  · left
    obtain rfl : c' = c := Option.some.inj (hc'.symm.trans hc)
    simp only [step, heq, Option.toList_some]
  · right
    refine ⟨by simp only [step, heq, Option.toList_none, List.append_nil], ?_⟩
    obtain hnone | hfull := hdrop
    · rw [hnone] at hc
      cases hc
    · rw [buffered, window_length, unread_of_full h.head_lt hfull]
      rfl

end Kaviz.Drivers
