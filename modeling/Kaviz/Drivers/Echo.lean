import Kaviz.Lib.Progress
import Kaviz.Drivers.Console
import Kaviz.Drivers.Keyboard

/-! # The main loop

The loop at the end of `kernel_main`: it prints a character that is waiting and
halts, until the next interrupt. The keyboard handler and other interrupts come
between any two loads and stores of the loop. The log of what was printed belongs
to no program variable.
-/

namespace Kaviz.Drivers

open Traces Progress Rings

inductive Phase
  /-- In `keyboard_has_input` or `keyboard_getchar`. -/
  | reading
  /-- In front of `console_putchar`. -/
  | showing (c : UInt8)
  /-- In `hlt`. -/
  | halted

def Phase.held : Phase → List UInt8
  | .showing c => [c]
  | _ => []

structure Echo where
  machine : Machine
  console : Console
  phase : Phase
  /-- What `console_putchar` was called with. -/
  shown : List UInt8

inductive EchoEvent
  /-- The keyboard interrupt, with the scancode it reads. -/
  | key (scancode : UInt8)
  /-- Another interrupt. -/
  | tick
  /-- The next step of the loop. -/
  | go (headFirst : Bool)

namespace Echo

/-- An interrupt ends `hlt`, and with it the turn. -/
def wake (e : Echo) : Echo :=
  match e.phase with
  | .halted => { e with phase := .reading }
  | _ => e

/-- What a step of the reader leads to: back in front of its first poll, it has returned a
character or has none. -/
def phaseAfter (before after : Machine) : Phase :=
  match after.location with
  | .poll =>
      match after.returned.drop before.returned.length with
      | c :: _ => .showing c
      | [] => .halted
  | _ => .reading

/-- The loop takes no step while it is halted. -/
def step (e : Echo) : EchoEvent → Option Echo
  | .key scancode => some { e with machine := Drivers.step e.machine (.key scancode) }.wake
  | .tick => some e.wake
  | .go headFirst =>
      match e.phase with
      | .reading =>
          let machine := read e.machine headFirst
          some { e with machine, phase := phaseAfter e.machine machine }
      | .showing c =>
          some { e with console := e.console.putchar c, phase := .halted, shown := e.shown ++ [c] }
      | .halted => none

/-- The main loop is entered with a console and nothing pressed so far. -/
def enter (console : Console) : Echo := ⟨start, console, .reading, []⟩

def waiting (e : Echo) : List UInt8 := e.phase.held ++ buffered e.machine.keyboard

end Echo

def wakes (t : Step Echo EchoEvent) : Bool :=
  match t.before.phase, t.op with
  | .halted, .key _ => true
  | .halted, .tick => true
  | _, _ => false

/-! ## What the loop has read and printed -/

/-- Between two steps: nothing is lost between the buffer and the screen. -/
structure EchoInv (t₀ : Terminal) (e : Echo) : Prop where
  machine : Inv e.machine
  returned : e.machine.returned = e.shown ++ e.phase.held
  location : e.phase ≠ .reading → e.machine.location = .poll
  console : Shows e.console (e.shown.foldl Terminal.put t₀)

section

variable {e e' : Echo} {t₀ : Terminal} {ev : EchoEvent} {m : Machine}

/-- What is stored is printed, held or buffered, in this order. -/
theorem EchoInv.accepted (h : EchoInv t₀ e) : e.shown ++ e.waiting = e.machine.accepted := by
  rw [← h.machine.fifo, h.returned, Echo.waiting, List.append_assoc]

/-- The first look at the buffer was not in vain, or is still to come. -/
def Location.Hopeful (k : Keyboard) : Location → Prop
  | .pollHead h => h ≠ k.tail
  | _ => True

/-- A step of the reader goes on, comes back with a character, or finds nothing. -/
theorem read_cases (h : Inv m) (headFirst : Bool) :
    ((read m headFirst).location ≠ .poll ∧ (read m headFirst).returned = m.returned ∧
        (read m headFirst).keyboard = m.keyboard ∧
        (m.keyboard.head ≠ m.keyboard.tail → (read m headFirst).location.Hopeful m.keyboard)) ∨
      (∃ c, (read m headFirst).location = .poll ∧ (read m headFirst).returned = m.returned ++ [c]) ∨
      ((read m headFirst).location = .poll ∧ (read m headFirst).returned = m.returned ∧
        (m.location.Hopeful m.keyboard → m.keyboard.head = m.keyboard.tail)) := by
  have hlocation := h.location
  unfold read
  cases hl : m.location with
  | poll => cases headFirst <;> simp [Location.Hopeful]
  | pollHead n =>
      by_cases hn : n ≠ m.keyboard.tail
      · simp [polled, hn, Location.Hopeful]
      · simp [polled, not_not.mp hn, Location.Hopeful]
  | pollTail n =>
      rw [hl] at hlocation
      have hn : n = m.keyboard.tail := hlocation
      by_cases hne : m.keyboard.head ≠ m.keyboard.tail
      · simp [polled, hn, hne, Location.Hopeful]
      · simp [polled, hn, not_not.mp hne]
  | getchar => cases headFirst <;> simp [Location.Hopeful]
  | askHead n =>
      rw [hl] at hlocation
      simp [asked, hlocation.1, Location.Hopeful]
  | askTail n =>
      rw [hl] at hlocation
      simp [asked, hlocation.1, hlocation.2, Location.Hopeful]
  | fetch => simp [Location.Hopeful]
  | fetchAt n => simp [Location.Hopeful]
  | advance c => simp [Location.Hopeful]
  | advanceFrom c n => simp

theorem phaseAfter_going {after : Machine} (h : after.location ≠ .poll) :
    Echo.phaseAfter m after = .reading := by
  unfold Echo.phaseAfter
  split
  · exact absurd ‹_› h
  · rfl

theorem phaseAfter_back {after : Machine} (h : after.location = .poll)
    (hreturned : after.returned = m.returned) : Echo.phaseAfter m after = .halted := by
  simp [Echo.phaseAfter, h, hreturned]

theorem phaseAfter_char {after : Machine} {c : UInt8} (h : after.location = .poll)
    (hreturned : after.returned = m.returned ++ [c]) : Echo.phaseAfter m after = .showing c := by
  simp [Echo.phaseAfter, h, hreturned]

@[simp] theorem Echo.wake_machine (e : Echo) : e.wake.machine = e.machine := by
  unfold Echo.wake
  split <;> rfl

@[simp] theorem Echo.wake_shown (e : Echo) : e.wake.shown = e.shown := by
  unfold Echo.wake
  split <;> rfl

@[simp] theorem Echo.wake_console (e : Echo) : e.wake.console = e.console := by
  unfold Echo.wake
  split <;> rfl

@[simp] theorem Echo.wake_held (e : Echo) : e.wake.phase.held = e.phase.held := by
  unfold Echo.wake
  split
  · simp [Phase.held, *]
  · rfl

theorem EchoInv.wake (h : EchoInv t₀ e) : EchoInv t₀ e.wake := by
  refine ⟨by simpa using h.machine, by simpa using h.returned, ?_, by simpa using h.console⟩
  intro hphase
  rw [Echo.wake_machine]
  apply h.location
  intro hreading
  simp [Echo.wake, hreading] at hphase

theorem EchoInv.step (h : EchoInv t₀ e) (hstep : e.step ev = some e') : EchoInv t₀ e' := by
  cases ev with
  | key scancode =>
      cases hstep
      apply EchoInv.wake
      exact ⟨inv_key h.machine scancode, h.returned, h.location, h.console⟩
  | tick =>
      cases hstep
      exact h.wake
  | go headFirst =>
      cases hphase : e.phase with
      | halted => simp [Echo.step, hphase] at hstep
      | showing c =>
          simp only [Echo.step, hphase, Option.some.injEq] at hstep
          subst hstep
          refine ⟨h.machine, ?_, fun _ => h.location (by simp [hphase]), ?_⟩
          · simp [h.returned, hphase, Phase.held]
          · rw [List.foldl_append]
            exact h.console.putchar c
      | reading =>
          simp only [Echo.step, hphase, Option.some.injEq] at hstep
          subst hstep
          have hreturned := h.returned
          simp only [hphase, Phase.held, List.append_nil] at hreturned
          have hinv := inv_read h.machine headFirst
          rcases read_cases h.machine headFirst with ⟨hgo, hsame, -, -⟩ | ⟨c, hback, hchar⟩ | ⟨hback, hsame, -⟩
          · refine ⟨hinv, ?_, ?_, h.console⟩
            · simp [phaseAfter_going hgo, Phase.held, hsame, hreturned]
            · simp [phaseAfter_going hgo]
          · refine ⟨hinv, ?_, fun _ => hback, h.console⟩
            simp [phaseAfter_char hback hchar, Phase.held, hchar, hreturned]
          · refine ⟨hinv, ?_, fun _ => hback, h.console⟩
            simp [phaseAfter_back hback hsame, Phase.held, hsame, hreturned]

def EchoEvent.pressed : EchoEvent → Option UInt8
  | .key scancode => (Event.key scancode).pressed
  | _ => none

/-- Only a mapped key press adds to what is stored, and nothing is taken back. -/
theorem Echo.step_accepted (hstep : e.step ev = some e') :
    ∃ stored, e'.machine.accepted = e.machine.accepted ++ stored ∧ stored.Sublist ev.pressed.toList := by
  cases ev with
  | key scancode =>
      cases hstep
      rw [wake_machine]
      exact Drivers.step_accepted e.machine (.key scancode)
  | tick =>
      cases hstep
      exact ⟨[], by simp, by simp⟩
  | go headFirst =>
      refine ⟨[], ?_, by simp⟩
      cases hphase : e.phase with
      | halted => simp [Echo.step, hphase] at hstep
      | showing c =>
          simp only [Echo.step, hphase, Option.some.injEq] at hstep
          simp [← hstep]
      | reading =>
          simp only [Echo.step, hphase, Option.some.injEq] at hstep
          simp [← hstep, read_accepted]

theorem Echo.trace_accepted {ts : List (Step Echo EchoEvent)} (h : Trace Echo.step e ts e') :
    ∃ stored, e'.machine.accepted = e.machine.accepted ++ stored ∧
      stored.Sublist (ts.filterMap fun t => t.op.pressed) := by
  induction h with
  | nil => exact ⟨[], by simp, by simp⟩
  | @cons s s₁ s' op ts head _ ih =>
      obtain ⟨first, hfirst, hsub⟩ := step_accepted head
      obtain ⟨rest, hrest, hsub'⟩ := ih
      refine ⟨first ++ rest, by rw [hrest, hfirst, List.append_assoc], ?_⟩
      cases hp : op.pressed with
      | none =>
          rw [hp, Option.toList_none, List.sublist_nil] at hsub
          simpa [hp, hsub] using hsub'
      | some c =>
          rw [hp, Option.toList_some] at hsub
          simpa [hp] using hsub.append hsub'

theorem Echo.step_shown (hstep : e.step ev = some e') : e.shown <+: e'.shown := by
  cases ev with
  | key scancode =>
      cases hstep
      simp
  | tick =>
      cases hstep
      simp
  | go headFirst =>
      cases hphase : e.phase with
      | halted => simp [Echo.step, hphase] at hstep
      | showing c =>
          simp only [Echo.step, hphase, Option.some.injEq] at hstep
          simp [← hstep]
      | reading =>
          simp only [Echo.step, hphase, Option.some.injEq] at hstep
          simp [← hstep]

theorem Echo.trace_shown {ts : List (Step Echo EchoEvent)} (h : Trace Echo.step e ts e') :
    e.shown <+: e'.shown ∧ ∀ t ∈ ts, t.after.shown <+: e'.shown := by
  induction h with
  | nil => simp
  | cons head _ ih => exact ⟨(step_shown head).trans ih.1, List.forall_mem_cons.mpr ih⟩

theorem echoInv_enter {console : Console} (h : Shows console t₀) : EchoInv t₀ (Echo.enter console) :=
  ⟨inv_start, rfl, fun hphase => absurd rfl hphase, h⟩

theorem Echo.waiting_le (e : Echo) : e.waiting.length ≤ 256 := by
  have hlt := unread_lt (show 0 < bufferSize by decide) e.machine.keyboard.head e.machine.keyboard.tail
  have hheld : e.phase.held.length ≤ 1 := by
    cases e.phase <;> simp [Phase.held]
  have hsize : bufferSize = 256 := rfl
  simp only [Echo.waiting, List.length_append, buffered, window_length]
  omega

end

/-- In every run of the main loop the screen shows what it showed before and behind it the
characters stored by the keyboard, in their order, up to those that wait; there are never more
than 256 of these, and every one belongs to a key press. -/
theorem echo_in_order (console : Console) (t₀ : Terminal) (hconsole : Shows console t₀)
    (ts : List (Step Echo EchoEvent)) (e : Echo) (h : Trace Echo.step (Echo.enter console) ts e) :
    e.shown ++ e.waiting = e.machine.accepted ∧ Shows e.console (e.shown.foldl Terminal.put t₀) ∧
      e.machine.accepted.Sublist (ts.filterMap fun t => t.op.pressed) ∧ e.waiting.length ≤ 256 := by
  have hinv := h.inv (echoInv_enter hconsole) fun hs hstep => hs.step hstep
  obtain ⟨stored, hstored, hsub⟩ := Echo.trace_accepted h
  refine ⟨hinv.accepted, hinv.console, ?_, e.waiting_le⟩
  rw [hstored]
  exact hsub

/-! ## One character for every interrupt -/

/-- A turn of the loop is under way. -/
def Echo.awake (e : Echo) : Nat :=
  match e.phase with
  | .halted => 0
  | _ => 1

/-- The turn under way will print a character, if there is one. -/
def Echo.sure (e : Echo) : Nat :=
  match e.phase with
  | .halted => 0
  | .showing _ => 1
  | .reading =>
      match e.machine.location with
      | .pollHead h => if h = e.machine.keyboard.tail then 0 else 1
      | _ => 1

/-- Wake-ups until `n` characters are printed, in addition to the turn under way. -/
def Echo.lag (n : Nat) (e : Echo) : Nat := n - e.shown.length - e.sure

def Prints (n : Nat) (t : Step Echo EchoEvent) : Prop := n ≤ t.after.shown.length

structure Lags (t₀ : Terminal) (n : Nat) (e : Echo) : Prop where
  inv : EchoInv t₀ e
  stored : n ≤ e.machine.accepted.length
  missing : e.shown.length < n

section

variable {e e' : Echo} {t₀ : Terminal} {ev : EchoEvent} {n : Nat}

theorem Lags.keeps (h : Lags t₀ n e) (hstep : e.step ev = some e') (hnot : ¬ Prints n ⟨e, ev, e'⟩) :
    Lags t₀ n e' := by
  obtain ⟨stored, hstored, -⟩ := Echo.step_accepted hstep
  refine ⟨h.inv.step hstep, ?_, Nat.lt_of_not_le hnot⟩
  have hle := h.stored
  rw [hstored, List.length_append]
  omega

/-- What is missing is in the buffer while the loop looks for it. -/
theorem Lags.input (h : Lags t₀ n e) (hphase : e.phase = .reading) :
    e.machine.keyboard.head ≠ e.machine.keyboard.tail := by
  intro hempty
  have hall := congrArg List.length h.inv.accepted
  have hstored := h.stored
  have hmissing := h.missing
  have hbuffered : buffered e.machine.keyboard = [] := by
    simp [buffered, unread, window, hempty]
  simp [Echo.waiting, hphase, Phase.held, hbuffered] at hall
  omega

theorem sure_of_hopeful (hphase : e.phase = .reading)
    (h : e.machine.location.Hopeful e.machine.keyboard) : e.sure = 1 := by
  unfold Echo.sure
  rw [hphase]
  dsimp only
  split
  · rename_i n hl
    rw [hl] at h
    exact if_neg h
  · rfl

theorem hopeful_of_sure (hphase : e.phase = .reading) (h : e.sure ≠ 0) :
    e.machine.location.Hopeful e.machine.keyboard := by
  unfold Echo.sure at h
  rw [hphase] at h
  dsimp only at h
  split at h
  · rename_i n hl
    rw [hl]
    intro hn
    rw [if_pos hn] at h
    exact h rfl
  · rename_i hother
    unfold Location.Hopeful
    split
    · exact absurd ‹_› (hother _)
    · trivial

theorem Echo.sure_le (e : Echo) : e.sure ≤ 1 := by
  unfold Echo.sure
  split
  · omega
  · omega
  · split
    · split <;> omega
    · omega

theorem keyboardHandler_tail (k : Keyboard) (scancode : UInt8) :
    (keyboardHandler k scancode).1.tail = k.tail := by
  rcases keyboardHandler_cases k scancode with ⟨c, -, -, heq⟩ | ⟨heq, -⟩
  · rw [heq]
  · rw [heq]

@[simp] theorem Echo.wake_awake (e : Echo) : e.wake.awake = 1 := by
  cases hphase : e.phase <;> simp [wake, awake, hphase]

/-- Any interrupt counts that finds the loop halted. -/
theorem wakes_key (e : Echo) (scancode : UInt8) (e' : Echo) :
    (wakes ⟨e, .key scancode, e'⟩).toNat = 1 - e.awake := by
  cases hphase : e.phase <;> simp [wakes, Echo.awake, hphase]

theorem wakes_tick (e e' : Echo) : (wakes ⟨e, .tick, e'⟩).toNat = 1 - e.awake := by
  cases hphase : e.phase <;> simp [wakes, Echo.awake, hphase]

/-- It starts a turn that looks at the buffer from the beginning. -/
theorem wake_lag (hinv : EchoInv t₀ e) (hmissing : e.shown.length < n) :
    e.wake.lag n + (1 - e.awake) ≤ e.lag n := by
  cases hphase : e.phase with
  | halted =>
      have hpoll := hinv.location (by simp [hphase])
      simp [Echo.lag, Echo.wake, Echo.sure, Echo.awake, hphase, hpoll]
      omega
  | reading => simp [Echo.lag, Echo.wake, Echo.sure, Echo.awake, hphase]
  | showing c => simp [Echo.lag, Echo.wake, Echo.sure, Echo.awake, hphase]

theorem Lags.drops (h : Lags t₀ n e) (hstep : e.step ev = some e') (hnot : ¬ Prints n ⟨e, ev, e'⟩) :
    e'.lag n + (wakes ⟨e, ev, e'⟩).toNat ≤ e.lag n := by
  have hmissing := h.missing
  cases ev with
  | key scancode =>
      cases hstep
      have hinv : EchoInv t₀ { e with machine := Drivers.step e.machine (.key scancode) } :=
        ⟨inv_key h.inv.machine scancode, h.inv.returned, h.inv.location, h.inv.console⟩
      have hwake := wake_lag hinv hmissing
      have hsame : Echo.lag n { e with machine := Drivers.step e.machine (.key scancode) } = e.lag n := by
        have htail := keyboardHandler_tail e.machine.keyboard scancode
        simp [Echo.lag, Echo.sure, Drivers.step, htail]
      rw [wakes_key, ← hsame]
      exact hwake
  | tick =>
      cases hstep
      rw [wakes_tick]
      exact wake_lag h.inv hmissing
  | go headFirst =>
      cases hphase : e.phase with
      | halted => simp [Echo.step, hphase] at hstep
      | showing c =>
          simp only [Echo.step, hphase, Option.some.injEq] at hstep
          subst hstep
          simp [Echo.lag, Echo.sure, wakes, hphase]
          omega
      | reading =>
          simp only [Echo.step, hphase, Option.some.injEq] at hstep
          subst hstep
          have hinput := h.input hphase
          have hle := e.sure_le
          rcases read_cases h.inv.machine headFirst with ⟨hgo, -, hkeyboard, hhope⟩ | ⟨c, hback, hchar⟩ |
            ⟨hback, hsame, hnone⟩
          · have hsure : Echo.sure { e with
                machine := read e.machine headFirst
                phase := Echo.phaseAfter e.machine (read e.machine headFirst) } = 1 := by
              apply sure_of_hopeful
              · exact phaseAfter_going hgo
              · dsimp only
                rw [hkeyboard]
                exact hhope hinput
            simp only [Echo.lag, hsure, wakes, hphase, Bool.toNat_false]
            omega
          · have hsure : Echo.sure { e with
                machine := read e.machine headFirst
                phase := Echo.phaseAfter e.machine (read e.machine headFirst) } = 1 := by
              simp [Echo.sure, phaseAfter_char hback hchar]
            simp only [Echo.lag, hsure, wakes, hphase, Bool.toNat_false]
            omega
          · have hunsure : e.sure = 0 := by
              by_contra hsure
              exact hinput (hnone (hopeful_of_sure hphase hsure))
            simp [Echo.lag, hunsure, wakes, hphase]

/-- The wake-ups left are a ranking. -/
theorem lag_ranking (t₀ : Terminal) (n : Nat) :
    Ranking Echo.step wakes (Prints n) (Lags t₀ n) (Echo.lag n) :=
  ⟨fun h hstep hnot => h.keeps hstep hnot, fun h hstep hnot => h.drops hstep hnot⟩

/-- A turn prints one character at most. -/
theorem Echo.step_budget (hstep : e.step ev = some e') :
    e'.shown.length + e'.awake ≤ e.shown.length + e.awake + (wakes ⟨e, ev, e'⟩).toNat := by
  cases ev with
  | key scancode =>
      cases hstep
      rw [wakes_key, wake_awake, wake_shown]
      dsimp only
      omega
  | tick =>
      cases hstep
      rw [wakes_tick, wake_awake, wake_shown]
      omega
  | go headFirst =>
      cases hphase : e.phase with
      | halted => simp [Echo.step, hphase] at hstep
      | showing c =>
          simp only [Echo.step, hphase, Option.some.injEq] at hstep
          subst hstep
          simp [Echo.awake, hphase]
      | reading =>
          simp only [Echo.step, hphase, Option.some.injEq] at hstep
          subst hstep
          simp only [Echo.awake, hphase, wakes, Bool.toNat_false]
          split <;> omega

end

/-- The loop prints one character for every interrupt that ends a `hlt`: those stored at some point
are all on the screen when there have been more wake-ups than characters waiting, and no run prints
more characters than it has wake-ups, besides the turn under way. -/
theorem echo_rate (console : Console) (t₀ : Terminal) (hconsole : Shows console t₀)
    (us ts : List (Step Echo EchoEvent)) (e e' : Echo) (hstart : Trace Echo.step (Echo.enter console) us e)
    (hrun : Trace Echo.step e ts e') :
    (e.waiting.length < total wakes ts → e.machine.accepted <+: e'.shown) ∧
      e'.shown.length ≤ e.shown.length + e.awake + total wakes ts := by
  have hinv := hstart.inv (echoInv_enter hconsole) fun hs hstep => hs.step hstep
  have hinv' := hrun.inv hinv fun hs hstep => hs.step hstep
  constructor
  · intro hmany
    have hshown := Echo.trace_shown hrun
    obtain ⟨stored, hstored, -⟩ := Echo.trace_accepted hrun
    have hall := congrArg List.length hinv.accepted
    rw [List.length_append] at hall
    have hlen : e.machine.accepted.length ≤ e'.shown.length := by
      by_cases hnone : e.waiting.length = 0
      · exact Nat.le_trans (by omega) hshown.1.length_le
      · have hlags : Lags t₀ e.machine.accepted.length e := ⟨hinv, Nat.le_refl _, by omega⟩
        obtain ⟨t, ht, hprints⟩ := (lag_ranking t₀ e.machine.accepted.length).reaches hrun hlags (by
          unfold Echo.lag
          omega)
        exact Nat.le_trans hprints (hshown.2 t ht).length_le
    have hprefix : e'.shown <+: e'.machine.accepted := ⟨e'.waiting, hinv'.accepted⟩
    rw [hstored] at hprefix
    exact List.prefix_of_prefix_length_le (List.prefix_append _ _) hprefix hlen
  · have hbudget := le_add_total (f := fun e : Echo => e.shown.length + e.awake) hrun
      fun hstep => Echo.step_budget hstep
    omega

def darkConsole : Console := ⟨0, 0, 0, fun _ => 0, [], 0, fun _ => 0⟩

/-- Nine steps: one turn with a character. -/
def turn : List EchoEvent := List.replicate 9 (.go true)

/-- `a` and `b` are pressed, and the loop gets three interrupts more. -/
def typing : List EchoEvent :=
  [.key 0x1E, .key 0x30] ++ (turn ++ .tick :: (turn ++ [.tick, .go true, .go true, .tick]))

theorem typing_runs : (collect Echo.step (Echo.enter darkConsole.consoleInitialize) typing).map
    (fun ts => (ts.map wakes, ts.map fun t => t.before.waiting.length)) =
      some (List.replicate 11 false ++ true :: (List.replicate 9 false ++ [true, false, false, true]),
        [0, 1] ++ (List.replicate 9 2 ++ List.replicate 10 1 ++ List.replicate 4 0)) := by
  rfl

theorem echo_in_order_typing : ∃ ts e,
    Trace Echo.step (Echo.enter darkConsole.consoleInitialize) ts e ∧ ts.length = 25 ∧
      e.shown ++ e.waiting = e.machine.accepted ∧
      Shows e.console (e.shown.foldl Terminal.put Terminal.blank) := by
  obtain ⟨ts, hts, hmap⟩ := Option.map_eq_some_iff.mp typing_runs
  obtain ⟨e, hrun⟩ := collect_trace hts
  have hlen : ts.length = 25 := by simpa using congrArg List.length (Prod.mk.inj hmap).1
  obtain ⟨haccepted, hshows, -⟩ :=
    echo_in_order darkConsole.consoleInitialize Terminal.blank (shows_initial _ rfl) ts e hrun
  exact ⟨ts, e, hrun, hlen, haccepted, hshows⟩

/-- Two characters wait, and are printed when the loop has been woken three times. -/
theorem echo_rate_typing : ∃ us ts e e',
    Trace Echo.step (Echo.enter darkConsole.consoleInitialize) us e ∧ Trace Echo.step e ts e' ∧
      e.waiting.length = 2 ∧ total wakes ts = 3 ∧ e.machine.accepted <+: e'.shown := by
  obtain ⟨ts, hts, hmap⟩ := Option.map_eq_some_iff.mp typing_runs
  obtain ⟨e', hrun⟩ := collect_trace hts
  obtain ⟨hwakes, hwaiting⟩ := Prod.mk.inj hmap
  match ts, hwakes, hwaiting with
  | t₁ :: t₂ :: t₃ :: ts, hwakes, hwaiting =>
      simp only [List.map_cons] at hwakes hwaiting
      obtain ⟨e, hstart, hrest⟩ := (show Trace Echo.step _ ([t₁, t₂] ++ t₃ :: ts) e' from hrun).split
      have hfirst : t₃.before = e := by
        cases hrest
        rfl
      have hwait : e.waiting.length = 2 := by
        rw [← hfirst]
        exact (List.cons.inj (List.cons.inj (List.cons.inj hwaiting).2).2).1
      have htotal : total wakes (t₃ :: ts) = 3 := by
        have hall := congrArg (List.countP id) (List.cons.inj (List.cons.inj hwakes).2).2
        rw [← List.map_cons, List.countP_map] at hall
        exact hall
      have hprinted := (echo_rate darkConsole.consoleInitialize Terminal.blank (shows_initial _ rfl) _ _
        e e' hstart hrest).1
      exact ⟨_, _, e, e', hstart, hrest, hwait, htotal, hprinted (by omega)⟩

end Kaviz.Drivers
