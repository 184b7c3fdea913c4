import Mathlib.Data.Nat.Find
import Kaviz.Drivers.Ioapic
import Kaviz.Entry.Idt

/-! # The interrupt controllers

`setup_pic` of `kernel/interrupt.c`, `lapic_init` and `apic_init` of `kernel/apic.c`, and
`timer_init` of `kernel/timer.c`: which requests of the devices still reach the
processor behind them, and as which vector. The two 8259 controllers are modelled with
the phases of their initialisation, the I/O APIC by its registers, and the local APIC by
its registers and the vectors in service; an interrupt that is taken goes to the handler
the descriptor table has for it.
-/

namespace Kaviz.Drivers

/-! ## The 8259 controllers -/

/-- What the next byte for the data port is. -/
inductive PicPhase
  | mask | icw2 | icw3 | icw4
  deriving DecidableEq

structure Pic where
  phase : PicPhase
  /-- The last initialisation announced a single controller, and a fourth word. -/
  single : Bool
  fourth : Bool
  offset : BitVec 8
  cascade : BitVec 8
  mode : BitVec 8
  imr : BitVec 8

namespace Pic

/-- A byte for the command port. Bit 4 starts an initialisation and clears the mask. -/
def command (p : Pic) (v : BitVec 8) : Pic :=
  if v.getLsbD 4 then
    { p with phase := .icw2, single := v.getLsbD 1, fourth := v.getLsbD 0, imr := 0#8 }
  else p

def data (p : Pic) (v : BitVec 8) : Pic :=
  let last := if p.fourth then PicPhase.icw4 else .mask
  match p.phase with
  | .mask => { p with imr := v }
  | .icw2 => { p with offset := v &&& 0xF8#8, phase := if p.single then last else .icw3 }
  | .icw3 => { p with cascade := v, phase := last }
  | .icw4 => { p with mode := v, phase := .mask }

def request (p : Pic) (line : Nat) : Option (BitVec 8) :=
  if p.phase = .mask ∧ p.imr.getLsbD line = false then some (p.offset + BitVec.ofNat 8 line) else none

end Pic

structure Pics where
  master : Pic
  slave : Pic

namespace Pics

/-- `outb`; ports of other devices are left out. -/
def outb (p : Pics) (port : Nat) (v : BitVec 8) : Pics :=
  if port = 0x20 then { p with master := p.master.command v }
  else if port = 0x21 then { p with master := p.master.data v }
  else if port = 0xA0 then { p with slave := p.slave.command v }
  else if port = 0xA1 then { p with slave := p.slave.data v }
  else p

def inb (p : Pics) (port : Nat) : BitVec 8 := if port = 0xA1 then p.slave.imr else p.master.imr

/-- The vector for one of the 16 lines; the upper eight pass through line 2. -/
def request (p : Pics) (line : Nat) : Option (BitVec 8) :=
  if line < 8 then p.master.request line
  else (p.master.request 2).bind fun _ => p.slave.request (line - 8)

end Pics

def setupPic (p : Pics) : Pics :=
  let mask1 := p.inb 0x21
  let mask2 := p.inb 0xA1
  let p := p.outb 0x20 0x11#8
  let p := p.outb 0xA0 0x11#8
  let p := p.outb 0x21 0x20#8
  let p := p.outb 0xA1 0x28#8
  let p := p.outb 0x21 0x04#8
  let p := p.outb 0xA1 0x02#8
  let p := p.outb 0x21 0x01#8
  let p := p.outb 0xA1 0x01#8
  let p := p.outb 0x21 mask1
  let p := p.outb 0xA1 mask2
  let p := p.outb 0x21 0xFF#8
  p.outb 0xA1 0xFF#8

/-- Whatever state the controllers were in, they are remapped, cascaded and fully masked. -/
theorem setupPic_eq (p : Pics) : setupPic p =
    ⟨⟨.mask, false, true, 0x20#8, 0x04#8, 0x01#8, 0xFF#8⟩,
      ⟨.mask, false, true, 0x28#8, 0x02#8, 0x01#8, 0xFF#8⟩⟩ := rfl

theorem setupPic_request (p : Pics) (line : Nat) : (setupPic p).request line = none := by
  have hmaster : ∀ l, l < 8 → (setupPic p).master.request l = none := by
    rw [setupPic_eq]
    decide
  by_cases hlow : line < 8
  · simp [Pics.request, hlow, hmaster line hlow]
  · simp [Pics.request, hlow, hmaster 2 (by decide)]

/-! ## The local APIC -/

structure Lapic where
  /-- Its registers, by offset. -/
  registers : Nat → BitVec 32
  /-- The vectors that have been taken and not yet acknowledged. -/
  inService : Nat → Bool

namespace Lapic

def servicing (l : Lapic) : Nat := Nat.findGreatest (fun v => l.inService v = true) 255

/-- The class of a vector must be above that of the task priority and of what is in service. -/
def accept (l : Lapic) (vector : BitVec 8) : Option (BitVec 8) :=
  if (l.registers 0xF0).getLsbD 8 ∧
      max ((l.registers 0x80).extractLsb' 4 4).toNat (l.servicing / 16) < vector.toNat / 16
  then some vector else none

def timer (l : Lapic) : Option (BitVec 8) :=
  if (l.registers 0x320).getLsbD 16 then none else l.accept ((l.registers 0x320).extractLsb' 0 8)

def take (l : Lapic) (v : Nat) : Lapic := { l with inService := Function.update l.inService v true }

end Lapic

/-- `apic_write`. A write to the EOI register ends what is served. -/
def apicWrite (l : Lapic) (reg : Nat) (value : BitVec 32) : Lapic :=
  if reg = 0xB0 then { l with inService := Function.update l.inService l.servicing false }
  else { l with registers := Function.update l.registers reg value }

def apicEoi (l : Lapic) : Lapic := apicWrite l 0xB0 0#32

def lapicInit (l : Lapic) : Lapic :=
  let l := apicWrite l 0xF0 (l.registers 0xF0 ||| 0x100#32 ||| 0xFF#32)
  apicWrite l 0x80 0#32

def apicTimerInit (l : Lapic) : Lapic :=
  let l := apicWrite l 0x380 1000000#32
  let l := apicWrite l 0x3E0 0x03#32
  apicWrite l 0x320 (32#32 ||| 0x20000#32)

section

variable {l : Lapic} {v : Nat}

theorem Lapic.not_inService (hv : l.servicing < v) (hlt : v < 256) : l.inService v = false := by
  have hnot := Nat.findGreatest_is_greatest hv (by omega : v ≤ 255)
  simpa using hnot

theorem Lapic.servicing_take (hv : l.servicing < v) (hlt : v < 256) : (l.take v).servicing = v := by
  rw [servicing, Nat.findGreatest_eq_iff]
  refine ⟨by omega, fun _ => by simp [take], ?_⟩
  intro n hn hle
  have hother : n ≠ v := by omega
  simp [take, hother, not_inService (l := l) (by omega : l.servicing < n) (by omega)]

/-- A vector above all in service is the one that is acknowledged. -/
theorem apicEoi_take (hv : l.servicing < v) (hlt : v < 256) : apicEoi (l.take v) = l := by
  rw [apicEoi, apicWrite, if_pos rfl, Lapic.servicing_take hv hlt, Lapic.take, Function.update_idem,
    ← Lapic.not_inService hv hlt, Function.update_eq_self]

theorem Lapic.accept_some {vector w : BitVec 8} (h : l.accept vector = some w) :
    w = vector ∧ l.servicing < vector.toNat := by
  unfold Lapic.accept at h
  split at h
  case isTrue hclass => exact ⟨(Option.some.inj h).symm, by omega⟩
  case isFalse => cases h

end

/-! ## The machine -/

structure Controllers where
  pics : Pics
  ioapic : Ioapic
  lapic : Lapic

def Controllers.apicInit (k : Controllers) : Controllers :=
  { k with
    lapic := lapicInit k.lapic
    ioapic := ioapicSetIrqRedirect (ioapicSetIrqRedirect k.ioapic 0 32#8 0#32) 1 33#8 0#32 }

def Controllers.idtInit (k : Controllers) : Controllers :=
  Controllers.apicInit { k with pics := setupPic k.pics }

/-- `timer_init`; the ports of `pit_init` belong to neither controller. -/
def Controllers.timerInit (k : Controllers) : Controllers := { k with lapic := apicTimerInit k.lapic }

/-- A request: on a line of the 8259 controllers, at an input of the I/O APIC, or of the timer. -/
inductive Signal
  | line (n : Fin 16)
  | irq (n : Fin 24)
  | apicTimer
  deriving DecidableEq

/-- An entry for edges, with fixed delivery to the APIC of number 0. -/
def Ioapic.Fixed (io : Ioapic) (n : Nat) : Prop :=
  (io.low n).extractLsb' 8 3 = 0#3 ∧ (io.low n).getLsbD 11 = false ∧ (io.low n).getLsbD 15 = false ∧
    (io.high n).extractLsb' 24 8 = 0#8

instance (io : Ioapic) (n : Nat) : Decidable (io.Fixed n) := inferInstanceAs (Decidable (_ ∧ _))

/-- The vector that an input sends. Entries that are not fixed are not modelled. -/
def Ioapic.message (io : Ioapic) (n : Nat) : Option (BitVec 8) :=
  if (io.low n).getLsbD 16 = false ∧ io.Fixed n then some ((io.low n).extractLsb' 0 8) else none

namespace Controllers

def vector (k : Controllers) : Signal → Option (BitVec 8)
  | .line n => k.pics.request n
  | .irq n => (k.ioapic.message n).bind k.lapic.accept
  | .apicTimer => k.lapic.timer

/-- The vector is in service, unless it came past the local APIC. -/
def taken (k : Controllers) (v : BitVec 8) : Signal → Controllers
  | .line _ => k
  | _ => { k with lapic := k.lapic.take v.toNat }

/-- What is left behind the handler, when it does not halt. A vector without a gate is an exception;
a tick is taken to come back from `scheduler_schedule`. -/
def handle (k : Controllers) (v : BitVec 8) : Option Controllers :=
  if v.toNat < 48 then
    match Entry.reactionTo v.toNat 0 with
    | .halts _ => none
    | .returns => some k
    | .timerCallback => some { k with lapic := apicEoi k.lapic }
    | .keyboardHandler => some { k with lapic := apicEoi k.lapic }
    | .apicEoi => some { k with lapic := apicEoi k.lapic }
  else none

/-- The vectors of a series of signals, each of which comes behind the handler of the one before. -/
def vectors (k : Controllers) : List Signal → List (BitVec 8)
  | [] => []
  | s :: ss =>
      match k.vector s with
      | none => k.vectors ss
      | some v => v :: ((k.taken v s).handle v).elim [] (fun k => k.vectors ss)

end Controllers

/-! ## What is heard -/

/-- A vector whose handler returns. -/
def Returns (v : BitVec 8) : Prop := 32 ≤ v.toNat ∧ v.toNat < 48

instance (v : BitVec 8) : Decidable (Returns v) := inferInstanceAs (Decidable (_ ∧ _))

/-- What comes before the first handler that halts, and its vector. -/
def throughHalt : List (BitVec 8) → List (BitVec 8)
  | [] => []
  | v :: vs => v :: if Returns v then throughHalt vs else []

def routed (io : Ioapic) (n : Nat) : BitVec 8 :=
  if n = 0 then 32#8 else if n = 1 then 33#8 else (io.low n).extractLsb' 0 8

/-- What comes of a signal, by the state from before `apic_init`: the 8259 controllers are silent, an input
is heard when it was not masked already, and what was in service keeps out all vectors that are not of a
higher class. -/
def heard (k : Controllers) : Signal → Option (BitVec 8)
  | .line _ => none
  | .irq n =>
      if (k.ioapic.low n).getLsbD 16 = false ∧ k.lapic.servicing / 16 < (routed k.ioapic n).toNat / 16
      then some (routed k.ioapic n) else none
  | .apicTimer => if k.lapic.servicing < 32 then some 32#8 else none

section

variable {k₀ k : Controllers}

/-- A new lower half keeps its mask and takes the rest from the arguments. -/
theorem redirectLow_zero (low : BitVec 32) (vector : BitVec 8) :
    (redirectLow low vector 0#32).getLsbD 16 = low.getLsbD 16 ∧
      (redirectLow low vector 0#32).extractLsb' 0 8 = vector := by
  refine ⟨?_, redirectLow_vector (by decide)⟩
  rw [redirectLow_kept (by decide) (by decide) (by decide) (by decide)]
  simp

theorem setIrqRedirect_fixed (io : Ioapic) (irq : Nat) (vector : BitVec 8) :
    (ioapicSetIrqRedirect io irq vector 0#32).Fixed irq := by
  unfold Ioapic.Fixed
  rw [setIrqRedirect_low, setIrqRedirect_high]
  refine ⟨redirectLow_delivery _ _ _, ?_, ?_, redirectHigh_destination _⟩
  · exact redirectLow_cleared (by decide) (by decide)
  · exact redirectLow_cleared (by decide) (by decide)

theorem setIrqRedirect_fixed_other {io : Ioapic} {irq j : Nat} (vector : BitVec 8) (hj : j ≠ irq) :
    (ioapicSetIrqRedirect io irq vector 0#32).Fixed j ↔ io.Fixed j := by
  unfold Ioapic.Fixed
  rw [(setIrqRedirect_others io vector 0#32 hj).1, (setIrqRedirect_others io vector 0#32 hj).2]

theorem apicInit_low (k : Controllers) (n : Nat) :
    (k.apicInit.ioapic.low n).getLsbD 16 = (k.ioapic.low n).getLsbD 16 ∧
      (k.apicInit.ioapic.low n).extractLsb' 0 8 = routed k.ioapic n := by
  unfold Controllers.apicInit
  by_cases hone : n = 1
  · subst hone
    rw [setIrqRedirect_low, (redirectLow_zero _ _).1, (redirectLow_zero _ _).2,
      (setIrqRedirect_others k.ioapic 32#8 0#32 (by decide : 1 ≠ 0)).1]
    exact ⟨rfl, rfl⟩
  · by_cases hnil : n = 0
    · subst hnil
      rw [(setIrqRedirect_others _ _ _ hone).1, setIrqRedirect_low, (redirectLow_zero _ _).1,
        (redirectLow_zero _ _).2]
      exact ⟨rfl, rfl⟩
    · rw [(setIrqRedirect_others _ _ _ hone).1, (setIrqRedirect_others _ _ _ hnil).1]
      simp [routed, hone, hnil]

/-- Its own two entries are fixed, whatever they were. -/
theorem apicInit_fixed {n : Nat} (h : 2 ≤ n → k.ioapic.Fixed n) : k.apicInit.ioapic.Fixed n := by
  unfold Controllers.apicInit
  by_cases hone : n = 1
  · subst hone
    exact setIrqRedirect_fixed _ _ _
  · refine (setIrqRedirect_fixed_other _ hone).mpr ?_
    by_cases hnil : n = 0
    · subst hnil
      exact setIrqRedirect_fixed _ _ _
    · exact (setIrqRedirect_fixed_other _ hnil).mpr (h (by omega))

structure Started (k₀ k : Controllers) : Prop where
  silent : ∀ n, k.pics.request n = none
  message : ∀ n, n < 24 → k.ioapic.message n =
    if (k₀.ioapic.low n).getLsbD 16 = false then some (routed k₀.ioapic n) else none
  enabled : (k.lapic.registers 0xF0).getLsbD 8 = true
  priority : k.lapic.registers 0x80 = 0#32
  timer : k.lapic.registers 0x320 = 32#32 ||| 0x20000#32
  inService : k.lapic.inService = k₀.lapic.inService

theorem Started.init (k : Controllers)
    (hfixed : ∀ n, n < 24 → 2 ≤ n → (k.ioapic.low n).getLsbD 16 = false → k.ioapic.Fixed n) :
    Started k k.idtInit.timerInit where
  silent n := setupPic_request k.pics n
  message n hn := by
    have hlow := apicInit_low { k with pics := setupPic k.pics } n
    show (Controllers.apicInit { k with pics := setupPic k.pics }).ioapic.message n = _
    unfold Ioapic.message
    rw [hlow.1, hlow.2]
    by_cases hopen : (k.ioapic.low n).getLsbD 16 = false
    · have hentry := @apicInit_fixed { k with pics := setupPic k.pics } n
        fun htwo => hfixed n hn htwo hopen
      rw [if_pos ⟨hopen, hentry⟩, if_pos hopen]
    · rw [if_neg (fun h => hopen h.1), if_neg hopen]
  enabled := by
    show ((k.lapic.registers 0xF0 ||| 0x100#32 ||| 0xFF#32) : BitVec 32).getLsbD 8 = true
    simp
  priority := rfl
  timer := rfl
  inService := rfl

theorem Started.accept (h : Started k₀ k) (v : BitVec 8) :
    k.lapic.accept v = if k₀.lapic.servicing / 16 < v.toNat / 16 then some v else none := by
  have hservicing : k.lapic.servicing = k₀.lapic.servicing := by
    rw [Lapic.servicing, h.inService]
    rfl
  unfold Lapic.accept
  rw [h.enabled, h.priority, hservicing]
  simp

theorem Started.vector (h : Started k₀ k) (s : Signal) : k.vector s = heard k₀ s := by
  cases s with
  | line n => exact h.silent n
  | irq n =>
      simp only [Controllers.vector, heard]
      rw [h.message n n.isLt]
      by_cases hopen : (k₀.ioapic.low n).getLsbD 16 = false
      · rw [if_pos hopen, Option.bind_some, h.accept]
        exact if_congr (iff_and_self.mpr fun _ => hopen) rfl rfl
      · rw [if_neg hopen, if_neg (fun hboth => hopen hboth.1)]
        rfl
  | apicTimer =>
      have htimer : k.lapic.timer = k.lapic.accept 32#8 := by
        rw [Lapic.timer, h.timer]
        rfl
      have hclass : k₀.lapic.servicing / 16 < 2 ↔ k₀.lapic.servicing < 32 := by omega
      simp only [Controllers.vector, heard]
      rw [htimer, h.accept]
      exact if_congr hclass rfl rfl

/-- What reaches the processor has come through the local APIC and is above all in service. -/
theorem Started.taken (h : Started k₀ k) {s : Signal} {v : BitVec 8} (hs : k.vector s = some v) :
    k.taken v s = { k with lapic := k.lapic.take v.toNat } ∧ k.lapic.servicing < v.toNat := by
  cases s with
  | line n =>
      have hsilent := h.silent n
      rw [Controllers.vector] at hs
      rw [hs] at hsilent
      cases hsilent
  | irq n =>
      obtain ⟨w, -, haccept⟩ := Option.bind_eq_some_iff.mp hs
      obtain ⟨rfl, habove⟩ := Lapic.accept_some haccept
      exact ⟨rfl, habove⟩
  | apicTimer =>
      simp only [Controllers.vector, Lapic.timer] at hs
      split at hs
      case isTrue => cases hs
      case isFalse =>
        obtain ⟨rfl, habove⟩ := Lapic.accept_some hs
        exact ⟨rfl, habove⟩

/-- A handler that returns has acknowledged its own vector, and leaves all as it was. -/
theorem Controllers.handle_take {v : BitVec 8} (habove : k.lapic.servicing < v.toNat) :
    Controllers.handle { k with lapic := k.lapic.take v.toNat } v = if Returns v then some k else none := by
  have hack : { k with lapic := apicEoi (k.lapic.take v.toNat) } = k := by
    rw [apicEoi_take habove v.isLt]
  unfold Controllers.handle
  by_cases hgate : v.toNat < 48
  · rw [if_pos hgate]
    by_cases hexc : v.toNat < 32
    · have hno : ¬ Returns v := fun h => absurd h.1 (by omega)
      rw [Entry.reactionTo, if_pos hexc, if_neg hno]
    · have hreturns : Returns v := ⟨by omega, hgate⟩
      rw [if_pos hreturns, Entry.reactionTo, if_neg hexc]
      by_cases htimer : v.toNat = 32
      · rw [if_pos htimer]
        exact congrArg some hack
      · by_cases hkey : v.toNat = 33
        · rw [if_neg htimer, if_pos hkey]
          exact congrArg some hack
        · rw [if_neg htimer, if_neg hkey]
          exact congrArg some hack
  · have hno : ¬ Returns v := fun h => absurd h.2 hgate
    rw [if_neg hgate, if_neg hno]

theorem Started.vectors (h : Started k₀ k) (ss : List Signal) :
    k.vectors ss = throughHalt (ss.filterMap (heard k₀)) := by
  induction ss with
  | nil => rfl
  | cons s ss ih =>
      rw [Controllers.vectors, List.filterMap_cons, ← h.vector]
      cases hs : k.vector s with
      | none => exact ih
      | some v =>
          obtain ⟨htaken, habove⟩ := h.taken hs
          simp only [throughHalt]
          rw [htaken, Controllers.handle_take habove, ← ih]
          by_cases hreturns : Returns v
          · rw [if_pos hreturns, if_pos hreturns]
            rfl
          · rw [if_neg hreturns, if_neg hreturns]
            rfl

end

end Kaviz.Drivers
