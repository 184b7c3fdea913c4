import Mathlib.Logic.Function.Basic

/-! # The redirection table

`ioapic_set_irq_redirect` of `kernel/apic.c`. The controller is a register that selects
and a window on the register selected; an entry of the table is a pair of these. The
masks that clear an old entry leave out bits 13 and 16.
-/

namespace Kaviz.Drivers

/-! ## The controller -/

structure Ioapic where
  /-- The index register. -/
  index : Nat
  /-- What the data register shows for an index. -/
  registers : Nat → BitVec 32

def redtblBase : Nat := 0x10

namespace Ioapic

def select (s : Ioapic) (reg : Nat) : Ioapic := { s with index := reg }

def data (s : Ioapic) : BitVec 32 := s.registers s.index

def setData (s : Ioapic) (value : BitVec 32) : Ioapic :=
  { s with registers := Function.update s.registers s.index value }

/-- The two halves of the entry of an IRQ. -/
def low (s : Ioapic) (irq : Nat) : BitVec 32 := s.registers (redtblBase + irq * 2)

def high (s : Ioapic) (irq : Nat) : BitVec 32 := s.registers (redtblBase + irq * 2 + 1)

end Ioapic

def ioapicRead (s : Ioapic) (reg : Nat) : BitVec 32 × Ioapic :=
  let s := s.select reg
  (s.data, s)

def ioapicWrite (s : Ioapic) (reg : Nat) (value : BitVec 32) : Ioapic := (s.select reg).setData value

def redirectLow (low : BitVec 32) (vector : BitVec 8) (flags : BitVec 32) : BitVec 32 :=
  let low := low &&& ~~~0xFF#32
  let low := low ||| vector.setWidth 32
  let low := low &&& ~~~0x8F00#32
  low ||| flags

def redirectHigh (high : BitVec 32) : BitVec 32 :=
  let high := high &&& ~~~0xFF000000#32
  high ||| 0#32

def ioapicSetIrqRedirect (s : Ioapic) (irq : Nat) (vector : BitVec 8) (flags : BitVec 32) : Ioapic :=
  let reg := redtblBase + irq * 2
  let (low, s) := ioapicRead s reg
  let (high, s) := ioapicRead s (reg + 1)
  let s := ioapicWrite s reg (redirectLow low vector flags)
  ioapicWrite s (reg + 1) (redirectHigh high)

/-- The entry of `irq` is what the arguments say, and all others are as before. -/
structure Redirected (s s' : Ioapic) (irq : Nat) (vector : BitVec 8) (flags : BitVec 32) : Prop where
  vector : (s'.low irq).extractLsb' 0 8 = vector
  delivery_mode : (s'.low irq).extractLsb' 8 3 = flags.extractLsb' 8 3
  destination_mode : (s'.low irq).getLsbD 11 = flags.getLsbD 11
  polarity : (s'.low irq).getLsbD 13 = flags.getLsbD 13
  trigger : (s'.low irq).getLsbD 15 = flags.getLsbD 15
  mask : (s'.low irq).getLsbD 16 = flags.getLsbD 16
  destination : (s'.high irq).extractLsb' 24 8 = 0#8
  others : ∀ j, j < 24 → j ≠ irq → s'.low j = s.low j ∧ s'.high j = s.high j

/-! ## What a call leaves -/

section

variable {irq i : Nat} {vector : BitVec 8} {flags low high : BitVec 32}

theorem setIrqRedirect_registers (s : Ioapic) (irq : Nat) (vector : BitVec 8) (flags : BitVec 32) :
    (ioapicSetIrqRedirect s irq vector flags).registers =
      Function.update (Function.update s.registers (redtblBase + irq * 2)
        (redirectLow (s.low irq) vector flags)) (redtblBase + irq * 2 + 1) (redirectHigh (s.high irq)) := rfl

theorem setIrqRedirect_low (s : Ioapic) (irq : Nat) (vector : BitVec 8) (flags : BitVec 32) :
    (ioapicSetIrqRedirect s irq vector flags).low irq = redirectLow (s.low irq) vector flags := by
  rw [Ioapic.low, setIrqRedirect_registers, Function.update_of_ne (Nat.ne_of_lt (Nat.lt_succ_self _)),
    Function.update_self]

theorem setIrqRedirect_high (s : Ioapic) (irq : Nat) (vector : BitVec 8) (flags : BitVec 32) :
    (ioapicSetIrqRedirect s irq vector flags).high irq = redirectHigh (s.high irq) := by
  rw [Ioapic.high, setIrqRedirect_registers, Function.update_self]

theorem setIrqRedirect_others (s : Ioapic) (vector : BitVec 8) (flags : BitVec 32) {j : Nat} (hj : j ≠ irq) :
    (ioapicSetIrqRedirect s irq vector flags).low j = s.low j ∧
      (ioapicSetIrqRedirect s irq vector flags).high j = s.high j := by
  constructor
  · rw [Ioapic.low, setIrqRedirect_registers, Function.update_of_ne (by omega),
      Function.update_of_ne (by omega)]
    rfl
  · rw [Ioapic.high, setIrqRedirect_registers, Function.update_of_ne (by omega),
      Function.update_of_ne (by omega)]
    rfl

theorem redirectLow_bit (hi : i < 32) : (redirectLow low vector flags).getLsbD i =
    (((low.getLsbD i && !(0xFF#32).getLsbD i || vector.getLsbD i) && !(0x8F00#32).getLsbD i) ||
      flags.getLsbD i) := by
  simp only [redirectLow, BitVec.getLsbD_or, BitVec.getLsbD_and, BitVec.getLsbD_not, BitVec.getLsbD_setWidth,
    hi, decide_true, Bool.true_and]

theorem flags_bit (hflags : flags &&& ~~~0x1FF00#32 = 0#32) (hi : i < 8) : flags.getLsbD i = false := by
  have hmask : ∀ j, j < 8 → (~~~0x1FF00#32).getLsbD j = true := by decide
  have hbit := congrArg (fun v => v.getLsbD i) hflags
  simp only [BitVec.getLsbD_and, hmask i hi, Bool.and_true, BitVec.getLsbD_zero] at hbit
  exact hbit

theorem redirectLow_vector (hflags : flags &&& ~~~0x1FF00#32 = 0#32) :
    (redirectLow low vector flags).extractLsb' 0 8 = vector := by
  have hold : ∀ j, j < 8 → (0xFF#32).getLsbD j = true := by decide
  have hkept : ∀ j, j < 8 → (0x8F00#32).getLsbD j = false := by decide
  apply BitVec.eq_of_getLsbD_eq
  intro i hi
  rw [BitVec.getLsbD_extractLsb', Nat.zero_add, redirectLow_bit (by omega), hold i hi, hkept i hi,
    flags_bit hflags hi]
  simp [hi]

theorem redirectLow_delivery (low : BitVec 32) (vector : BitVec 8) (flags : BitVec 32) :
    (redirectLow low vector flags).extractLsb' 8 3 = flags.extractLsb' 8 3 := by
  have hcleared : ∀ j, j < 3 → (0x8F00#32).getLsbD (8 + j) = true := by decide
  apply BitVec.eq_of_getLsbD_eq
  intro i hi
  rw [BitVec.getLsbD_extractLsb', BitVec.getLsbD_extractLsb', redirectLow_bit (by omega), hcleared i hi]
  simp

theorem redirectHigh_destination (high : BitVec 32) : (redirectHigh high).extractLsb' 24 8 = 0#8 := by
  have hcleared : ∀ j, j < 8 → (~~~0xFF000000#32).getLsbD (24 + j) = false := by decide
  apply BitVec.eq_of_getLsbD_eq
  intro i hi
  rw [BitVec.getLsbD_extractLsb', redirectHigh]
  simp only [BitVec.getLsbD_or, BitVec.getLsbD_and, hcleared i hi]
  simp

theorem redirectLow_cleared (hi : i < 32) (hmask : (0x8F00#32).getLsbD i = true) :
    (redirectLow low vector flags).getLsbD i = flags.getLsbD i := by
  rw [redirectLow_bit hi, hmask]
  simp

theorem redirectLow_kept (hi : i < 32) (hvector : 8 ≤ i) (hlow : (0xFF#32).getLsbD i = false)
    (hmask : (0x8F00#32).getLsbD i = false) :
    (redirectLow low vector flags).getLsbD i = (low.getLsbD i || flags.getLsbD i) := by
  rw [redirectLow_bit hi, hmask, hlow, BitVec.getLsbD_of_ge vector i hvector]
  simp

/-- Such a bit is as in the flags unless it was set before without them. -/
theorem redirectLow_kept_iff (hi : i < 32) (hvector : 8 ≤ i) (hlow : (0xFF#32).getLsbD i = false)
    (hmask : (0x8F00#32).getLsbD i = false) :
    (redirectLow low vector flags).getLsbD i = flags.getLsbD i ↔
      (low.getLsbD i = true → flags.getLsbD i = true) := by
  rw [redirectLow_kept hi hvector hlow hmask]
  exact Bool.or_eq_right_iff_imp

/-- An entry is redirected as its arguments say if and only if its polarity and its mask were set
before only where they are set in the flags. -/
theorem ioapic_redirect_iff (s : Ioapic) (hflags : flags &&& ~~~0x1FF00#32 = 0#32) :
    Redirected s (ioapicSetIrqRedirect s irq vector flags) irq vector flags ↔
      ((s.low irq).getLsbD 13 = true → flags.getLsbD 13 = true) ∧
        ((s.low irq).getLsbD 16 = true → flags.getLsbD 16 = true) := by
  have hpolarity := @redirectLow_kept_iff 13 vector flags (s.low irq) (by decide) (by decide)
    (by decide) (by decide)
  have hmask := @redirectLow_kept_iff 16 vector flags (s.low irq) (by decide) (by decide)
    (by decide) (by decide)
  rw [← setIrqRedirect_low] at hpolarity hmask
  rw [← hpolarity, ← hmask]
  constructor
  · intro h
    exact ⟨h.polarity, h.mask⟩
  · rintro ⟨hp, hm⟩
    constructor
    case vector =>
      rw [setIrqRedirect_low]
      exact redirectLow_vector hflags
    case delivery_mode =>
      rw [setIrqRedirect_low]
      exact redirectLow_delivery _ _ _
    case destination_mode =>
      rw [setIrqRedirect_low]
      exact redirectLow_cleared (by decide) (by decide)
    case polarity => exact hp
    case trigger =>
      rw [setIrqRedirect_low]
      exact redirectLow_cleared (by decide) (by decide)
    case mask => exact hm
    case destination =>
      rw [setIrqRedirect_high]
      exact redirectHigh_destination _
    case others =>
      intro j _ hj
      exact setIrqRedirect_others s vector flags hj

end

def uniform (low : BitVec 32) : Ioapic := ⟨0, fun _ => low⟩

theorem ioapic_redirect_timer : Redirected (uniform 0#32) (ioapicSetIrqRedirect (uniform 0#32) 0 32#8 0#32)
    0 32#8 0#32 :=
  (ioapic_redirect_iff (uniform 0#32) (by decide)).mpr ⟨by decide, by decide⟩

/-- Behind a reset, when all entries are masked, the timer stays masked. -/
theorem ioapic_redirect_masked :
    ¬ Redirected (uniform 0x10000#32) (ioapicSetIrqRedirect (uniform 0x10000#32) 0 32#8 0#32) 0 32#8 0#32 :=
  fun h => absurd h.mask (by decide)

end Kaviz.Drivers
