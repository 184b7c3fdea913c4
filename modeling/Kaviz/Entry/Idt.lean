import Kaviz.Entry.Interrupts

/-! # The interrupt descriptor table

`idt_set_gate` and `setup_idt` of `kernel/interrupt.c`, what the processor reads back
from the table when an interrupt comes, and the C handlers behind the stubs. The table
is memory; it is written field by field and read gate by gate.
-/

namespace Kaviz.Entry

open Bytes X86

/-! ## Gates -/

structure Gate where
  offset : Nat
  selector : Nat
  ist : Nat
  typeAttr : Nat
  deriving DecidableEq

/-- The gate at an address; its offset is split into three fields. -/
def gateAt (m : Mem) (a : Nat) : Gate where
  offset := readLE m a 2 + 2 ^ 16 * readLE m (a + 6) 2 + 2 ^ 32 * readLE m (a + 8) 4
  selector := readLE m (a + 2) 2
  ist := readLE m (a + 4) 1
  typeAttr := readLE m (a + 5) 1

/-- `idt_set_gate`, with the address of `idt`. -/
def idtSetGate (idt : Nat) (m : Mem) (num base sel flags : Nat) : Mem :=
  let entry := idt + 16 * (num % 256)
  let m := writeLE m entry 2 (base % 2 ^ 16)
  let m := writeLE m (entry + 6) 2 (base / 2 ^ 16 % 2 ^ 16)
  let m := writeLE m (entry + 8) 4 (base / 2 ^ 32 % 2 ^ 32)
  let m := writeLE m (entry + 2) 2 sel
  let m := writeLE m (entry + 4) 1 0
  let m := writeLE m (entry + 5) 1 flags
  writeLE m (entry + 12) 4 0

def setGates (idt : Nat) (nums : List Nat) (isr : Nat → Nat) (sel flags : Nat) (m : Mem) : Mem :=
  nums.foldl (fun m i => idtSetGate idt m i (isr i) sel flags) m

structure Idtr where
  limit : Nat
  base : Nat

/-- `setup_idt`, with the addresses of `idt`, of `idtp` and of the stubs. -/
def setupIdt (idt idtp : Nat) (isr : Nat → Nat) (m : Mem) : Mem × Idtr :=
  let m := writeLE m idtp 2 (16 * 256 - 1)
  let m := writeLE m (idtp + 2) 8 idt
  let m := setGates idt (List.range 256) (fun _ => 0) 0 0 m
  let m := setGates idt (List.range 48) isr 0x08 0x8E m
  (m, ⟨readLE m idtp 2, readLE m (idtp + 2) 8⟩)

/-! ## The processor -/

/-- The gate of a vector, when it lies within the limit and is a present interrupt gate. -/
def Idtr.gate (t : Idtr) (m : Mem) (vector : Nat) : Option Gate :=
  let g := gateAt m (t.base + 16 * vector)
  if 16 * vector + 15 ≤ t.limit ∧ g.typeAttr / 128 = 1 ∧ g.typeAttr % 32 = 0xE then some g else none

/-- An interrupt or an exception. `none` is a gate that faults in turn; selector 8 is
taken for 64-bit code of ring 0, and gates without a stack of their own are the only ones modelled. -/
def interrupt (c : Cpu) (t : Idtr) (vector errorCode rsp0 : Nat) : Option Cpu :=
  (t.gate c.mem vector).bind fun g =>
    if g.selector = 8 ∧ g.ist = 0 then some (deliver c vector errorCode rsp0 g.offset) else none

/-! ## The handlers -/

def exceptionMessages : List String :=
  ["Division By Zero", "Debug", "Non-Maskable Interrupt", "Breakpoint", "Overflow",
    "Bound Range Exceeded", "Invalid Opcode", "Device Not Available", "Double Fault",
    "Coprocessor Segment Overrun", "Invalid TSS", "Segment Not Present", "Stack Fault",
    "General Protection Fault", "Page Fault", "Reserved", "x87 Floating Point Exception",
    "Alignment Check", "Machine Check", "SIMD Floating Point Exception", "Virtualization Exception",
    "Reserved", "Reserved", "Reserved", "Reserved", "Reserved", "Reserved", "Reserved", "Reserved",
    "Reserved", "Reserved", "Reserved"]

inductive Reaction
  /-- It writes these strings and halts for good. -/
  | halts (text : List String)
  | timerCallback
  | keyboardHandler
  | apicEoi
  | returns
  deriving DecidableEq

def isrHandler (regs : RegisterBlock) : Reaction :=
  if regs.intNo < 32 then
    .halts (["Exception: ", exceptionMessages.getD regs.intNo "", "\nSystem Halted!\n"] ++
      if regs.errCode ≠ 0 then ["Error code: 0x", "\n"] else [])
  else .returns

def apicIsrHandler (regs : RegisterBlock) : Reaction :=
  if regs.intNo = 32 then .timerCallback
  else if regs.intNo ≥ 32 then .apicEoi
  else isrHandler regs

def Common.reaction (regs : RegisterBlock) : Common → Reaction
  | .isr => isrHandler regs
  | .apicTimer => .timerCallback
  | .apicKeyboard => .keyboardHandler
  | .apicIsr => apicIsrHandler regs

/-! ## The table in memory -/

section

variable {idt idtp num base sel flags j : Nat} {m : Mem} {l : List Nat} {isr : Nat → Nat}

theorem gateAt_congr {m' : Mem} {a : Nat} (h : ∀ x, a ≤ x → x < a + 16 → m x = m' x) :
    gateAt m a = gateAt m' a := by
  have hfield : ∀ o n, o + n ≤ 16 → readLE m (a + o) n = readLE m' (a + o) n :=
    fun o n hn => readLE_congr fun x hlo hhi => h x (by omega) (by omega)
  have hlow := hfield 0 2 (by decide)
  rw [Nat.add_zero] at hlow
  simp [gateAt, hlow, hfield]

theorem idtSetGate_outside {x : Nat} (h : x < idt + 16 * (num % 256) ∨ idt + 16 * (num % 256) + 16 ≤ x) :
    idtSetGate idt m num base sel flags x = m x := by
  unfold idtSetGate
  rw [writeLE_outside _ _ (by omega), writeLE_outside _ _ (by omega), writeLE_outside _ _ (by omega),
    writeLE_outside _ _ (by omega), writeLE_outside _ _ (by omega), writeLE_outside _ _ (by omega),
    writeLE_outside _ _ (by omega)]

theorem gateAt_idtSetGate (hnum : num < 256) (hbase : base < 2 ^ 64) (hsel : sel < 2 ^ 16)
    (hflags : flags < 2 ^ 8) :
    gateAt (idtSetGate idt m num base sel flags) (idt + 16 * num) = ⟨base, sel, 0, flags⟩ := by
  unfold gateAt idtSetGate
  rw [Nat.mod_eq_of_lt hnum]
  simp (disch := omega) only [readLE_writeLE_disjoint, readLE_writeLE_same]
  simp only [Gate.mk.injEq]
  omega

theorem gateAt_idtSetGate_other (hnum : num < 256) (hj : j ≠ num) :
    gateAt (idtSetGate idt m num base sel flags) (idt + 16 * j) = gateAt m (idt + 16 * j) := by
  apply gateAt_congr
  intro x hlo hhi
  exact idtSetGate_outside (by omega)

/-- Gates that are set one after another, each to what its number says. -/
theorem gateAt_setGates (hl : ∀ i ∈ l, i < 256) (hisr : ∀ i ∈ l, isr i < 2 ^ 64) (hsel : sel < 2 ^ 16)
    (hflags : flags < 2 ^ 8) (j : Nat) :
    gateAt (setGates idt l isr sel flags m) (idt + 16 * j) =
      if j ∈ l then ⟨isr j, sel, 0, flags⟩ else gateAt m (idt + 16 * j) := by
  induction l generalizing m with
  | nil => simp [setGates]
  | cons i l ih =>
      have hi := hl i (List.mem_cons_self ..)
      rw [setGates, List.foldl_cons, ← setGates, ih (fun k hk => hl k (List.mem_cons_of_mem i hk))
        (fun k hk => hisr k (List.mem_cons_of_mem i hk))]
      by_cases hmem : j ∈ l
      · simp [hmem]
      · by_cases hji : j = i
        · simp [hji, gateAt_idtSetGate hi (hisr i (List.mem_cons_self ..)) hsel hflags]
        · simp [hmem, hji, gateAt_idtSetGate_other hi hji]

theorem setGates_outside {x : Nat} (h : x < idt ∨ idt + 4096 ≤ x) :
    setGates idt l isr sel flags m x = m x := by
  induction l generalizing m with
  | nil => rfl
  | cons i l ih =>
      rw [setGates, List.foldl_cons, ← setGates, ih]
      exact idtSetGate_outside (by omega)

theorem setupIdt_outside {x : Nat} (htable : x < idt ∨ idt + 4096 ≤ x) (hptr : x < idtp ∨ idtp + 10 ≤ x) :
    (setupIdt idt idtp isr m).1 x = m x := by
  simp only [setupIdt]
  rw [setGates_outside htable, setGates_outside htable, writeLE_outside _ _ (by omega),
    writeLE_outside _ _ (by omega)]

theorem setupIdt_idtr (hidt : idt < 2 ^ 64) (hsep : idtp + 10 ≤ idt ∨ idt + 4096 ≤ idtp) :
    (setupIdt idt idtp isr m).2 = ⟨4095, idt⟩ := by
  have hfield : ∀ (a n : Nat) (m' : Mem), a = idtp ∧ n ≤ 10 ∨ a = idtp + 2 ∧ n ≤ 8 →
      readLE (setGates idt (List.range 48) isr 0x08 0x8E (setGates idt (List.range 256) (fun _ => 0) 0 0 m'))
        a n = readLE m' a n := by
    intro a n m' ha
    apply readLE_congr
    intro x hlo hhi
    rw [setGates_outside (by omega), setGates_outside (by omega)]
  simp only [setupIdt]
  rw [hfield _ _ _ (by omega), hfield _ _ _ (by omega), readLE_writeLE_disjoint _ _ (by omega),
    readLE_writeLE_same, readLE8_writeLE8_same _ _ hidt]
  rfl

theorem setupIdt_gate (hisr : ∀ i, i < 48 → isr i < 2 ^ 64) (hj : j < 256) :
    gateAt (setupIdt idt idtp isr m).1 (idt + 16 * j) =
      if j < 48 then ⟨isr j, 8, 0, 0x8E⟩ else ⟨0, 0, 0, 0⟩ := by
  simp only [setupIdt]
  rw [gateAt_setGates (by simp; omega) (by simpa using hisr) (by decide) (by decide),
    gateAt_setGates (by simp) (by simp) (by decide) (by decide)]
  simp [hj]

end

/-! ## From the interrupt to its handler -/

section

variable {code : Code} {c : Cpu} {idt idtp vector errorCode rsp0 : Nat} {m : Mem}

theorem gate_setupIdt (isr : Nat → Nat) (hidt : idt < 2 ^ 64)
    (hsep : idtp + 10 ≤ idt ∨ idt + 4096 ≤ idtp) (hisr : ∀ i, i < 48 → isr i < 2 ^ 64)
    (htable : ∀ x, idt ≤ x → x < idt + 4096 → c.mem x = (setupIdt idt idtp isr m).1 x) :
    (setupIdt idt idtp isr m).2.gate c.mem vector =
      if vector < 48 then some ⟨isr vector, 8, 0, 0x8E⟩ else none := by
  rw [setupIdt_idtr hidt hsep]
  unfold Idtr.gate
  by_cases hvector : vector < 256
  · have hgate : gateAt c.mem (idt + 16 * vector) =
        gateAt (setupIdt idt idtp isr m).1 (idt + 16 * vector) :=
      gateAt_congr fun x hlo hhi => htable x (by omega) (by omega)
    have hlimit : 16 * vector + 15 ≤ 4095 := by omega
    rw [hgate, setupIdt_gate hisr hvector]
    by_cases hset : vector < 48
    · simp [hset, hlimit]
    · simp [hset]
  · have hlimit : ¬ 16 * vector + 15 ≤ 4095 := by omega
    have hset : ¬ vector < 48 := by omega
    simp [hlimit, hset]

theorem interrupt_setupIdt (isr : Nat → Nat) (hidt : idt < 2 ^ 64)
    (hsep : idtp + 10 ≤ idt ∨ idt + 4096 ≤ idtp) (hisr : ∀ i, i < 48 → isr i < 2 ^ 64)
    (htable : ∀ x, idt ≤ x → x < idt + 4096 → c.mem x = (setupIdt idt idtp isr m).1 x) :
    interrupt c (setupIdt idt idtp isr m).2 vector errorCode rsp0 =
      if vector < 48 then some (deliver c vector errorCode rsp0 (isr vector)) else none := by
  rw [interrupt, gate_setupIdt isr hidt hsep hisr htable]
  by_cases hset : vector < 48
  · simp [hset]
  · simp [hset]

theorem handler_block (I : InterruptCode code) (hc : Interruptible c) (hvector : vector < 48)
    (herr : errorCode < 2 ^ 64) (hrsp0 : rsp0 < 2 ^ 64) :
    ∃ n c₁, run code n (deliver c vector errorCode rsp0 (I.isr vector)) = some c₁ ∧
      c₁.rip = I.handler (commonOf vector) ∧ (blockOf c₁).intNo = vector ∧
      (blockOf c₁).errCode = if errCodeStub vector then errorCode else 0 := by
  obtain ⟨n, c₁, s, hrun, hrip, hshows, -, hstack⟩ := @handler_entered c vector errorCode rsp0 code I
    hc hvector herr hrsp0
  have hword : ∀ i v, s.stack[i + 1]? = some v → c₁.word (c₁.regs .rsp + 8 * (i + 1)) = v :=
    fun i v hv => hshows.stacked (i + 1) v hv
  rw [hstack] at hword
  refine ⟨n, c₁, hrun, hrip, hword 15 _ rfl, hword 16 _ ?_⟩
  have hpushes : ∀ v, v < 48 → errCodeStub v = true → pushesErrorCode v = true := by decide
  rw [stubbed, interruptFrame]
  cases hstub : errCodeStub vector with
  | true =>
      rw [hpushes vector hvector hstub]
      rfl
  | false => rfl

/-- What comes of a vector below 48. Of the error codes, those above the stubs' own go unnoticed. -/
def reactionTo (vector errorCode : Nat) : Reaction :=
  if vector < 32 then
    .halts (["Exception: ", exceptionMessages.getD vector "", "\nSystem Halted!\n"] ++
      if errCodeStub vector ∧ errorCode ≠ 0 then ["Error code: 0x", "\n"] else [])
  else if vector = 32 then .timerCallback
  else if vector = 33 then .keyboardHandler
  else .apicEoi

theorem reaction_eq {regs : RegisterBlock} (hint : regs.intNo = vector)
    (herr : regs.errCode = if errCodeStub vector then errorCode else 0) :
    (commonOf vector).reaction regs = reactionTo vector errorCode := by
  have herrCode : regs.errCode ≠ 0 ↔ (errCodeStub vector ∧ errorCode ≠ 0) := by
    rw [herr]
    cases errCodeStub vector <;> simp
  unfold commonOf reactionTo
  by_cases hexc : vector < 32
  · simp [hexc, Common.reaction, isrHandler, hint, herrCode]
  · by_cases htimer : vector = 32
    · simp [htimer, Common.reaction]
    · by_cases hkey : vector = 33
      · simp [hkey, Common.reaction]
      · have hlater : 32 ≤ vector := by omega
        simp [hexc, htimer, hkey, Common.reaction, apicIsrHandler, hint, hlater]

/-- From whatever was in memory, `setup_idt` makes a table through which every exception halts with its own
message, the timer, the keyboard and the other APIC interrupts reach their handlers, and no other vector
goes anywhere; memory outside the table and its pointer is as before. -/
theorem interrupts_answered (I : InterruptCode code) (m : Mem) (hidt : idt < 2 ^ 64)
    (hsep : idtp + 10 ≤ idt ∨ idt + 4096 ≤ idtp) (hisr : ∀ i, i < 48 → I.isr i < 2 ^ 64)
    (hc : Interruptible c)
    (htable : ∀ x, idt ≤ x → x < idt + 4096 → c.mem x = (setupIdt idt idtp I.isr m).1 x)
    (herr : errorCode < 2 ^ 64) (hrsp0 : rsp0 < 2 ^ 64) :
    (∀ vector, vector < 48 → ∃ c₀ n c₁,
        interrupt c (setupIdt idt idtp I.isr m).2 vector errorCode rsp0 = some c₀ ∧
        run code n c₀ = some c₁ ∧ c₁.rip = I.handler (commonOf vector) ∧
        (commonOf vector).reaction (blockOf c₁) = reactionTo vector errorCode) ∧
      (∀ vector, 48 ≤ vector →
        interrupt c (setupIdt idt idtp I.isr m).2 vector errorCode rsp0 = none) ∧
      ∀ x, x < idt ∨ idt + 4096 ≤ x → x < idtp ∨ idtp + 10 ≤ x →
        (setupIdt idt idtp I.isr m).1 x = m x := by
  refine ⟨?_, ?_, fun x => setupIdt_outside⟩
  · intro vector hvector
    obtain ⟨n, c₁, hrun, hrip, hint, hcode⟩ := handler_block I hc hvector herr hrsp0
    refine ⟨_, n, c₁, ?_, hrun, hrip, reaction_eq hint hcode⟩
    rw [interrupt_setupIdt I.isr hidt hsep hisr htable, if_pos hvector]
  · intro vector hvector
    rw [interrupt_setupIdt I.isr hidt hsep hisr htable, if_neg (by omega)]

end

/-- The code of `interrupted`, with a table in its memory. -/
def interruptedWithIdt : Cpu :=
  { interrupted with
    mem := (setupIdt 0x20000 0x21000 (assembledInterrupts 0x100000 (by decide) (by decide)).isr fun _ => 0xCC).1 }

theorem interrupts_answered_page_fault : ∃ c₀ n c₁,
    interrupt interruptedWithIdt (setupIdt 0x20000 0x21000
      (assembledInterrupts 0x100000 (by decide) (by decide)).isr fun _ => 0xCC).2 14 2 0 = some c₀ ∧
    run (inBlocks 0x100000 (interruptAsm 0x100000)) n c₀ = some c₁ ∧ c₁.rip = Common.isr.block ∧
    Common.isr.reaction (blockOf c₁) = .halts ["Exception: ", "Page Fault", "\nSystem Halted!\n",
      "Error code: 0x", "\n"] :=
  (@interrupts_answered _ interruptedWithIdt 0x20000 0x21000 2 0
    (assembledInterrupts 0x100000 (by decide) (by decide)) (fun _ => 0xCC) (by decide) (Or.inr (by decide))
    (fun i hi => by show 0x100000 + 64 * i < 2 ^ 64; omega)
    ⟨interrupted_interruptible.regs_lt, interrupted_interruptible.segs_lt,
      interrupted_interruptible.rip_lt, interrupted_interruptible.rflags_lt,
      interrupted_interruptible.cs_ne⟩
    (fun _ _ _ => rfl) (by decide) (by decide)).1 14 (by decide)

end Kaviz.Entry
