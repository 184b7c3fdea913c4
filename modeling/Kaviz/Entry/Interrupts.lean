import Kaviz.Lib.Stack

/-! # Interrupt stubs

The stubs and common routines of `kernel/interrupts.asm` and
`kernel/apic_isr_stubs.asm`, and what the processor does before and after them.
The block a C handler receives is `struct registers` of `kernel/interrupt.h`, by
value: the words above its return address.
-/

namespace Kaviz.Entry

open Bytes X86

/-! ## The processor -/

/-- Exceptions for which an x86-64 processor pushes an error code. -/
def pushesErrorCode (vector : Nat) : Bool :=
  vector ∈ [8, 10, 11, 12, 13, 14, 17, 21, 29, 30]

structure Interruptible (c : Cpu) : Prop where
  regs_lt : ∀ r, c.regs r < 2 ^ 64
  segs_lt : ∀ s, c.segs s < 2 ^ 16
  rip_lt : c.rip < 2 ^ 64
  rflags_lt : c.rflags < 2 ^ 64
  /-- The code segment is never null. -/
  cs_ne : c.segs .cs / 4 ≠ 0

/-- Where the frame goes: the current stack, or that of ring 0 from user mode,
aligned to 16 bytes. -/
def frameTop (c : Cpu) (rsp0 : Nat) : Nat :=
  (if c.segs .cs % 4 = 0 then c.regs .rsp else rsp0) / 16 * 16

/-- The words the processor pushes, last one first. -/
def interruptFrame (c : Cpu) (vector errorCode : Nat) : List Nat :=
  (if pushesErrorCode vector then [errorCode] else []) ++
    [c.rip, c.segs .cs, c.rflags, c.regs .rsp, c.segs .ss]

/-- Flags in a handler behind an interrupt gate: without TF, IF, NT and RF. -/
def gateFlags (f : Nat) : Nat := f &&& 0xFFFFFFFFFFFEBCFF

/-- Delivery of an interrupt through a gate of the IDT, whose selector is 8. -/
def deliver (c : Cpu) (vector errorCode rsp0 target : Nat) : Cpu :=
  let pushed := (interruptFrame c vector errorCode).reverse.foldl Cpu.push (c.set .rsp (frameTop c rsp0))
  { (if c.segs .cs % 4 = 0 then pushed.setSeg .cs 8 else (pushed.setSeg .cs 8).setSeg .ss 0) with
    rip := target
    rflags := gateFlags c.rflags }

/-! ## The code -/

/-- `ISR_ERRCODE`, `ISR_NOERRCODE` and `APIC_ISR_NOERRCODE`, up to the jump. -/
def stub (errCode : Bool) (vector : Nat) : List Instr :=
  .cli :: if errCode then [.pushImm vector] else [.pushImm 0, .pushImm vector]

/-- The vectors for which `interrupts.asm` uses `ISR_ERRCODE`. -/
def errCodeStub (vector : Nat) : Bool := vector ∈ [8, 10, 11, 12, 13, 14]

def savedRegs : List Reg :=
  [.rax, .rbx, .rcx, .rdx, .rsi, .rdi, .rbp, .r8, .r9, .r10, .r11, .r12, .r13, .r14, .r15]

def loadDataSegments : List Instr := [.movAx 0x10, .movSeg .ds, .movSeg .es, .movSeg .fs, .movSeg .gs]

/-- The common routines: `isr_common_stub`, `apic_timer_handler`,
`apic_keyboard_handler` and `apic_isr_common_stub`. -/
inductive Common
  | isr | apicTimer | apicKeyboard | apicIsr
  deriving DecidableEq

def commonOf (vector : Nat) : Common :=
  if vector < 32 then .isr else if vector = 32 then .apicTimer else if vector = 33 then .apicKeyboard
  else .apicIsr

/-- The routine loads the data segments and passes a pointer. -/
def Common.loadsSegments : Common → Bool
  | .isr | .apicIsr => true
  | .apicTimer | .apicKeyboard => false

def Common.prologue (k : Common) : List Instr :=
  savedRegs.map .push ++ if k.loadsSegments then loadDataSegments ++ [.mov .rdi .rsp] else []

def Common.epilogue (k : Common) : List Instr :=
  (if k.loadsSegments then loadDataSegments else []) ++ savedRegs.reverse.map .pop ++ [.addImm .rsp 16]

/-- Code with the stubs and the common routines in it; the C handlers lie outside. -/
structure InterruptCode (code : Code) where
  isr : Nat → Nat
  jumpAt : Nat → Nat
  entry : Common → Nat
  callAt : Common → Nat
  back : Common → Nat
  iretAt : Common → Nat
  handler : Common → Nat
  back_lt : ∀ k, back k < 2 ^ 64
  stub_placed : ∀ vector, vector < 48 →
    Placed code (isr vector) (stub (errCodeStub vector) vector) (jumpAt vector)
  jump : ∀ vector, vector < 48 → ∃ a, code (jumpAt vector) = some (.jmp (entry (commonOf vector)), a)
  prologue_placed : ∀ k, Placed code (entry k) k.prologue (callAt k)
  call_handler : ∀ k, code (callAt k) = some (.call (handler k), back k)
  handler_outside : ∀ k, code (handler k) = none
  epilogue_placed : ∀ k, Placed code (back k) k.epilogue (iretAt k)
  iret : ∀ k, ∃ a, code (iretAt k) = some (.iretq, a)

/-! ## The block -/

/-- `struct registers`. -/
structure RegisterBlock where
  gprs : Reg → Nat
  intNo : Nat
  errCode : Nat
  rip : Nat
  cs : Nat
  rflags : Nat
  useresp : Nat
  ss : Nat

/-- Place of a register in the block: `r15` to `r8`, then `rbp`, `rdi`, `rsi`,
`rdx`, `rcx`, `rbx` and `rax`. -/
def blockSlot : Reg → Nat
  | .r15 => 0 | .r14 => 1 | .r13 => 2 | .r12 => 3 | .r11 => 4 | .r10 => 5 | .r9 => 6 | .r8 => 7
  | .rbp => 8 | .rdi => 9 | .rsi => 10 | .rdx => 11 | .rcx => 12 | .rbx => 13 | .rax => 14
  | .rsp => 20

/-- The `struct registers` parameter of a function that was just entered; `rsp`
is its `useresp`. -/
def blockOf (c : Cpu) : RegisterBlock :=
  let at_ := fun i => c.word (c.regs .rsp + 8 * (i + 1))
  ⟨fun r => at_ (blockSlot r), at_ 15, at_ 16, at_ 17, at_ 18, at_ 19, at_ 20, at_ 21⟩

structure Faithful (b : RegisterBlock) (c : Cpu) (vector errorCode : Nat) : Prop where
  gprs : ∀ r, r ≠ .rsp → b.gprs r = c.regs r
  intNo : b.intNo = vector
  errCode : b.errCode = if pushesErrorCode vector then errorCode else 0
  rip : b.rip = c.rip
  cs : b.cs = c.segs .cs
  rflags : b.rflags = c.rflags
  useresp : b.useresp = c.regs .rsp
  ss : b.ss = c.segs .ss

/-- The handler of the vector receives a faithful block, and when it returns
leaving the block alone, the interrupted code goes on with its registers. -/
def FramesFaithful {code : Code} (I : InterruptCode code) (c : Cpu) (vector errorCode rsp0 : Nat) :
    Prop :=
  ∃ n c₁, run code n (deliver c vector errorCode rsp0 (I.isr vector)) = some c₁ ∧
    c₁.rip = I.handler (commonOf vector) ∧ Faithful (blockOf c₁) c vector errorCode ∧
    ∀ c₂, Returned c₁ c₂ 22 → ∃ k c₃, run code k c₂ = some c₃ ∧ c₃.rip = c.rip ∧
      ∀ r, c₃.regs r = c.regs r

/-! ## Through the stubs -/

variable {c : Cpu} {vector errorCode rsp0 : Nat}

def stubbed (c : Cpu) (vector errorCode : Nat) : List Nat :=
  vector :: (if errCodeStub vector then [] else [0]) ++ interruptFrame c vector errorCode

theorem interruptFrame_lt (hc : Interruptible c) (herr : errorCode < 2 ^ 64) :
    ∀ v ∈ interruptFrame c vector errorCode, v < 2 ^ 64 := by
  have hcs := hc.segs_lt .cs
  have hss := hc.segs_lt .ss
  intro v hv
  rcases List.mem_append.mp hv with hv | hv
  · split at hv
    · rw [List.mem_singleton.mp hv]
      exact herr
    · cases hv
  · simp only [List.mem_cons, List.not_mem_nil, or_false] at hv
    rcases hv with rfl | rfl | rfl | rfl | rfl
    · exact hc.rip_lt
    · omega
    · exact hc.rflags_lt
    · exact hc.regs_lt .rsp
    · omega

theorem interruptFrame_length (c : Cpu) (vector errorCode : Nat) :
    (interruptFrame c vector errorCode).length = if pushesErrorCode vector then 6 else 5 := by
  rw [interruptFrame]
  split <;> rfl

theorem deliver_cs (c : Cpu) (vector errorCode rsp0 target : Nat) :
    (deliver c vector errorCode rsp0 target).segs .cs = 8 := by
  unfold deliver Cpu.setSeg
  by_cases hring : c.segs .cs % 4 = 0
  · simp only [if_pos hring, Function.update_self]
  · simp only [if_neg hring]
    rw [Function.update_of_ne (by decide), Function.update_self]

theorem deliver_shows (hc : Interruptible c) (herr : errorCode < 2 ^ 64) (hrsp0 : rsp0 < 2 ^ 64)
    (target : Nat) :
    ∃ s, Shows (deliver c vector errorCode rsp0 target) s ∧ (∀ r, r ≠ .rsp → s.regs r = c.regs r) ∧
      s.segs .cs = 8 ∧ s.stack = interruptFrame c vector errorCode := by
  have htop : frameTop c rsp0 < 2 ^ 64 := by
    have hrsp := hc.regs_lt .rsp
    unfold frameTop
    split
    · omega
    · omega
  have hregs : ∀ r, (c.set .rsp (frameTop c rsp0)).regs r < 2 ^ 64 := by
    intro r
    by_cases hr : r = .rsp
    · rw [hr, set_self]
      exact htop
    · rw [set_other c _ hr]
      exact hc.regs_lt r
  have hframe : ∀ v ∈ (interruptFrame c vector errorCode).reverse, v < 2 ^ 64 :=
    fun v hv => interruptFrame_lt hc herr v (List.mem_reverse.mp hv)
  have hpushed := (Shows.start hregs).pushes hframe
    (by
      rw [List.length_reverse, interruptFrame_length, List.length_nil]
      split
      · exact (by decide : 0 + 6 ≤ View.depth)
      · exact (by decide : 0 + 5 ≤ View.depth))
  rw [List.reverse_reverse, List.append_nil] at hpushed
  have hsame : (deliver c vector errorCode rsp0 target).regs = ((interruptFrame c vector
      errorCode).reverse.foldl Cpu.push (c.set .rsp (frameTop c rsp0))).regs := by
    unfold deliver
    split <;> rfl
  have hmem : (deliver c vector errorCode rsp0 target).mem = ((interruptFrame c vector
      errorCode).reverse.foldl Cpu.push (c.set .rsp (frameTop c rsp0))).mem := by
    unfold deliver
    split <;> rfl
  refine ⟨_, hpushed.withSegs hsame hmem, ?_, ?_, rfl⟩
  · intro r hr
    exact set_other c _ hr
  · exact deliver_cs c vector errorCode rsp0 target

theorem stub_view (s : View) (hlen : s.stack.length ≤ 6) (hvector : vector < 48) :
    s.run (stub (errCodeStub vector) vector) = some { s with
      stack := vector :: (if errCodeStub vector then [] else [0]) ++ s.stack } := by
  have hdepth : View.depth = 1024 := rfl
  have hlt : vector < 2 ^ 64 := by omega
  cases errCodeStub vector with
  | true =>
      have hpush : s.effect (.pushImm vector) = some { s with stack := vector :: s.stack } :=
        if_pos ⟨by omega, hlt⟩
      show (s.effect (.pushImm vector)).bind _ = _
      rw [hpush]
      rfl
  | false =>
      have hzero : s.effect (.pushImm 0) = some { s with stack := 0 :: s.stack } :=
        if_pos ⟨by omega, by decide⟩
      have hpush : { s with stack := 0 :: s.stack }.effect (.pushImm vector) =
          some { s with stack := vector :: 0 :: s.stack } :=
        if_pos ⟨by rw [List.length_cons]; omega, hlt⟩
      show (s.effect (.pushImm 0)).bind _ = _
      rw [hzero]
      show (View.effect { s with stack := 0 :: s.stack } (.pushImm vector)).bind _ = _
      rw [hpush]
      rfl

theorem prologue_view (k : Common) (s : View) (hlen : s.stack.length ≤ 8) :
    ∃ s', s.run k.prologue = some s' ∧ s'.segs .cs = s.segs .cs ∧
      s'.stack = savedRegs.reverse.map s.regs ++ s.stack := by
  have hdepth : View.depth = 1024 := rfl
  have hnot : .rsp ∉ savedRegs := by decide
  have hpush := s.run_push hnot
    (by rw [show savedRegs.length = 15 from rfl]; omega)
  rw [Common.prologue, View.run_append, hpush, Option.bind_some]
  cases k.loadsSegments with
  | true => exact ⟨_, rfl, rfl, rfl⟩
  | false => exact ⟨_, rfl, rfl, rfl⟩

theorem epilogue_view (k : Common) (s : View) (f : Reg → Nat) {a b : Nat} {vs : List Nat}
    (hstack : s.stack = savedRegs.reverse.map f ++ a :: b :: vs) :
    ∃ s', s.run k.epilogue = some s' ∧ s'.segs .cs = s.segs .cs ∧ s'.stack = vs ∧
      ∀ r, r ≠ .rsp → s'.regs r = f r := by
  have hall : ∀ r, r ≠ .rsp → r ∈ savedRegs.reverse := by
    intro r hr
    cases r <;> first | decide | exact absurd rfl hr
  obtain ⟨s₁, hload, hcs, hstack₁⟩ : ∃ s₁, s.run (if k.loadsSegments then loadDataSegments else []) =
      some s₁ ∧ s₁.segs .cs = s.segs .cs ∧ s₁.stack = s.stack := by
    cases k.loadsSegments with
    | true => exact ⟨_, rfl, rfl, rfl⟩
    | false => exact ⟨_, rfl, rfl, rfl⟩
  have hnot : .rsp ∉ savedRegs.reverse := by decide
  have hpop := s₁.run_pop hnot f (hstack₁.trans hstack)
  refine ⟨{ s₁ with regs := fun r => if r ∈ savedRegs.reverse then f r else s₁.regs r, stack := vs },
    ?_, hcs, rfl, fun r hr => if_pos (hall r hr)⟩
  rw [Common.epilogue, View.run_append, View.run_append, hload, Option.bind_some, hpop,
    Option.bind_some]
  show (View.effect _ (.addImm .rsp 16)).bind _ = _
  rw [View.effect, if_pos ⟨rfl, rfl, by simp⟩]
  rfl

variable {code : Code}

theorem handler_entered (I : InterruptCode code) (hc : Interruptible c) (hvector : vector < 48)
    (herr : errorCode < 2 ^ 64) (hrsp0 : rsp0 < 2 ^ 64) :
    ∃ n c₁ s, run code n (deliver c vector errorCode rsp0 (I.isr vector)) = some c₁ ∧
      c₁.rip = I.handler (commonOf vector) ∧ Shows c₁ s ∧ s.segs .cs = 8 ∧
      s.stack = I.back (commonOf vector) ::
        (savedRegs.reverse.map c.regs ++ stubbed c vector errorCode) := by
  obtain ⟨s₀, hshows₀, hregs₀, hcs₀, hstack₀⟩ :=
    @deliver_shows c vector errorCode rsp0 hc herr hrsp0 (I.isr vector)
  have hlen₀ : s₀.stack.length ≤ 6 := by
    rw [hstack₀, interruptFrame_length]
    split <;> decide
  obtain ⟨n₁, c₁, hrun₁, hrip₁, hshows₁⟩ := hshows₀.run (I.stub_placed vector hvector) rfl
    (stub_view s₀ hlen₀ hvector)
  obtain ⟨a, hjump⟩ := I.jump vector hvector
  obtain ⟨c₂, hrun₂, hrip₂, hshows₂⟩ := hshows₁.jmp (by rw [hrip₁]; exact hjump)
  have hlen₁ : (vector :: (if errCodeStub vector then [] else [0]) ++ s₀.stack).length ≤ 8 := by
    rw [List.length_append, List.length_cons]
    split
    · rw [List.length_nil]
      omega
    · rw [List.length_singleton]
      omega
  obtain ⟨s₃, hview, hcs₃, hstack₃⟩ := prologue_view (commonOf vector)
    { s₀ with stack := vector :: (if errCodeStub vector then [] else [0]) ++ s₀.stack } hlen₁
  obtain ⟨n₃, c₃, hrun₃, hrip₃, hshows₃⟩ := hshows₂.run (I.prologue_placed _) hrip₂ hview
  have hlen₃ : s₃.stack.length < View.depth := by
    rw [hstack₃, List.length_append, List.length_map]
    exact Nat.lt_of_le_of_lt (Nat.add_le_add_left hlen₁ _) (by decide)
  obtain ⟨c₄, hrun₄, hrip₄, hshows₄⟩ :=
    hshows₃.call (by rw [hrip₃]; exact I.call_handler _) (I.back_lt _) hlen₃
  refine ⟨n₁ + (1 + (n₃ + 1)), c₄, _, ?_, hrip₄, hshows₄, hcs₃.trans hcs₀, ?_⟩
  · rw [run_add, hrun₁, Option.bind_some, run_add, hrun₂, Option.bind_some, run_add, hrun₃,
      Option.bind_some, hrun₄]
  · have hmap : savedRegs.reverse.map s₀.regs = savedRegs.reverse.map c.regs := by
      apply List.map_congr_left
      intro r hr
      apply hregs₀
      rintro rfl
      exact absurd hr (by decide)
    show I.back (commonOf vector) :: s₃.stack = _
    rw [hstack₃, hstack₀]
    show _ :: (savedRegs.reverse.map s₀.regs ++ _) = _
    rw [hmap]
    rfl

/-- Vectors whose stub disagrees with the processor about the error code. -/
def misclassified (vector : Nat) : Bool := vector ∈ [17, 21, 29, 30]

theorem stubbed_eq (c : Cpu) (errorCode : Nat) (hvector : vector < 48) :
    stubbed c vector errorCode =
      (if misclassified vector then [vector, 0, errorCode]
        else [vector, if pushesErrorCode vector then errorCode else 0]) ++
      [c.rip, c.segs .cs, c.rflags, c.regs .rsp, c.segs .ss] := by
  have hkinds : ∀ v, v < 48 → misclassified v = (pushesErrorCode v && !errCodeStub v) ∧
      (errCodeStub v = true → pushesErrorCode v = true) := by decide
  obtain ⟨hmis, himp⟩ := hkinds vector hvector
  rw [stubbed, interruptFrame, hmis]
  cases hstub : errCodeStub vector with
  | true =>
      rw [himp hstub]
      rfl
  | false =>
      cases pushesErrorCode vector with
      | true => rfl
      | false => rfl

/-- The way back from a handler that left the block alone. -/
theorem interrupt_returned (I : InterruptCode code) (hc : Interruptible c) {c₁ c₂ : Cpu} {s : View}
    {a b : Nat} (k : Common) (hs : Shows c₁ s) (hcs : s.segs .cs = 8)
    (hstack : s.stack = I.back k :: (savedRegs.reverse.map c.regs ++
      [a, b, c.rip, c.segs .cs, c.rflags, c.regs .rsp, c.segs .ss]))
    (hret : Returned c₁ c₂ 22) :
    ∃ n c₃, run code n c₂ = some c₃ ∧ c₃.rip = c.rip ∧ ∀ r, c₃.regs r = c.regs r := by
  obtain ⟨hrip₂, hshows₂⟩ := hret.shows hs hstack (by
    rw [List.length_append, List.length_map]
    exact Nat.le_refl 22)
  obtain ⟨s₃, hview, hcs₃, hstack₃, hregs₃⟩ := epilogue_view k
    { s with
      regs := c₂.regs, segs := c₂.segs
      stack := savedRegs.reverse.map c.regs ++
        [a, b, c.rip, c.segs .cs, c.rflags, c.regs .rsp, c.segs .ss] } c.regs rfl
  obtain ⟨n, c₃, hrun₃, hrip₃, hshows₃⟩ := hshows₂.run (I.epilogue_placed k) hrip₂ hview
  obtain ⟨next, hiret⟩ := I.iret k
  have hframe := hshows₃.stacked
  rw [hstack₃] at hframe
  have hkernel : c₃.segs .cs = 8 := by
    rw [hshows₃.segs_eq, hcs₃]
    show c₂.segs .cs = 8
    rw [hret.cs, hs.segs_eq, hcs]
  obtain ⟨c₄, hexec, hrip₄, hrsp₄, -, -, hregs₄⟩ := interruptReturn_stacked hframe (hc.segs_lt .cs) hc.cs_ne
    (by rw [hkernel]; exact Nat.zero_le _)
  refine ⟨n + 1, c₄, ?_, hrip₄, ?_⟩
  · rw [run_add, hrun₃, Option.bind_some, run_one, step, hrip₃, hiret, Option.bind_some]
    exact hexec
  · intro r
    by_cases hr : r = .rsp
    · rw [hr, hrsp₄]
    · rw [hregs₄ r hr, hshows₃.regs_eq r hr, hregs₃ r hr]

/-- A block below an unexpected error code shows a null code segment. -/
theorem FramesFaithful.classified {I : InterruptCode code} (h : FramesFaithful I c vector errorCode rsp0)
    (hc : Interruptible c) (hvector : vector < 48) (herr : errorCode < 2 ^ 64)
    (hrsp0 : rsp0 < 2 ^ 64) : misclassified vector = false := by
  obtain ⟨n, c₁, s, hrun, hrip, hshows, -, hstack⟩ := @handler_entered c vector errorCode rsp0 code I
    hc hvector herr hrsp0
  obtain ⟨k, c₁', hrun', hrip', hblock, -⟩ := h
  have hsame : c₁ = c₁' := run_end_unique hrun hrun' (by rw [hrip]; exact I.handler_outside _)
    (by rw [hrip']; exact I.handler_outside _)
  subst hsame
  cases hmis : misclassified vector with
  | false => rfl
  | true =>
      have hpushes : pushesErrorCode vector = true := by
        have hkinds : ∀ v, v < 48 → misclassified v = true → pushesErrorCode v = true := by decide
        exact hkinds vector hvector hmis
      rw [stubbed_eq c errorCode hvector, hmis, if_pos rfl] at hstack
      have hword : ∀ i v, s.stack[i + 1]? = some v → c₁.word (c₁.regs .rsp + 8 * (i + 1)) = v :=
        fun i v hv => hshows.stacked (i + 1) v hv
      rw [hstack] at hword
      have herrCode : (blockOf c₁).errCode = 0 := hword 16 _ rfl
      have hripField : (blockOf c₁).rip = errorCode := hword 17 _ rfl
      have hcsField : (blockOf c₁).cs = c.rip := hword 18 _ rfl
      have hzero := hblock.errCode
      rw [if_pos hpushes, herrCode] at hzero
      have hripEq := hblock.rip
      have hcsEq := hblock.cs
      have hne := hc.cs_ne
      omega

/-- Interrupt frames are faithful for every vector but those whose stub pushes an
error code of its own above the processor's. -/
theorem frames_faithful_iff (I : InterruptCode code) (hc : Interruptible c) (hvector : vector < 48)
    (herr : errorCode < 2 ^ 32) (hrsp0 : rsp0 < 2 ^ 64) :
    FramesFaithful I c vector errorCode rsp0 ↔ vector ∉ [17, 21, 29, 30] := by
  have herr64 : errorCode < 2 ^ 64 := by omega
  constructor
  · intro h
    exact of_decide_eq_false (h.classified hc hvector herr64 hrsp0)
  · intro hclass
    have hmis : misclassified vector = false := decide_eq_false hclass
    obtain ⟨n, c₁, s, hrun, hrip, hshows, hcs, hstack⟩ := @handler_entered c vector errorCode rsp0 code I
      hc hvector herr64 hrsp0
    rw [stubbed_eq c errorCode hvector, hmis, if_neg Bool.false_ne_true] at hstack
    have hword : ∀ i v, s.stack[i + 1]? = some v → c₁.word (c₁.regs .rsp + 8 * (i + 1)) = v :=
      fun i v hv => hshows.stacked (i + 1) v hv
    rw [hstack] at hword
    refine ⟨n, c₁, hrun, hrip, ?_, fun c₂ hret => interrupt_returned I hc _ hshows hcs hstack hret⟩
    refine ⟨?_, hword 15 _ rfl, hword 16 _ rfl, hword 17 _ rfl, hword 18 _ rfl, hword 19 _ rfl,
      hword 20 _ rfl, hword 21 _ rfl⟩
    intro r _
    apply hword (blockSlot r)
    cases r <;> rfl

/-! ## The routines in memory -/

/-- Number of the block of 64 addresses a common routine stands in, behind the 48 stubs. -/
def Common.block : Common → Nat
  | .isr => 48 | .apicTimer => 49 | .apicKeyboard => 50 | .apicIsr => 51

/-- A common routine that calls a handler. -/
def Common.asm (k : Common) (handler : Nat) : List Instr :=
  k.prologue ++ ([.call handler] ++ (k.epilogue ++ [.iretq]))

/-- The routine in a block; the handlers have the addresses 48 to 51. -/
def interruptAsm (base b : Nat) : List Instr :=
  if b < 48 then stub (errCodeStub b) b ++ [.jmp (base + 64 * (commonOf b).block)]
  else if b = 48 then Common.isr.asm 48
  else if b = 49 then Common.apicTimer.asm 49
  else if b = 50 then Common.apicKeyboard.asm 50
  else if b = 51 then Common.apicIsr.asm 51
  else []

theorem interruptAsm_common (base : Nat) (k : Common) : interruptAsm base k.block = k.asm k.block := by
  cases k <;> rfl

theorem stub_length_le (e : Bool) (vector : Nat) : (stub e vector).length ≤ 3 := by
  cases e
  · exact Nat.le_refl 3
  · exact Nat.le_succ 2

theorem prologue_length_le (k : Common) : k.prologue.length ≤ 21 := by
  cases k <;> decide

theorem epilogue_length_le (k : Common) : k.epilogue.length ≤ 21 := by
  cases k <;> decide

/-- The routines from an address on. -/
def assembledInterrupts (base : Nat) (hlo : 64 ≤ base) (hhi : base + 64 * 52 < 2 ^ 64) :
    InterruptCode (inBlocks base (interruptAsm base)) where
  isr vector := base + 64 * vector
  jumpAt vector := base + 64 * vector + (stub (errCodeStub vector) vector).length
  entry k := base + 64 * k.block
  callAt k := base + 64 * k.block + k.prologue.length
  back k := base + 64 * k.block + k.prologue.length + 1
  iretAt k := base + 64 * k.block + (k.prologue.length + 1 + k.epilogue.length)
  handler k := k.block
  back_lt k := by
    have hlen := prologue_length_le k
    have hblock : k.block ≤ 51 := by cases k <;> decide
    omega
  stub_placed vector hvector := by
    have hlen := stub_length_le (errCodeStub vector) vector
    exact placed_inBlocks base [] _ [.jmp (base + 64 * (commonOf vector).block)] (if_pos hvector)
      (by rw [List.length_nil]; omega)
  jump vector hvector := by
    have hlen := stub_length_le (errCodeStub vector) vector
    refine ⟨base + 64 * vector + (stub (errCodeStub vector) vector).length + 1, ?_⟩
    rw [inBlocks_at base _ vector (by omega), interruptAsm, if_pos hvector,
      List.getElem?_append_right (Nat.le_refl _), Nat.sub_self]
    rfl
  prologue_placed k := by
    have hlen := prologue_length_le k
    exact placed_inBlocks base [] _ _ (interruptAsm_common base k) (by rw [List.length_nil]; omega)
  call_handler k := by
    have hlen := prologue_length_le k
    rw [inBlocks_at base _ k.block (by omega), interruptAsm_common, Common.asm,
      List.getElem?_append_right (Nat.le_refl _), Nat.sub_self]
    rfl
  handler_outside k := by
    have hblock : k.block ≤ 51 := by cases k <;> decide
    exact if_neg (by omega)
  epilogue_placed k := by
    have hlen := prologue_length_le k
    have hlen' := epilogue_length_le k
    have hsplit : interruptAsm base k.block =
        (k.prologue ++ [.call k.block]) ++ (k.epilogue ++ [.iretq]) := by
      rw [interruptAsm_common, Common.asm, List.append_assoc]
    have hplaced := placed_inBlocks base _ _ _ hsplit
      (by rw [List.length_append, List.length_singleton]; omega)
    rw [List.length_append, List.length_singleton, Nat.add_assoc (base + 64 * k.block)] at hplaced
    exact hplaced
  iret k := by
    have hlen := prologue_length_le k
    have hlen' := epilogue_length_le k
    have hsplit : interruptAsm base k.block =
        (k.prologue ++ [.call k.block] ++ k.epilogue) ++ [.iretq] := by
      rw [interruptAsm_common, Common.asm, List.append_assoc, List.append_assoc]
    have hend : (k.prologue ++ [Instr.call k.block] ++ k.epilogue).length =
        k.prologue.length + 1 + k.epilogue.length := by
      rw [List.length_append, List.length_append, List.length_singleton]
    refine ⟨base + 64 * k.block + (k.prologue.length + 1 + k.epilogue.length) + 1, ?_⟩
    rw [inBlocks_at base _ k.block (by omega), hsplit, ← hend,
      List.getElem?_append_right (Nat.le_refl _), Nat.sub_self]
    rfl

def interrupted : Cpu where
  regs r := if r = .rsp then 0x9000 else 7
  segs s := if s = .cs then 8 else 16
  rip := 0x1234
  rflags := 0x202
  mem _ := 0

theorem interrupted_interruptible : Interruptible interrupted where
  regs_lt r := by
    simp only [interrupted]
    split <;> decide
  segs_lt s := by
    simp only [interrupted]
    split <;> decide
  rip_lt := by decide
  rflags_lt := by decide
  cs_ne := by decide

/-- A page fault reaches its handler with its error code. -/
theorem frames_faithful_page_fault :
    FramesFaithful (assembledInterrupts 0x100000 (by decide) (by decide)) interrupted 14 2 0 :=
  (frames_faithful_iff (assembledInterrupts 0x100000 (by decide) (by decide)) interrupted_interruptible
    (by decide) (by decide) (by decide)).mpr (by decide)

/-- Code of ring 3, with alignment checks switched on. -/
def interruptedUser : Cpu :=
  { interrupted with segs := fun s => if s = .cs then 0x1B else 0x23, rflags := 0x40202 }

theorem interruptedUser_interruptible : Interruptible interruptedUser where
  regs_lt := interrupted_interruptible.regs_lt
  segs_lt s := by
    simp only [interruptedUser]
    split <;> decide
  rip_lt := by decide
  rflags_lt := by decide
  cs_ne := by decide

/-- An alignment check, whose error code is always zero, does not. -/
theorem frames_shifted_alignment_check :
    Interruptible interruptedUser ∧
      ¬ FramesFaithful (assembledInterrupts 0x100000 (by decide) (by decide)) interruptedUser 17 0 0x90000 := by
  refine ⟨interruptedUser_interruptible, ?_⟩
  intro h
  have hclass := h.classified interruptedUser_interruptible (by decide) (by decide) (by decide)
  exact absurd hclass (by decide)

end Kaviz.Entry
