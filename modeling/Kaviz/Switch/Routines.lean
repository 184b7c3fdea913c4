import Kaviz.Lib.X86

/-! # The context switch

The routines of `kernel/context_switch.asm`. A control block is the memory from
its address on, read and written at fixed offsets. `context_switch` saves the
caller into the first block and restores the second; the address `save_context`
stores is the one behind its own call, inside `context_switch`.
-/

namespace Kaviz.Switch

open Bytes X86

/-- `save_context`, up to its `ret`. -/
def saveContext : List Instr :=
  [.store .rdi 0x00 .rsp, .store .rdi 0x08 .r15, .store .rdi 0x10 .r14, .store .rdi 0x18 .r13,
    .store .rdi 0x20 .r12, .store .rdi 0x28 .r11, .store .rdi 0x30 .r10, .store .rdi 0x38 .r9,
    .store .rdi 0x40 .r8, .store .rdi 0x48 .rbp, .store .rdi 0x50 .rdi, .store .rdi 0x58 .rsi,
    .store .rdi 0x60 .rdx, .store .rdi 0x68 .rcx, .store .rdi 0x70 .rbx, .store .rdi 0x78 .rax,
    .storeSeg .rdi 0x80 .cs, .storeSeg .rdi 0x88 .ds, .storeSeg .rdi 0x90 .es,
    .storeSeg .rdi 0x98 .fs, .storeSeg .rdi 0xA0 .gs, .storeSeg .rdi 0xA8 .ss,
    .pushfq, .pop .rax, .store .rdi 0xB0 .rax,
    .load .rax .rsp 0, .store .rdi 0xB8 .rax]

/-- `restore_context`, up to its `retfq`. -/
def restoreContext : List Instr :=
  [.load .rsp .rdi 0x00, .load .r15 .rdi 0x08, .load .r14 .rdi 0x10, .load .r13 .rdi 0x18,
    .load .r12 .rdi 0x20, .load .r11 .rdi 0x28, .load .r10 .rdi 0x30, .load .r9 .rdi 0x38,
    .load .r8 .rdi 0x40, .load .rbp .rdi 0x48, .load .rsi .rdi 0x58, .load .rdx .rdi 0x60,
    .load .rcx .rdi 0x68, .load .rbx .rdi 0x70, .load .rax .rdi 0x78,
    .loadSeg .ds .rdi 0x88, .loadSeg .es .rdi 0x90, .loadSeg .fs .rdi 0x98, .loadSeg .gs .rdi 0xA0,
    .pushMem .rdi 0xB0, .popfq,
    .pushMem .rdi 0x80, .pushMem .rdi 0xB8]

structure Routines (code : Code) where
  contextSwitch : Nat
  saveContext : Nat
  restoreContext : Nat
  /-- The address behind `call save_context`. -/
  saved : Nat
  /-- The address of `call restore_context`. -/
  next : Nat
  /-- The address behind it. -/
  back : Nat
  saveRet : Nat
  restoreRet : Nat
  saved_lt : saved < 2 ^ 64
  switch_save : code contextSwitch = some (.call saveContext, saved)
  switch_mov : code saved = some (.mov .rdi .rsi, next)
  switch_restore : code next = some (.call restoreContext, back)
  switch_ret : ∃ a, code back = some (.ret, a)
  save_placed : Placed code saveContext Switch.saveContext saveRet
  save_ret : ∃ a, code saveRet = some (.ret, a)
  restore_placed : Placed code restoreContext Switch.restoreContext restoreRet
  restore_ret : ∃ a, code restoreRet = some (.retfq, a)

/-- The source file, its instructions one behind the other. -/
def contextSwitchAsm (base : Nat) : List Instr :=
  [.call (base + 4), .mov .rdi .rsi, .call (base + 32), .ret] ++
    (saveContext ++ [.ret] ++ restoreContext ++ [.retfq])

def assembled (base : Nat) (hbase : base + 1 < 2 ^ 64) :
    Routines (assemble base (contextSwitchAsm base)) where
  contextSwitch := base
  saveContext := base + 4
  restoreContext := base + 32
  saved := base + 1
  next := base + 2
  back := base + 3
  saveRet := base + 31
  restoreRet := base + 55
  saved_lt := hbase
  switch_save := assemble_at base _ 0
  switch_mov := assemble_at base _ 1
  switch_restore := assemble_at base _ 2
  switch_ret := ⟨_, assemble_at base _ 3⟩
  save_placed := placed_assemble base ((contextSwitchAsm base).take 4) Switch.saveContext
    ((contextSwitchAsm base).drop 31)
  save_ret := ⟨_, assemble_at base _ 31⟩
  restore_placed := placed_assemble base ((contextSwitchAsm base).take 32) Switch.restoreContext
    ((contextSwitchAsm base).drop 55)
  restore_ret := ⟨_, assemble_at base _ 55⟩

/-! ## Control blocks -/

def blockSize : Nat := 0xC0

def field (m : Mem) (t off : Nat) : Nat := readLE m (t + off) 8

/-- Where `restore_context` finds a register; it does not load `rdi`. -/
def slot : Reg → Option Nat
  | .rsp => some 0x00 | .r15 => some 0x08 | .r14 => some 0x10 | .r13 => some 0x18
  | .r12 => some 0x20 | .r11 => some 0x28 | .r10 => some 0x30 | .r9 => some 0x38
  | .r8 => some 0x40 | .rbp => some 0x48 | .rdi => none | .rsi => some 0x58
  | .rdx => some 0x60 | .rcx => some 0x68 | .rbx => some 0x70 | .rax => some 0x78

def Apart (a n b k : Nat) : Prop := a + n ≤ b ∨ b + k ≤ a

end Kaviz.Switch
