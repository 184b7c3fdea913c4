import Kaviz.Lib.Bytes
import Mathlib.Algebra.Order.Ring.Nat
import Mathlib.Logic.Function.Basic

/-! # A fragment of 64-bit machine code

Registers, flat memory and the instructions that move words between them and the
stack. Code is a partial map from addresses to instructions, each with the
address behind it, so that encodings play no role. A step that would raise a
fault, or that finds no instruction, has no result; runs count steps. Straight
code is executed at once by folding the effects of its instructions.
-/

namespace Kaviz.X86

open Bytes

inductive Reg
  | rax | rbx | rcx | rdx | rsi | rdi | rbp | rsp | r8 | r9 | r10 | r11 | r12 | r13 | r14 | r15
  deriving DecidableEq

/-- Registers a function leaves to its caller as they were. -/
def calleeSaved : List Reg := [.rbx, .rbp, .r12, .r13, .r14, .r15]

inductive Seg
  | cs | ds | es | fs | gs | ss
  deriving DecidableEq

structure Cpu where
  regs : Reg → Nat
  segs : Seg → Nat
  rip : Nat
  rflags : Nat
  mem : Mem

inductive Instr
  /-- `mov dst, src` -/
  | mov (dst src : Reg)
  /-- `mov dst, [base + off]` -/
  | load (dst base : Reg) (off : Nat)
  /-- `mov [base + off], src` -/
  | store (base : Reg) (off : Nat) (src : Reg)
  /-- `mov dst, [base + off]`, the low 16 bits -/
  | loadSeg (dst : Seg) (base : Reg) (off : Nat)
  /-- `mov [base + off], src`, 16 bits -/
  | storeSeg (base : Reg) (off : Nat) (src : Seg)
  /-- `push qword [base + off]` -/
  | pushMem (base : Reg) (off : Nat)
  | pop (dst : Reg)
  | pushfq
  | popfq
  | call (target : Nat)
  | ret
  | retfq
  | push (src : Reg)
  /-- `push v`, a small constant -/
  | pushImm (v : Nat)
  /-- `add dst, v`; the arithmetic flags are left out -/
  | addImm (dst : Reg) (v : Nat)
  /-- `mov ax, v` -/
  | movAx (v : Nat)
  /-- `mov dst, ax` -/
  | movSeg (dst : Seg)
  | cli
  | jmp (target : Nat)
  | iretq
  /-- Leaves the fragment. -/
  | sysretq

namespace Cpu

def word (c : Cpu) (a : Nat) : Nat := readLE c.mem (a % 2 ^ 64) 8

def set (c : Cpu) (r : Reg) (v : Nat) : Cpu := { c with regs := Function.update c.regs r v }

def setSeg (c : Cpu) (s : Seg) (v : Nat) : Cpu := { c with segs := Function.update c.segs s v }

def write (c : Cpu) (a n v : Nat) : Cpu := { c with mem := writeLE c.mem (a % 2 ^ 64) n v }

def push (c : Cpu) (v : Nat) : Cpu :=
  let sp := (c.regs .rsp + 2 ^ 64 - 8) % 2 ^ 64
  (c.write sp 8 v).set .rsp sp

def drop (c : Cpu) (n : Nat) : Cpu := c.set .rsp ((c.regs .rsp + n) % 2 ^ 64)

end Cpu

/-- What `pushfq` stores: without RF and VM. -/
def pushedFlags (f : Nat) : Nat := f &&& 0xFCFFFF

/-- What `popfq` leaves in the flags: the bits it may change, and the one that is always set. -/
def poppedFlags (v : Nat) : Nat := v &&& 0x247FD5 ||| 2

/-- Effect of an instruction that continues at the next one. -/
def effect (c : Cpu) : Instr → Cpu
  | .mov dst src => c.set dst (c.regs src)
  | .load dst base off => c.set dst (c.word (c.regs base + off))
  | .store base off src => c.write (c.regs base + off) 8 (c.regs src)
  | .loadSeg dst base off => c.setSeg dst (c.word (c.regs base + off) % 2 ^ 16)
  | .storeSeg base off src => c.write (c.regs base + off) 2 (c.segs src)
  | .pushMem base off => c.push (c.word (c.regs base + off))
  | .pop dst => (c.drop 8).set dst (c.word (c.regs .rsp))
  | .pushfq => c.push (pushedFlags c.rflags)
  | .popfq => { c.drop 8 with rflags := poppedFlags (c.word (c.regs .rsp)) }
  | .push src => c.push (c.regs src)
  | .pushImm v => c.push v
  | .addImm dst v => c.set dst ((c.regs dst + v) % 2 ^ 64)
  | .movAx v => c.set .rax (c.regs .rax / 2 ^ 16 * 2 ^ 16 + v)
  | .movSeg dst => c.setSeg dst (c.regs .rax % 2 ^ 16)
  | .cli => { c with rflags := c.rflags &&& 0xFFFFFFFFFFFFFDFF }
  | _ => c

/-- A far return. A null selector and a return to an inner level fault; a return
to an outer level takes the stack pointer of that level from the stack too. -/
def farReturn (c : Cpu) : Option Cpu :=
  let sp := c.regs .rsp
  let sel := c.word (sp + 8) % 2 ^ 16
  let c' := { c.setSeg .cs sel with rip := c.word sp }
  if sel / 4 = 0 ∨ sel % 4 < c.segs .cs % 4 then none
  else if sel % 4 = c.segs .cs % 4 then some (c'.drop 16)
  else some ((c'.setSeg .ss (c.word (sp + 24) % 2 ^ 16)).set .rsp (c.word (sp + 16)))

/-- What `iretq` leaves in the flags. -/
def returnedFlags (v : Nat) : Nat := v &&& 0x3D7FD5 ||| 2

/-- Return from an interrupt: five words of the stack are taken. A null selector
and a return to an inner level fault. -/
def interruptReturn (c : Cpu) : Option Cpu :=
  let sp := c.regs .rsp
  let sel := c.word (sp + 8) % 2 ^ 16
  if sel / 4 = 0 ∨ sel % 4 < c.segs .cs % 4 then none
  else some { ((c.setSeg .cs sel).setSeg .ss (c.word (sp + 32) % 2 ^ 16)).set .rsp (c.word (sp + 24)) with
    rip := c.word sp
    rflags := returnedFlags (c.word (sp + 16)) }

/-- Execute an instruction; `next` is the address behind it. -/
def exec (c : Cpu) (next : Nat) : Instr → Option Cpu
  | .call target => some { c.push next with rip := target }
  | .ret => some { c.drop 8 with rip := c.word (c.regs .rsp) }
  | .retfq => farReturn c
  | .jmp target => some { c with rip := target }
  | .iretq => interruptReturn c
  | .sysretq => none
  | i => some { effect c i with rip := next }

abbrev Code := Nat → Option (Instr × Nat)

def step (code : Code) (c : Cpu) : Option Cpu :=
  (code c.rip).bind fun i => exec c i.2 i.1

def run (code : Code) : Nat → Cpu → Option Cpu
  | 0, c => some c
  | n + 1, c => (step code c).bind (run code n)

/-- The instructions `is` stand one behind the other from `a` up to `b`. -/
def Placed (code : Code) (a : Nat) : List Instr → Nat → Prop
  | [], b => a = b
  | i :: is, b => ∃ a', code a = some (i, a') ∧ Placed code a' is b

/-- The instruction continues at the next one. -/
def Instr.straight : Instr → Bool
  | .call _ | .ret | .retfq | .jmp _ | .iretq | .sysretq => false
  | _ => true

/-- Instructions from an address on, one to an address. -/
def assemble (base : Nat) (is : List Instr) : Code := fun a =>
  if base ≤ a then is[a - base]?.map fun i => (i, a + 1) else none

/-! ## Runs -/

variable {code : Code} {c c' c'' : Cpu} {n k : Nat}

theorem run_add (code : Code) (n k : Nat) (c : Cpu) :
    run code (n + k) c = (run code n c).bind (run code k) := by
  induction n generalizing c with
  | zero => rw [Nat.zero_add, run, Option.bind_some]
  | succ n ih =>
      rw [Nat.add_right_comm, run, run]
      cases step code c with
      | none => rfl
      | some c₁ => exact ih c₁

theorem run_one (code : Code) (c : Cpu) : run code 1 c = step code c := by
  rw [run]
  cases step code c with
  | none => rfl
  | some c₁ => rfl

/-- A run that comes to an address without an instruction goes through every state
another run reaches. -/
theorem run_to_end (hn : run code n c = some c'') (hend : code c''.rip = none)
    (hk : run code k c = some c') : ∃ j, n = k + j ∧ run code j c' = some c'' := by
  by_cases hle : k ≤ n
  · obtain ⟨j, rfl⟩ := Nat.exists_eq_add_of_le hle
    rw [run_add, hk, Option.bind_some] at hn
    exact ⟨j, rfl, hn⟩
  · obtain ⟨j, rfl⟩ : ∃ j, k = n + (j + 1) := ⟨k - n - 1, by omega⟩
    rw [run_add, hn, Option.bind_some, run, step, hend] at hk
    cases hk

theorem effect_rip (c : Cpu) (i : Instr) (r : Nat) :
    effect { c with rip := r } i = { effect c i with rip := r } := by
  cases i <;> rfl

theorem foldl_effect_rip (is : List Instr) (c : Cpu) (r : Nat) :
    is.foldl effect { c with rip := r } = { is.foldl effect c with rip := r } := by
  induction is generalizing c with
  | nil => rfl
  | cons i is ih => rw [List.foldl_cons, List.foldl_cons, effect_rip, ih]

theorem run_placed {a b : Nat} {is : List Instr} (hp : Placed code a is b)
    (hs : ∀ i ∈ is, i.straight) (hc : c.rip = a) :
    run code is.length c = some { is.foldl effect c with rip := b } := by
  induction is generalizing c a with
  | nil =>
      have hb : a = b := hp
      subst hb
      subst hc
      rfl
  | cons i is ih =>
      obtain ⟨a', hfetch, hrest⟩ := hp
      have hi := hs i List.mem_cons_self
      have hexec : exec c a' i = some { effect c i with rip := a' } := by
        cases i <;> first | rfl | cases hi
      rw [List.length_cons, run, step, hc, hfetch, Option.bind_some, hexec, Option.bind_some,
        ih hrest (fun j hj => hs j (List.mem_cons_of_mem _ hj)) rfl, List.foldl_cons]
      rw [foldl_effect_rip]

theorem assemble_at (base : Nat) (is : List Instr) (k : Nat) :
    assemble base is (base + k) = is[k]?.map fun i => (i, base + k + 1) := by
  rw [assemble, if_pos (Nat.le_add_right base k), Nat.add_sub_cancel_left]

theorem placed_assemble (base : Nat) (is js ks : List Instr) :
    Placed (assemble base (is ++ (js ++ ks))) (base + is.length) js
      (base + is.length + js.length) := by
  induction js generalizing is with
  | nil => exact rfl
  | cons j js ih =>
      have hfetch : (is ++ (j :: js ++ ks))[is.length]? = some j := by
        rw [List.getElem?_append_right (Nat.le_refl _), Nat.sub_self]
        rfl
      have hrest := ih (is ++ [j])
      refine ⟨base + is.length + 1, ?_, ?_⟩
      · rw [assemble_at, hfetch, Option.map_some]
      · rw [List.append_assoc, List.length_append] at hrest
        rw [List.length_cons, Nat.add_comm js.length, ← Nat.add_assoc]
        exact hrest

theorem placed_of_fetch {a : Nat} {is : List Instr}
    (h : ∀ k i, is[k]? = some i → code (a + k) = some (i, a + k + 1)) :
    Placed code a is (a + is.length) := by
  induction is generalizing a with
  | nil => exact rfl
  | cons i is ih =>
      refine ⟨a + 1, h 0 i rfl, ?_⟩
      have hrest : ∀ k j, is[k]? = some j → code (a + 1 + k) = some (j, a + 1 + k + 1) := by
        intro k j hj
        have hnext := h (k + 1) j hj
        rw [← Nat.add_assoc, Nat.add_right_comm] at hnext
        exact hnext
      have htail := ih hrest
      rw [Nat.add_right_comm, Nat.add_assoc] at htail
      exact htail

def inBlocks (base : Nat) (routine : Nat → List Instr) : Code := fun a =>
  if base ≤ a then (routine ((a - base) / 64))[(a - base) % 64]?.map fun i => (i, a + 1) else none

theorem inBlocks_at (base : Nat) (routine : Nat → List Instr) (b : Nat) {k : Nat} (hk : k < 64) :
    inBlocks base routine (base + 64 * b + k) = (routine b)[k]?.map fun i => (i, base + 64 * b + k + 1) := by
  have hdiv : (base + 64 * b + k - base) / 64 = b := by omega
  have hmod : (base + 64 * b + k - base) % 64 = k := by omega
  rw [inBlocks, if_pos (by omega), hdiv, hmod]

theorem placed_inBlocks (base : Nat) {routine : Nat → List Instr} {b : Nat} (is js ks : List Instr)
    (hroutine : routine b = is ++ (js ++ ks)) (hlen : is.length + js.length ≤ 64) :
    Placed (inBlocks base routine) (base + 64 * b + is.length) js
      (base + 64 * b + is.length + js.length) := by
  apply placed_of_fetch
  intro k i hi
  have hk : k < js.length := (List.getElem?_eq_some_iff.mp hi).choose
  rw [Nat.add_assoc (base + 64 * b), inBlocks_at base routine b (by omega), hroutine,
    List.getElem?_append_right (by omega), Nat.add_sub_cancel_left, List.getElem?_append_left hk, hi]
  rfl

/-! ## The stack -/

theorem push_eq {r : Nat} (hr : c.regs .rsp = r) (hlo : 8 ≤ r) (hhi : r < 2 ^ 64) (v : Nat) :
    c.push v = { c with
      regs := Function.update c.regs .rsp (r - 8)
      mem := writeLE c.mem (r - 8) 8 v } := by
  have hsp : (r + 2 ^ 64 - 8) % 2 ^ 64 = r - 8 := by omega
  have hmod : (r - 8) % 2 ^ 64 = r - 8 := Nat.mod_eq_of_lt (by omega)
  simp only [Cpu.push, Cpu.write, Cpu.set, hr, hsp, hmod]

theorem word_eq {a : Nat} (ha : a < 2 ^ 64) : c.word a = readLE c.mem a 8 := by
  rw [Cpu.word, Nat.mod_eq_of_lt ha]

end Kaviz.X86
