import Kaviz.Drivers.Console
import Kaviz.Lib.Bytes

/-! # The system calls

`syscall_init` and `syscall_dispatch` of `kernel/syscall.c`, with the handlers. The
one that does more than answer is `sys_write`, which hands its buffer to
`console_write` as a string; the bytes that loop loads from the buffer and the ones
it sends to the console are recorded. Arguments that no handler reads are left out.
-/

namespace Kaviz.Entry

open Bytes Drivers

/-! ## The handlers -/

/-- A load from the buffer of the caller, or a character for the console. -/
inductive Event
  | load (a : Nat)
  | putchar (c : UInt8)
  deriving DecidableEq

structure Reply where
  events : List Event
  result : Nat

def output (es : List Event) : List UInt8 :=
  es.filterMap fun
    | .putchar c => some c
    | .load _ => none

def loads (es : List Event) : List Nat :=
  es.filterMap fun
    | .load a => some a
    | .putchar _ => none

def minusOne : Nat := 2 ^ 64 - 1

def message (text : String) : List Event := text.toList.map fun c => .putchar c.toUInt8

inductive Handler
  | sysExit | sysWrite | sysRead | sysOpen | sysClose | sysFork | sysExec | sysWait | sysSleep
  | sysGetpid | sysYield

def maxSyscalls : Nat := 128

/-- `syscall_handlers`; `none` is `NULL`. -/
abbrev HandlerTable := Nat → Option Handler

/-- `syscall_register`, which the sources declare and call but do not define. -/
abbrev Register := HandlerTable → Nat → Handler → HandlerTable

/-- It puts a handler into the table. -/
def Register.Stores (register : Register) : Prop :=
  ∀ table num h, num < maxSyscalls → register table num h = Function.update table num (some h)

def registrations : List (Nat × Handler) :=
  [(0, .sysExit), (1, .sysWrite), (2, .sysRead), (3, .sysOpen), (4, .sysClose), (5, .sysFork),
    (6, .sysExec), (7, .sysWait), (8, .sysSleep), (9, .sysGetpid), (10, .sysYield)]

def syscallInit (register : Register) : HandlerTable :=
  registrations.foldl (fun table p => register table p.1 p.2) fun _ => none

theorem syscallInit_eq {register : Register} (h : register.Stores) : syscallInit register =
    registrations.foldl (fun (table : HandlerTable) p => Function.update table p.1 (some p.2))
      fun _ => none := by
  have hvalid : ∀ p ∈ registrations, p.1 < maxSyscalls := by decide
  exact List.foldl_ext _ _ _ fun table p hp => h table p.1 p.2 (hvalid p hp)

section

variable (memory : Mem)

def element (data i : Nat) : Nat := (data + i) % 2 ^ 64

/-- The loop of `console_write` from `data[i]` on. `none` is a string that does not end within
`fuel` characters. -/
def consoleWrite (data : Nat) : Nat → Nat → Option (List Event)
  | 0, _ => none
  | fuel + 1, i =>
      let a := element data i
      if memory a ≠ 0 then
        (consoleWrite data fuel (i + 1)).map ([.load a, .load a, .putchar (memory a)] ++ ·)
      else some [.load a]

def sysWrite (fuel fd buf count : Nat) : Option Reply :=
  if fd ≠ 1 then some ⟨[], minusOne⟩
  else if buf = 0 then some ⟨[], minusOne⟩
  else (consoleWrite memory buf fuel 0).map fun es => ⟨es, count⟩

/-- A handler with its first three arguments; `current` is the `pid` of the current process.
`sys_exit` does not return. -/
def runHandler (current : Option Nat) (fuel : Nat) : Handler → Nat → Nat → Nat → Option Reply
  | .sysExit, _, _, _ => none
  | .sysWrite, fd, buf, count => sysWrite memory fuel fd buf count
  | .sysRead, _, _, _ => some ⟨[], minusOne⟩
  | .sysOpen, _, _, _ => some ⟨[], minusOne⟩
  | .sysClose, _, _, _ => some ⟨[], 0⟩
  | .sysFork, _, _, _ => some ⟨[], minusOne⟩
  | .sysExec, _, _, _ => some ⟨[], minusOne⟩
  | .sysWait, _, _, _ => some ⟨[], minusOne⟩
  | .sysSleep, _, _, _ => some ⟨message "System call: sleep(" ++ message ")\n", 0⟩
  | .sysGetpid, _, _, _ => some ⟨[], current.getD 0⟩
  | .sysYield, _, _, _ => some ⟨message "System call: yield()\n", 0⟩

def syscallDispatch (handlers : HandlerTable) (current : Option Nat)
    (fuel num arg1 arg2 arg3 : Nat) : Option Reply :=
  if num ≥ maxSyscalls then some ⟨message "ERROR: Invalid system call number\n", minusOne⟩
  else
    match handlers num with
    | none => some ⟨message "ERROR: No handler for system call\n", minusOne⟩
    | some handler => runHandler memory current fuel handler arg1 arg2 arg3

end

def syscallWrite : Nat := 1

/-! ## Strings in memory -/

section

variable {memory : Mem} {data : Nat}

/-- The string at `data[i]` ends behind `k` characters. -/
def EndsAt (memory : Mem) (data i k : Nat) : Prop :=
  memory (element data (i + k)) = 0 ∧ ∀ j, j < k → memory (element data (i + j)) ≠ 0

def bufferBytes (memory : Mem) (buf n : Nat) : List UInt8 :=
  (List.range n).map fun i => memory (element buf i)

def stringEvents (memory : Mem) (data i : Nat) : Nat → List Event
  | 0 => [.load (element data i)]
  | k + 1 => [.load (element data i), .load (element data i), .putchar (memory (element data i))] ++
      stringEvents memory data (i + 1) k

theorem endsAt_succ {i k : Nat} :
    EndsAt memory data i (k + 1) ↔ memory (element data i) ≠ 0 ∧ EndsAt memory data (i + 1) k := by
  have hshift : ∀ j, i + (j + 1) = i + 1 + j := fun j => by omega
  constructor
  · rintro ⟨hzero, hne⟩
    refine ⟨hne 0 (Nat.succ_pos k), by rw [← hshift]; exact hzero, fun j hj => ?_⟩
    rw [← hshift]
    exact hne (j + 1) (Nat.succ_lt_succ hj)
  · rintro ⟨hfirst, hzero, hne⟩
    refine ⟨by rw [hshift]; exact hzero, fun j hj => ?_⟩
    cases j with
    | zero => exact hfirst
    | succ j =>
        rw [hshift]
        exact hne j (Nat.lt_of_succ_lt_succ hj)

theorem consoleWrite_eq_some {fuel i : Nat} {es : List Event} :
    consoleWrite memory data fuel i = some es ↔
      ∃ k, k < fuel ∧ EndsAt memory data i k ∧ es = stringEvents memory data i k := by
  induction fuel generalizing i es with
  | zero =>
      refine iff_of_false (Option.some_ne_none _).symm ?_
      rintro ⟨k, hk, -⟩
      exact absurd hk (Nat.not_lt_zero k)
  | succ fuel ih =>
      rw [consoleWrite]
      by_cases hbyte : memory (element data i) ≠ 0
      · rw [if_pos hbyte, Option.map_eq_some_iff]
        constructor
        · rintro ⟨rest, hrest, rfl⟩
          obtain ⟨k, hk, hends, rfl⟩ := ih.mp hrest
          exact ⟨k + 1, Nat.succ_lt_succ hk, endsAt_succ.mpr ⟨hbyte, hends⟩, rfl⟩
        · rintro ⟨k, hk, hends, rfl⟩
          cases k with
          | zero => exact absurd hends.1 hbyte
          | succ k =>
              exact ⟨_, ih.mpr ⟨k, Nat.lt_of_succ_lt_succ hk, (endsAt_succ.mp hends).2, rfl⟩, rfl⟩
      · rw [if_neg hbyte]
        constructor
        · intro h
          cases h
          exact ⟨0, Nat.succ_pos fuel, ⟨not_not.mp hbyte, fun j hj => absurd hj (Nat.not_lt_zero j)⟩, rfl⟩
        · rintro ⟨k, hk, hends, rfl⟩
          cases k with
          | zero => rfl
          | succ k => exact absurd (endsAt_succ.mp hends).1 hbyte

theorem output_stringEvents (memory : Mem) (data i k : Nat) :
    output (stringEvents memory data i k) = (List.range' i k).map fun j => memory (element data j) := by
  induction k generalizing i with
  | zero => rfl
  | succ k ih =>
      rw [List.range'_succ, List.map_cons, ← ih]
      rfl

theorem terminator_mem_loads (memory : Mem) (data i k : Nat) :
    element data (i + k) ∈ loads (stringEvents memory data i k) := by
  induction k generalizing i with
  | zero => exact List.mem_singleton.mpr rfl
  | succ k ih =>
      have hrest := ih (i + 1)
      rw [Nat.add_assoc, Nat.add_comm 1 k] at hrest
      exact List.mem_cons_of_mem _ (List.mem_cons_of_mem _ hrest)

/-- On the screen this is `console_write` of the bytes of the string. -/
theorem stringEvents_screen {i k : Nat} (h : EndsAt memory data i k) (c : Console) :
    (output (stringEvents memory data i k)).foldl Console.putchar c =
      c.write ((List.range' i (k + 1)).map fun j => memory (element data j)) := by
  induction k generalizing i c with
  | zero =>
      have hzero : memory (element data i) = 0 := h.1
      rw [List.range'_succ, List.map_cons, Console.write, if_neg (not_not.mpr hzero)]
      rfl
  | succ k ih =>
      obtain ⟨hbyte, hrest⟩ := endsAt_succ.mp h
      rw [List.range'_succ, List.map_cons, Console.write, if_pos hbyte, ← ih hrest]
      rfl

end

/-! ## Writing -/

/-- The call returns, has sent the bytes of the buffer and answers with their number. -/
def WritesBytes (handlers : HandlerTable) (memory : Mem) (current : Option Nat) (buf count : Nat) : Prop :=
  ∃ fuel r, syscallDispatch memory handlers current fuel syscallWrite 1 buf count = some r ∧
    output r.events = bufferBytes memory buf count ∧ r.result = count

/-- And it has loaded none but these. -/
def WritesExactly (handlers : HandlerTable) (memory : Mem) (current : Option Nat) (buf count : Nat) : Prop :=
  ∃ fuel r, syscallDispatch memory handlers current fuel syscallWrite 1 buf count = some r ∧
    output r.events = bufferBytes memory buf count ∧ r.result = count ∧
    ∀ a ∈ loads r.events, ∃ i, i < count ∧ a = element buf i

section

variable {register : Register} {memory : Mem} {current : Option Nat} {buf count : Nat}

theorem syscallDispatch_write (hregister : register.Stores) (hbuf : buf ≠ 0) (fuel : Nat) :
    syscallDispatch memory (syscallInit register) current fuel syscallWrite 1 buf count =
      (consoleWrite memory buf fuel 0).map fun es => ⟨es, count⟩ := by
  rw [syscallInit_eq hregister]
  show sysWrite memory fuel 1 buf count = _
  rw [sysWrite, if_neg (fun h => h rfl), if_neg hbuf]

theorem bufferBytes_length (memory : Mem) (buf n : Nat) : (bufferBytes memory buf n).length = n := by
  rw [bufferBytes, List.length_map, List.length_range]

theorem output_eq_bytes_iff {k : Nat} :
    output (stringEvents memory buf 0 k) = bufferBytes memory buf count ↔ k = count := by
  rw [output_stringEvents, ← List.range_eq_range']
  constructor
  · intro h
    have hlength := congrArg List.length h
    rw [List.length_map, List.length_range, bufferBytes_length] at hlength
    exact hlength
  · rintro rfl
    rfl

theorem writesBytes_iff (hregister : register.Stores) (hbuf : buf ≠ 0) :
    WritesBytes (syscallInit register) memory current buf count ↔ EndsAt memory buf 0 count := by
  constructor
  · rintro ⟨fuel, r, hcall, hout, -⟩
    rw [syscallDispatch_write hregister hbuf] at hcall
    obtain ⟨es, hes, rfl⟩ := Option.map_eq_some_iff.mp hcall
    obtain ⟨k, -, hends, rfl⟩ := consoleWrite_eq_some.mp hes
    rw [← output_eq_bytes_iff.mp hout]
    exact hends
  · intro hends
    refine ⟨count + 1, ⟨stringEvents memory buf 0 count, count⟩, ?_, output_eq_bytes_iff.mpr rfl, rfl⟩
    rw [syscallDispatch_write hregister hbuf,
      consoleWrite_eq_some.mpr ⟨count, Nat.lt_succ_self count, hends, rfl⟩]
    rfl

/-- The terminator that ends the loop is not in the buffer. -/
theorem not_writesExactly (hregister : register.Stores) (hbuf : buf ≠ 0) (hcount : count < 2 ^ 64) :
    ¬ WritesExactly (syscallInit register) memory current buf count := by
  rintro ⟨fuel, r, hcall, hout, -, hloads⟩
  rw [syscallDispatch_write hregister hbuf] at hcall
  obtain ⟨es, hes, rfl⟩ := Option.map_eq_some_iff.mp hcall
  obtain ⟨k, -, -, rfl⟩ := consoleWrite_eq_some.mp hes
  obtain rfl := output_eq_bytes_iff.mp hout
  obtain ⟨i, hi, heq⟩ := hloads _ (terminator_mem_loads memory buf 0 k)
  unfold element at heq
  omega

/-- `sys_write` never stays inside the buffer it is given; it sends the right bytes if and only
if the buffer is followed by a zero and has none in it. -/
theorem sys_write_bytes (hregister : register.Stores) (hbuf : buf ≠ 0) (hcount : count < 2 ^ 64) :
    ¬ WritesExactly (syscallInit register) memory current buf count ∧
      (WritesBytes (syscallInit register) memory current buf count ↔
        memory (element buf count) = 0 ∧ ∀ i, i < count → memory (element buf i) ≠ 0) := by
  refine ⟨not_writesExactly hregister hbuf hcount, ?_⟩
  rw [writesBytes_iff hregister hbuf, EndsAt]
  simp only [Nat.zero_add]

end

def greeting : Mem := fun a => if a = 1 then 0x48 else if a = 2 then 0x69 else if a = 3 then 0x21 else 0

/-- A `syscall_register` that checks its number. -/
def checkedRegister : Register := fun table num h =>
  if num < maxSyscalls then Function.update table num (some h) else table

theorem checkedRegister_stores : checkedRegister.Stores := fun _ _ _ hnum => if_pos hnum

theorem sys_write_greeting : ¬ WritesExactly (syscallInit checkedRegister) greeting none 1 3 ∧
    WritesBytes (syscallInit checkedRegister) greeting none 1 3 := by
  obtain ⟨hnever, hbytes⟩ :=
    @sys_write_bytes _ greeting none 1 3 checkedRegister_stores (by decide) (by decide)
  exact ⟨hnever, hbytes.mpr (by decide)⟩

/-- Of two requested bytes three are sent, and two are answered for. -/
theorem sys_write_beyond : ¬ WritesExactly (syscallInit checkedRegister) greeting none 1 2 ∧
    ∃ r, syscallDispatch greeting (syscallInit checkedRegister) none 4 syscallWrite 1 1 2 = some r ∧
      output r.events = [0x48, 0x69, 0x21] ∧ r.result = 2 :=
  ⟨not_writesExactly checkedRegister_stores (by decide) (by decide), _, rfl, by decide, rfl⟩

end Kaviz.Entry
