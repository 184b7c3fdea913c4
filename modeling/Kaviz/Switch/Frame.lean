import Kaviz.Switch.Layout

/-! # What a switch leaves of a process

`process_switch` passes the context of a process, a `struct registers` of 160
bytes, for a control block, of which `save_context` fills 192. The rest of it
goes into the fields behind the context.
-/

namespace Kaviz.Switch

open Bytes X86 Kernel

/-! ## The process table -/

inductive ProcessField
  | pid | state | cr3 | userStack | kernelStack | context | entryPoint | heapStart | heapEnd | heapMax
  | name | parentPid | childCount
  deriving DecidableEq

namespace ProcessField

def offset : ProcessField → Nat
  | pid => 0x00 | state => 0x04 | cr3 => 0x08 | userStack => 0x10 | kernelStack => 0x18
  | context => 0x20 | entryPoint => 0xC0 | heapStart => 0xC8 | heapEnd => 0xD0 | heapMax => 0xD8
  | name => 0xE0 | parentPid => 0x100 | childCount => 0x104

def size : ProcessField → Nat
  | pid | state | parentPid | childCount => 4
  | context => 0xA0
  | name => 32
  | _ => 8

end ProcessField

def processAddr (processes i : Nat) : Nat := processes + 0x108 * i

def processField (m : Mem) (processes i : Nat) (f : ProcessField) : Nat :=
  readLE m (processAddr processes i + f.offset) f.size

section

variable {code : Code}

/-- `process_switch`, up to the first instruction of `context_switch`; `ret` is the
address behind its call. -/
def processSwitch (R : Routines code) (processes currentPid old new ret : Nat) (c : Cpu) : Cpu :=
  let c := c.write currentPid 4 (processField c.mem processes new .pid)
  let c := (c.set .rdi (contextAddr processes old)).set .rsi (contextAddr processes new)
  { c.push ret with rip := R.contextSwitch }

/-- The table, `current_pid` and the top of the stack are apart. -/
structure Placement (processes currentPid sp : Nat) : Prop where
  table : processes + 0x108 * maxProcesses ≤ 2 ^ 64
  pid : currentPid < 2 ^ 64
  pid_apart : Apart currentPid 4 processes (0x108 * maxProcesses)
  deep : 24 ≤ sp
  top : sp < 2 ^ 64
  stack_apart : Apart (sp - 24) 24 processes (0x108 * maxProcesses)

/-- Between two memories only the context of one process has changed. -/
structure FrameKept (processes old : Nat) (m m' : Mem) : Prop where
  fields : ∀ f, f ≠ .context → processField m' processes old f = processField m processes old f
  others : ∀ i, i < maxProcesses → i ≠ old → ∀ f,
    processField m' processes i f = processField m processes i f

/-- The fields behind the context hold what `save_context` is about to put there: `gs` and
`ss` at the low ends of two of them, the flags, and an address inside `context_switch`. -/
structure TailMatches (R : Routines code) (processes old : Nat) (c : Cpu) : Prop where
  entryPoint : processField c.mem processes old .entryPoint % 2 ^ 16 = c.segs .gs % 2 ^ 16
  heapStart : processField c.mem processes old .heapStart % 2 ^ 16 = c.segs .ss % 2 ^ 16
  heapEnd : processField c.mem processes old .heapEnd = pushedFlags c.rflags
  heapMax : processField c.mem processes old .heapMax = R.saved

variable {c : Cpu} {processes currentPid old new ret : Nat}

theorem ProcessField.inside (f : ProcessField) : f.offset + f.size ≤ 0x108 := by
  cases f <;> decide

/-- A field is the context, lies apart from a control block in its place, or is one of four. -/
theorem ProcessField.cases_tail (f : ProcessField) :
    f = .context ∨ f.offset + f.size ≤ 0x20 ∨ 0xE0 ≤ f.offset ∨ f = .entryPoint ∨ f = .heapStart ∨
      f = .heapEnd ∨ f = .heapMax := by
  cases f <;> decide

theorem processField_congr {m m' : Mem} {i : Nat} {f : ProcessField}
    (h : ∀ a, processAddr processes i + f.offset ≤ a →
      a < processAddr processes i + f.offset + f.size → m' a = m a) :
    processField m' processes i f = processField m processes i f :=
  readLE_congr h

theorem processSwitch_spec (R : Routines code) (old new ret : Nat)
    (h : Placement processes currentPid (c.regs .rsp)) :
    (processSwitch R processes currentPid old new ret c).rip = R.contextSwitch ∧
      (processSwitch R processes currentPid old new ret c).regs .rdi = contextAddr processes old ∧
      (processSwitch R processes currentPid old new ret c).regs .rsp = c.regs .rsp - 8 ∧
      (processSwitch R processes currentPid old new ret c).segs = c.segs ∧
      (processSwitch R processes currentPid old new ret c).rflags = c.rflags ∧
      ∀ a, processes ≤ a → a < processes + 0x108 * maxProcesses →
        (processSwitch R processes currentPid old new ret c).mem a = c.mem a := by
  have htop := h.top
  have hdeep := h.deep
  have hstack := h.stack_apart
  have hpid := h.pid_apart
  unfold Apart at hstack hpid
  obtain ⟨c₁, hcall, hsp, hdi, hsegs, hflags, hmem⟩ : ∃ c₁ : Cpu,
      processSwitch R processes currentPid old new ret c = { c₁.push ret with rip := R.contextSwitch } ∧
      c₁.regs .rsp = c.regs .rsp ∧ c₁.regs .rdi = contextAddr processes old ∧ c₁.segs = c.segs ∧
      c₁.rflags = c.rflags ∧
      c₁.mem = writeLE c.mem (currentPid % 2 ^ 64) 4 (processField c.mem processes new .pid) :=
    ⟨_, rfl, rfl, rfl, rfl, rfl, rfl⟩
  rw [hcall, push_eq hsp (by omega) htop]
  refine ⟨rfl, ?_, ?_, hsegs, hflags, ?_⟩
  · dsimp only
    rw [Function.update_of_ne (by decide), hdi]
  · dsimp only
    rw [Function.update_self]
  · intro a hlo hhi
    dsimp only
    rw [writeLE_outside _ _ (by omega), hmem, Nat.mod_eq_of_lt h.pid, writeLE_outside _ _ (by omega)]

/-- The words behind the context hold selectors, flags and a return address afterwards, and
nothing else of the table has changed. -/
theorem processSwitch_saves (R : Routines code) (new ret : Nat)
    (h : Placement processes currentPid (c.regs .rsp))
    (hold : old < maxProcesses) :
    ∃ d, run code 29 (processSwitch R processes currentPid old new ret c) = some d ∧ d.rip = R.saved ∧
      processField d.mem processes old .entryPoint = c.segs .gs % 2 ^ 16 +
        2 ^ 16 * (processField c.mem processes old .entryPoint / 2 ^ 16) ∧
      processField d.mem processes old .heapStart = c.segs .ss % 2 ^ 16 +
        2 ^ 16 * (processField c.mem processes old .heapStart / 2 ^ 16) ∧
      processField d.mem processes old .heapEnd = pushedFlags c.rflags ∧
      processField d.mem processes old .heapMax = R.saved ∧
      ∀ a, processes ≤ a → a < processes + 0x108 * maxProcesses →
        a < contextAddr processes old ∨ contextAddr processes old + blockSize ≤ a →
        d.mem a = c.mem a := by
  have hmax : maxProcesses = 64 := rfl
  have hsize : blockSize = 0xC0 := rfl
  have htable := h.table
  have hdeep := h.deep
  have htop := h.top
  have hstack := h.stack_apart
  have haddr : contextAddr processes old = processAddr processes old + 0x20 := rfl
  have hslot : processAddr processes old = processes + 0x108 * old := rfl
  unfold Apart at hstack
  obtain ⟨hrip, hdi, hsp, hsegs, hflags, hmem⟩ :=
    processSwitch_spec R old new ret h
  obtain ⟨d, hrun, hsaved, -, -, -, hmax', -, -, -, hend, hselectors, hframe⟩ :=
    switch_run R hrip hdi hsp (by omega) (by omega) (by omega) (by unfold Apart; omega)
  -- The upper bytes of a word with a selector at its low end.
  have hupper : ∀ off, off + 8 ≤ blockSize →
      readLE (processSwitch R processes currentPid old new ret c).mem
        (contextAddr processes old + off + 2) 6 =
      readLE c.mem (contextAddr processes old + off) 8 / 2 ^ 16 := by
    intro off hoff
    have hsplit : readLE c.mem (contextAddr processes old + off) 8 =
        readLE c.mem (contextAddr processes old + off) 2 +
          2 ^ 16 * readLE c.mem (contextAddr processes old + off + 2) 6 := readLE_add _ _ 2 6
    have hlow : readLE c.mem (contextAddr processes old + off) 2 < 2 ^ 16 := readLE_lt _ _ 2
    rw [readLE_congr fun a hlo hhi => hmem a (by omega) (by omega)]
    omega
  refine ⟨d, hrun, hsaved, ?_, ?_, ?_, ?_, ?_⟩
  · have hgs := hselectors.gs
    rw [hsegs, hupper 0xA0 (by decide)] at hgs
    exact hgs
  · have hss := hselectors.ss
    rw [hsegs, hupper 0xA8 (by decide)] at hss
    exact hss
  · rw [hflags] at hend
    exact hend
  · exact hmax'
  · intro a hlo hhi hout
    rw [hframe a hout (by omega)]
    exact hmem a hlo hhi

/-- The table is kept exactly when the words behind the context stay as they are. -/
theorem frameKept_iff (R : Routines code) {d : Cpu} (hold : old < maxProcesses)
    (hentry : processField d.mem processes old .entryPoint = c.segs .gs % 2 ^ 16 +
      2 ^ 16 * (processField c.mem processes old .entryPoint / 2 ^ 16))
    (hstart : processField d.mem processes old .heapStart = c.segs .ss % 2 ^ 16 +
      2 ^ 16 * (processField c.mem processes old .heapStart / 2 ^ 16))
    (hend : processField d.mem processes old .heapEnd = pushedFlags c.rflags)
    (hmax : processField d.mem processes old .heapMax = R.saved)
    (hout : ∀ a, processes ≤ a → a < processes + 0x108 * maxProcesses →
      a < contextAddr processes old ∨ contextAddr processes old + blockSize ≤ a → d.mem a = c.mem a) :
    FrameKept processes old c.mem d.mem ↔ TailMatches R processes old c := by
  have hlimit : maxProcesses = 64 := rfl
  have hsize : blockSize = 0xC0 := rfl
  have haddr : contextAddr processes old = processes + 0x108 * old + 0x20 := rfl
  constructor
  · intro h
    refine ⟨?_, ?_, ?_, ?_⟩
    · have hkept := h.fields .entryPoint (by decide)
      omega
    · have hkept := h.fields .heapStart (by decide)
      omega
    · rw [← h.fields .heapEnd (by decide), hend]
    · rw [← h.fields .heapMax (by decide), hmax]
  · intro h
    refine ⟨fun f hf => ?_, fun i hi hne f => ?_⟩
    · have hslot : processAddr processes old = processes + 0x108 * old := rfl
      have hinside := f.inside
      rcases f.cases_tail with hcontext | hfront | hbehind | rfl | rfl | rfl | rfl
      · exact absurd hcontext hf
      · exact processField_congr fun a hlo hhi => hout a (by omega) (by omega) (by omega)
      · exact processField_congr fun a hlo hhi => hout a (by omega) (by omega) (by omega)
      · have hlow := h.entryPoint
        omega
      · have hlow := h.heapStart
        omega
      · rw [hend, h.heapEnd]
      · rw [hmax, h.heapMax]
    · have hslot : processAddr processes i = processes + 0x108 * i := rfl
      have hinside := f.inside
      exact processField_congr fun a hlo hhi => hout a (by omega) (by omega) (by omega)

end

/-- When `process_switch` has saved the process it leaves, the table has changed in that
process's context only, exactly when the fields behind it held what was put there. -/
theorem process_switch_frame_iff {code : Code} (R : Routines code) (c : Cpu)
    (processes currentPid old new ret : Nat) (hplaced : Placement processes currentPid (c.regs .rsp))
    (hold : old < maxProcesses) :
    ∃ d, run code 29 (processSwitch R processes currentPid old new ret c) = some d ∧ d.rip = R.saved ∧
      (FrameKept processes old c.mem d.mem ↔ TailMatches R processes old c) := by
  obtain ⟨d, hrun, hrip, hentry, hstart, hend, hmax, hout⟩ :=
    processSwitch_saves R new ret hplaced hold
  exact ⟨d, hrun, hrip, frameKept_iff R hold hentry hstart hend hmax hout⟩

/-! ### Two processes -/

def switching (mem : Mem) : Cpu where
  regs x := if x = .rsp then 0x300000 else 0
  segs x := if x = .cs then 0x08 else 0x10
  rip := 0
  rflags := 0x202
  mem := mem

theorem switching_placed : Placement 0x200000 0x1F0000 0x300000 :=
  ⟨by decide, by decide, by unfold Apart; decide, by decide, by decide, by unfold Apart; decide⟩

/-- In a table of zeros the end of the heap becomes the flags. -/
theorem process_switch_overwrites :
    ∃ d, run (assemble 0x100000 (contextSwitchAsm 0x100000)) 29
        (processSwitch (assembled 0x100000 (by decide)) 0x200000 0x1F0000 0 1 0x108000
          (switching fun _ => 0)) = some d ∧
      ¬ FrameKept 0x200000 0 (switching fun _ => 0).mem d.mem := by
  obtain ⟨d, hrun, -, -, -, hend, -⟩ := processSwitch_saves (c := switching fun _ => 0)
    (assembled 0x100000 (by decide)) 1 0x108000 switching_placed (show 0 < maxProcesses by decide)
  refine ⟨d, hrun, fun h => ?_⟩
  have hkept := h.fields .heapEnd (by decide)
  rw [hend] at hkept
  revert hkept
  decide

def matchingTable : Mem := fun x =>
  if x = 0x2000C0 ∨ x = 0x2000C8 then 0x10 else if x = 0x2000D0 ∨ x = 0x2000D1 then 0x02
  else if x = 0x2000D8 then 0x01 else if x = 0x2000DA then 0x10 else 0

theorem process_switch_frame_matching :
    ∃ d, run (assemble 0x100000 (contextSwitchAsm 0x100000)) 29
        (processSwitch (assembled 0x100000 (by decide)) 0x200000 0x1F0000 0 1 0x108000
          (switching matchingTable)) = some d ∧
      FrameKept 0x200000 0 (switching matchingTable).mem d.mem := by
  obtain ⟨d, hrun, -, hiff⟩ := process_switch_frame_iff (assembled 0x100000 (by decide))
    (switching matchingTable) 0x200000 0x1F0000 0 1 0x108000 switching_placed (by decide)
  exact ⟨d, hrun, hiff.mpr ⟨by decide, by decide, by decide, by decide⟩⟩

end Kaviz.Switch
