import Kaviz.Kernel.Calls
import Kaviz.Switch.Blocks

/-! # Control blocks as C lays them out

`restore_context` reads a control block at its own offsets, `struct task` and
`struct registers` put their fields elsewhere. A new task is restored with the
flags taken from `ss` and a code segment taken from `r15`; a new process keeps
the address of its context in `rdi`, which is not loaded at all.
-/

namespace Kaviz.Switch

open Bytes X86 Sched Kernel

/-! ## Layouts -/

/-- The fields of `struct task` that hold registers, with their offsets. -/
def taskLayout (x : Context) : List (Nat × Nat) :=
  [(0x00, x.rsp), (0x08, x.rip), (0x10, x.rbp), (0x18, x.rax), (0x20, x.rbx), (0x28, x.rcx),
    (0x30, x.rdx), (0x38, x.rsi), (0x40, x.rdi), (0x48, x.r8), (0x50, x.r9), (0x58, x.r10),
    (0x60, x.r11), (0x68, x.r12), (0x70, x.r13), (0x78, x.r14), (0x80, x.r15), (0x88, x.cs),
    (0x90, x.ds), (0x98, x.es), (0xA0, x.fs), (0xA8, x.gs), (0xB0, x.ss), (0xB8, x.rflags)]

/-- The fields of `struct registers`, with their offsets. -/
def registersLayout (x : Registers) : List (Nat × Nat) :=
  [(0x00, x.r15), (0x08, x.r14), (0x10, x.r13), (0x18, x.r12), (0x20, x.r11), (0x28, x.r10),
    (0x30, x.r9), (0x38, x.r8), (0x40, x.rdi), (0x48, x.rsi), (0x50, x.rbp), (0x58, x.rdx),
    (0x60, x.rcx), (0x68, x.rbx), (0x70, x.rax), (0x78, x.rip), (0x80, x.cs), (0x88, x.rflags),
    (0x90, x.rsp), (0x98, x.ss)]

def LaidOut (m : Mem) (t : Nat) (l : List (Nat × Nat)) : Prop := ∀ e ∈ l, field m t e.1 = e.2

def taskAddr (tasks i : Nat) : Nat := tasks + 0xD8 * i

/-- `&processes[pid].context`. -/
def contextAddr (processes pid : Nat) : Nat := processes + 0x108 * pid + 0x20

/-- What the C code has stored for a new task or process. -/
structure Start where
  rip : Nat
  cs : Nat
  rflags : Nat
  rsp : Nat

/-- The slot at `t` was filled, and `start` is what it should start with. -/
inductive Filled (m : Mem) : Nat → Start → Prop
  | task (s : Scheduler) (tasks entry : Nat) (room : s.taskCount < maxTasks)
      (bound : taskAddr tasks s.taskCount + 0xD8 ≤ 2 ^ 64)
      (laidOut : LaidOut m (taskAddr tasks s.taskCount)
        (taskLayout ((s.addTask entry).tasks s.taskCount).context)) :
      Filled m (taskAddr tasks s.taskCount)
        { rip := entry
          cs := ((s.addTask entry).tasks s.taskCount).context.cs
          rflags := ((s.addTask entry).tasks s.taskCount).context.rflags
          rsp := ((s.addTask entry).tasks s.taskCount).context.rsp }
  | process (p : Processes) (processes pid entry : Nat) (name : List UInt8)
      (slot : p.slot = some pid)
      (bound : contextAddr processes pid + 0xE8 ≤ 2 ^ 64)
      (laidOut : LaidOut m (contextAddr processes pid)
        (registersLayout ((p.create pid entry name).processes pid).context)) :
      Filled m (contextAddr processes pid)
        { rip := entry
          cs := ((p.create pid entry name).processes pid).context.cs
          rflags := ((p.create pid entry name).processes pid).context.rflags
          rsp := ((p.create pid entry name).processes pid).context.rsp }

/-- The processor starts with what was stored, and zero in all other registers. -/
structure Starts (start : Start) (d : Cpu) : Prop where
  rip : d.rip = start.rip
  cs : d.segs .cs = start.cs
  rflags : d.rflags = start.rflags
  rsp : d.regs .rsp = start.rsp
  zero : ∀ x, x ≠ .rsp → d.regs x = 0

/-! ## What `restore_context` takes from a block -/

section Restore

variable {code : Code} {c d : Cpu} {t : Nat}

theorem farReturn_keeps (h : farReturn c = some d) :
    d.rflags = c.rflags ∧ ∀ x, x ≠ .rsp → d.regs x = c.regs x := by
  unfold farReturn at h
  dsimp only at h
  split at h
  · cases h
  · split at h
    · cases h
      exact ⟨rfl, fun x hx => Function.update_of_ne hx _ _⟩
    · cases h
      exact ⟨rfl, fun x hx => Function.update_of_ne hx _ _⟩

theorem popfq_top (c : Cpu) {sp v : Nat} (hsp : sp < 2 ^ 64) (hv : v < 2 ^ 64) :
    (effect ((c.write sp 8 v).set .rsp sp) .popfq).rflags = poppedFlags v := by
  simp only [effect, Cpu.write, Cpu.set, Cpu.word, Cpu.drop, Function.update_self,
    Nat.mod_eq_of_lt hsp, readLE8_writeLE8_same _ _ hv]

theorem popfq_pushed (c : Cpu) {v : Nat} (hv : v < 2 ^ 64) :
    (effect (c.push v) .popfq).rflags = poppedFlags v :=
  popfq_top c (Nat.mod_lt _ (by decide)) hv

theorem pushMem_rflags (c : Cpu) (base : Reg) (off : Nat) :
    (effect c (.pushMem base off)).rflags = c.rflags := rfl

theorem pushMem_regs (c : Cpu) (base : Reg) (off : Nat) {x : Reg} (hx : x ≠ .rsp) :
    (effect c (.pushMem base off)).regs x = c.regs x := Function.update_of_ne hx _ _

theorem popfq_regs (c : Cpu) {x : Reg} (hx : x ≠ .rsp) :
    (effect c .popfq).regs x = c.regs x := Function.update_of_ne hx _ _

theorem restore_effect (c : Cpu) :
    (restoreContext.foldl effect c).rflags = poppedFlags (c.word (c.regs .rdi + 0xB0)) ∧
      (restoreContext.foldl effect c).regs .rdi = c.regs .rdi := by
  have hfold : restoreContext.foldl effect c =
      (restoreContext.drop 19).foldl effect ((restoreContext.take 19).foldl effect c) := by
    rw [← List.foldl_append, List.take_append_drop]
  have hmem : ((restoreContext.take 19).foldl effect c).mem = c.mem := rfl
  have hrdi : ((restoreContext.take 19).foldl effect c).regs .rdi = c.regs .rdi := rfl
  rw [hfold]
  generalize (restoreContext.take 19).foldl effect c = c₁ at hmem hrdi
  have htail : (restoreContext.drop 19).foldl effect c₁ = effect (effect (effect
      (effect c₁ (.pushMem .rdi 0xB0)) .popfq) (.pushMem .rdi 0x80)) (.pushMem .rdi 0xB8) := rfl
  have hword : c₁.word (c₁.regs .rdi + 0xB0) = c.word (c.regs .rdi + 0xB0) := by
    rw [Cpu.word, Cpu.word, hmem, hrdi]
  rw [htail]
  constructor
  · rw [pushMem_rflags, pushMem_rflags, ← hword]
    exact popfq_pushed c₁ (readLE8_lt _ _)
  · rw [pushMem_regs _ _ _ (by decide), pushMem_regs _ _ _ (by decide), popfq_regs _ (by decide),
      pushMem_regs _ _ _ (by decide), hrdi]

/-- After `restore_context` the flags are the word at `0xB0`, and `rdi` is still the
address of the block. -/
theorem restore_leaves (R : Routines code) (hrip : c.rip = R.restoreContext)
    (hrun : run code (restoreContext.length + 1) c = some d) :
    d.rflags = poppedFlags (c.word (c.regs .rdi + 0xB0)) ∧ d.regs .rdi = c.regs .rdi := by
  obtain ⟨after, hret⟩ := R.restore_ret
  obtain ⟨hflags, hrdi⟩ := restore_effect c
  rw [run_add, run_placed R.restore_placed restore_straight hrip, Option.bind_some, run_one, step,
    hret, Option.bind_some, exec] at hrun
  generalize restoreContext.foldl effect c = c₁ at hrun hflags hrdi
  obtain ⟨hkeep, hregs⟩ := farReturn_keeps hrun
  exact ⟨hkeep.trans hflags, (hregs .rdi (by decide)).trans hrdi⟩

/-- No new task and no new process starts with what was stored for it. -/
theorem restore_context_never_starts (R : Routines code) {start : Start}
    (hrip : c.rip = R.restoreContext) (h : Filled c.mem (c.regs .rdi) start) :
    ¬ ∃ d, run code (restoreContext.length + 1) c = some d ∧ Starts start d := by
  rintro ⟨d, hrun, hstarts⟩
  obtain ⟨hflags, hrdi⟩ := restore_leaves R hrip hrun
  generalize c.regs .rdi = t at h hflags hrdi
  cases h with
  | task s tasks entry room bound laidOut =>
      -- `restore_context` takes the flags from the place of `ss`.
      have hss := laidOut (0xB0, ((s.addTask entry).tasks s.taskCount).context.ss) (by simp [taskLayout])
      have hstored := hstarts.rflags
      dsimp only at hss hstored
      rw [Scheduler.addTask_context room] at hss hstored
      rw [word_eq (by omega)] at hflags
      have htaken : d.rflags = poppedFlags 0x10 := hflags.trans (congrArg poppedFlags hss)
      exact absurd (htaken.symm.trans hstored) (by decide : poppedFlags 0x10 ≠ 0x202)
  | process p processes pid entry name slot bound laidOut =>
      have hzero := hstarts.zero .rdi (by decide)
      rw [hrdi] at hzero
      unfold contextAddr at hzero
      omega

end Restore

/-! ### The first task -/

/-- The memory behind `tasks[0]` after `scheduler_add_task(0x1000)`. -/
def firstTaskMem : Mem :=
  storeAll (fun _ => 0) 0x200000 ((taskLayout (initialContext 0 0x1000)).map fun e => (e.1, 8, e.2))

def firstRestore : Cpu where
  regs x := if x = .rdi then 0x200000 else if x = .rsp then 0x300000 else 0
  segs x := if x = .cs then 0x08 else 0x10
  rip := 0x100020
  rflags := 0x202
  mem := firstTaskMem

def firstStart : Start where
  rip := 0x1000
  cs := 0x08
  rflags := 0x202
  rsp := stackTop 0

theorem firstTask_filled : Filled firstRestore.mem (firstRestore.regs .rdi) firstStart := by
  have hlaid : ∀ e ∈ taskLayout (initialContext 0 0x1000), field firstTaskMem 0x200000 e.1 = e.2 := by
    decide +kernel
  exact Filled.task ⟨fun _ => ⟨initialContext 0 0, 0, .zombie, 0, 0, 0⟩, 0, 0⟩ 0x200000 0x1000
    (by decide) (by decide) hlaid

theorem first_task_never_starts : Filled firstRestore.mem (firstRestore.regs .rdi) firstStart ∧
    ¬ ∃ d, run (assemble 0x100000 (contextSwitchAsm 0x100000)) (restoreContext.length + 1)
      firstRestore = some d ∧ Starts firstStart d := by
  refine ⟨firstTask_filled, ?_⟩
  rintro ⟨d, hrun, -⟩
  have hfault : (run (assemble 0x100000 (contextSwitchAsm 0x100000)) (restoreContext.length + 1)
      firstRestore).isNone = true := by decide +kernel
  rw [hrun] at hfault
  cases hfault

theorem restore_context_never_starts_first :
    ¬ ∃ d, run (assemble 0x100000 (contextSwitchAsm 0x100000)) (restoreContext.length + 1)
      firstRestore = some d ∧ Starts firstStart d :=
  restore_context_never_starts (assembled 0x100000 (by decide)) rfl firstTask_filled

end Kaviz.Switch
