import Kaviz.Heap.Alloc
import Kaviz.Sched.Tasks

/-! # Tasks, processes and the pages behind them

The parts of the kernel that create address ranges: `kmalloc`, the stacks of
`scheduler_add_task` in `kernel/scheduler.c`, `process_create` and `process_exit`
of `kernel/process.c` and `enter_user_mode` of `kernel/user_mode.c`, on one
memory manager.
-/

namespace Kaviz.Kernel

open Memory Paging Heap Sched

variable {σ : Type} (M : Machine σ)

/-- The stack loops: take a frame and map it, whatever `map_page` answers. -/
def mapStack (f base : Nat) : Nat → Nat → MemState σ → MemState σ
  | _, 0, s => s
  | i, n + 1, s => mapStack f base (i + 1) n (s.mapFresh M ((base + 4096 * i) % 2 ^ 64) f).2

/-! ## Processes -/

inductive ProcessState
  | running
  | ready
  | blocked
  | terminated
  deriving DecidableEq

structure Registers where
  r15 : Nat
  r14 : Nat
  r13 : Nat
  r12 : Nat
  r11 : Nat
  r10 : Nat
  r9 : Nat
  r8 : Nat
  rdi : Nat
  rsi : Nat
  rbp : Nat
  rdx : Nat
  rcx : Nat
  rbx : Nat
  rax : Nat
  rip : Nat
  cs : Nat
  rflags : Nat
  rsp : Nat
  ss : Nat

structure Process where
  pid : Nat
  state : ProcessState
  userStack : Nat
  kernelStack : Nat
  context : Registers
  entryPoint : Nat
  /-- The characters in front of the terminator. -/
  name : List UInt8
  parentPid : Nat
  childCount : Nat

def maxProcesses : Nat := 64

structure Processes where
  processes : Nat → Process
  processCount : Nat
  currentPid : Nat

/-- Top of the kernel stack of a process: `0xFFFF800000000000 + (pid + 1) * 0x100000`. -/
def kernelStackTop (pid : Nat) : Nat := kernelBase + (pid + 1) * 0x100000

/-- Top of the user stack of a process: `0x100000000 + pid * 0x100000`. -/
def userStackTop (pid : Nat) : Nat := 0x100000000 + pid * 0x100000

def processContext (pid entry : Nat) : Registers where
  r15 := 0
  r14 := 0
  r13 := 0
  r12 := 0
  r11 := 0
  r10 := 0
  r9 := 0
  r8 := 0
  rdi := 0
  rsi := 0
  rbp := 0
  rdx := 0
  rcx := 0
  rbx := 0
  rax := 0
  rip := entry
  cs := 0x18 ||| 3
  rflags := 0x202
  rsp := userStackTop pid
  ss := 0x20 ||| 3

namespace Processes

def init (p : Processes) : Processes where
  processes i :=
    if i < maxProcesses then { p.processes i with pid := 0, state := .terminated }
    else p.processes i
  processCount := 0
  currentPid := 0

/-- The search for a slot; slot 0 is never used. -/
def freeSlot (p : Processes) : Option Nat :=
  (List.range' 1 (maxProcesses - 1)).find? fun i => (p.processes i).state = .terminated

def slot (p : Processes) : Option Nat := if p.processCount ≥ maxProcesses then none else p.freeSlot

def create (p : Processes) (pid entry : Nat) (name : List UInt8) : Processes :=
  let processes := Function.update p.processes pid
    { pid := pid
      state := .ready
      userStack := userStackTop pid
      kernelStack := kernelStackTop pid
      context := processContext pid entry
      entryPoint := entry
      name := (name.takeWhile (· ≠ 0)).take 31
      parentPid := p.currentPid
      childCount := 0 }
  { p with
    processes :=
      if p.currentPid ≠ 0 then
        Function.update processes p.currentPid { processes p.currentPid with
          childCount := ((processes p.currentPid).childCount + 1) % 2 ^ 32 }
      else processes
    processCount := (p.processCount + 1) % 2 ^ 32 }

def exit (p : Processes) (pid : Nat) : Processes :=
  if pid ≥ maxProcesses ∨ (p.processes pid).state = .terminated then p
  else
    { p with
      processes := Function.update p.processes pid { p.processes pid with state := .terminated }
      processCount := (p.processCount + 2 ^ 32 - 1) % 2 ^ 32 }

/-- The new process, also when it is its own parent. -/
theorem create_self {pid : Nat} (p : Processes) (entry : Nat) (name : List UInt8) :
    ((p.create pid entry name).processes pid).pid = pid ∧
      ((p.create pid entry name).processes pid).state = .ready ∧
      ((p.create pid entry name).processes pid).kernelStack = kernelStackTop pid ∧
      ((p.create pid entry name).processes pid).userStack = userStackTop pid := by
  unfold create
  by_cases hcurrent : p.currentPid = 0
  · simp [hcurrent]
  · by_cases hsame : pid = p.currentPid
    · subst hsame
      simp [hcurrent]
    · simp [hcurrent, hsame]

end Processes

def clearedProcesses : Processes :=
  ⟨fun _ => ⟨0, .running, 0, 0, processContext 0 0, 0, [], 0, 0⟩, 0, 0⟩

/-! ## Kernel calls -/

structure KernelState (σ : Type) where
  mem : MemState σ
  sched : Scheduler
  procs : Processes

inductive Call
  | kmalloc (size : Nat)
  | kfree (ptr : Nat)
  | addTask (entry : Nat)
  | processCreate (entry : Nat) (name : List UInt8)
  | processExit (pid : Nat)
  | enterUserMode

namespace KernelState

variable (k : KernelState σ)

/-- After `memory_init`, `scheduler_init` and `process_init`. -/
def boot (mach : σ) (s : Scheduler) (p : Processes) : KernelState σ where
  mem := MemState.initVmm mach
  sched := s.init
  procs := p.init

def addTask (entry : Nat) : KernelState σ :=
  if k.sched.taskCount ≥ maxTasks then k
  else
    { k with
      sched := k.sched.addTask entry
      mem := mapStack M 0x07 (stackTop k.sched.taskCount - 0x10000) 0 16 k.mem }

def processPages (s : MemState σ) (pid : Nat) : MemState σ :=
  mapStack M (0x07 ||| pageUser) (userStackTop pid - 8192) 0 2
    (mapStack M 0x07 (kernelStackTop pid - 8192) 0 2 s)

/-- `process_create`, with the pid it returns. -/
def processCreate (entry : Nat) (name : List UInt8) : Nat × KernelState σ :=
  match k.procs.slot with
  | none => (0, k)
  | some pid =>
      (pid, { k with mem := processPages M k.mem pid, procs := k.procs.create pid entry name })

/-- `enter_user_mode` up to the switch; the first frame it takes is never mapped. -/
def enterUserMode : KernelState σ :=
  { k with
    mem := ((k.mem.allocPhysicalPage.2).mapPages M (pagePresent ||| pageWritable ||| pageUser)
      0x100000000 0 2).2 }

/-- A call; `none` when the heap code does not return. -/
def step : Call → Option (KernelState σ)
  | .kmalloc size => (kmalloc M k.mem size).map fun r => { k with mem := r.2 }
  | .kfree ptr => (kfree M k.mem ptr).map fun s => { k with mem := s }
  | .addTask entry => some (k.addTask M entry)
  | .processCreate entry name => some (k.processCreate M entry name).2
  | .processExit pid => some { k with procs := k.procs.exit pid }
  | .enterUserMode => some (k.enterUserMode M)

end KernelState

end Kaviz.Kernel
