import Mathlib.Algebra.Order.Ring.Nat
import Mathlib.Logic.Function.Basic
import Kaviz.Memory.State

/-! # The task scheduler

`kernel/scheduler.c`. The task array is a function of the index; every index the
code uses is below `MAX_TASKS`. Mapping the stack pages of a new task is left to
the memory manager. Choosing the next task and switching to it are separate:
`schedule` reports the task that `context_switch` is called for. A result of
`none` means that the search loop does not end.
-/

namespace Kaviz.Sched

open Memory

inductive TaskState
  | running
  | ready
  | blocked
  | sleeping
  | zombie
  deriving DecidableEq

structure Context where
  rsp : Nat
  rip : Nat
  rbp : Nat
  rax : Nat
  rbx : Nat
  rcx : Nat
  rdx : Nat
  rsi : Nat
  rdi : Nat
  r8 : Nat
  r9 : Nat
  r10 : Nat
  r11 : Nat
  r12 : Nat
  r13 : Nat
  r14 : Nat
  r15 : Nat
  cs : Nat
  ds : Nat
  es : Nat
  fs : Nat
  gs : Nat
  ss : Nat
  rflags : Nat
  deriving DecidableEq

structure Task where
  context : Context
  id : Nat
  state : TaskState
  priority : Nat
  ticks : Nat
  sleepTicks : Nat
  deriving DecidableEq

def maxTasks : Nat := 64

structure Scheduler where
  tasks : Nat → Task
  taskCount : Nat
  currentTask : Nat

/-- Top of the stack of a task: `0xFFFF800000000000 + (task_id + 1) * 0x10000`. -/
def stackTop (taskId : Nat) : Nat := kernelBase + (taskId + 1) * 0x10000

def initialContext (taskId entry : Nat) : Context where
  rsp := stackTop taskId
  rip := entry
  rbp := 0
  rax := 0
  rbx := 0
  rcx := 0
  rdx := 0
  rsi := 0
  rdi := 0
  r8 := 0
  r9 := 0
  r10 := 0
  r11 := 0
  r12 := 0
  r13 := 0
  r14 := 0
  r15 := 0
  cs := 0x08
  ds := 0x10
  es := 0x10
  fs := 0x10
  gs := 0x10
  ss := 0x10
  rflags := 0x202

namespace Scheduler

def init (s : Scheduler) : Scheduler where
  tasks i := if i < maxTasks then { s.tasks i with id := 0, state := .zombie } else s.tasks i
  taskCount := 0
  currentTask := 0

/-- `scheduler_add_task`, without the stack pages. -/
def addTask (s : Scheduler) (entry : Nat) : Scheduler :=
  if s.taskCount ≥ maxTasks then s
  else
    { s with
      tasks := Function.update s.tasks s.taskCount
        { context := initialContext s.taskCount entry
          id := s.taskCount
          state := .ready
          priority := 1
          ticks := 0
          sleepTicks := 0 }
      taskCount := s.taskCount + 1 }

theorem addTask_other {s : Scheduler} {entry i : Nat} (hi : i < s.taskCount) :
    (s.addTask entry).tasks i = s.tasks i := by
  unfold addTask
  split
  · rfl
  · exact Function.update_of_ne (Nat.ne_of_lt hi) _ _

theorem addTask_created {s : Scheduler} {entry i : Nat}
    (hi : i < (s.addTask entry).taskCount) (hle : s.taskCount ≤ i) :
    i = s.taskCount ∧ s.taskCount < maxTasks ∧
      ((s.addTask entry).tasks i).context = initialContext i entry := by
  unfold addTask at hi ⊢
  by_cases hfull : s.taskCount ≥ maxTasks
  · rw [if_pos hfull] at hi
    exact absurd hi (Nat.not_lt.mpr hle)
  · rw [if_neg hfull] at hi ⊢
    obtain rfl : i = s.taskCount := Nat.le_antisymm (Nat.le_of_lt_succ hi) hle
    refine ⟨rfl, Nat.not_le.mp hfull, ?_⟩
    dsimp only
    rw [Function.update_self]

theorem addTask_count {s : Scheduler} (hroom : s.taskCount < maxTasks) (entry : Nat) :
    (s.addTask entry).taskCount = s.taskCount + 1 := by
  unfold addTask
  rw [if_neg (Nat.not_le.mpr hroom)]

theorem addTask_context {s : Scheduler} (hroom : s.taskCount < maxTasks) (entry : Nat) :
    ((s.addTask entry).tasks s.taskCount).context = initialContext s.taskCount entry :=
  (addTask_created (by rw [addTask_count hroom]; omega) (Nat.le_refl _)).2.2

end Scheduler

/-- What the search does to a task it visits: a sleeping task gets one tick
closer to being ready. -/
def Task.visit (t : Task) : Task :=
  if t.state = .sleeping then
    let sleepTicks := if t.sleepTicks > 0 then t.sleepTicks - 1 else t.sleepTicks
    { t with sleepTicks := sleepTicks, state := if sleepTicks = 0 then .ready else t.state }
  else t

namespace Scheduler

def advance (s : Scheduler) : Scheduler :=
  let next := (s.currentTask + 1) % s.taskCount
  { s with currentTask := next, tasks := Function.update s.tasks next (s.tasks next).visit }

/-- `while (tasks[current_task].state != TASK_READY && current_task != old_task)`,
with a bound on the rounds left. -/
def search (old : Nat) : Nat → Scheduler → Option Scheduler
  | 0, _ => none
  | fuel + 1, s =>
      let s := s.advance
      if (s.tasks s.currentTask).state ≠ .ready ∧ s.currentTask ≠ old then search old fuel s
      else some s

/-- `scheduler_schedule`, with the task switched to, if any. The search comes
back to where it started after `task_count` rounds. -/
def schedule (s : Scheduler) : Option (Option Nat × Scheduler) :=
  if s.taskCount ≤ 1 then some (none, s)
  else do
    let s' ← search s.currentTask s.taskCount s
    return (if s'.currentTask ≠ s.currentTask then some s'.currentTask else none, s')

def yield (s : Scheduler) : Option (Option Nat × Scheduler) := s.schedule

def sleep (s : Scheduler) (ticks : Nat) : Option (Option Nat × Scheduler) :=
  if s.taskCount = 0 then some (none, s)
  else
    { s with
      tasks := Function.update s.tasks s.currentTask
        { s.tasks s.currentTask with state := .sleeping, sleepTicks := ticks } }.schedule

end Scheduler

end Kaviz.Sched
