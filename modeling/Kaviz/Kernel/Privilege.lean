import Kaviz.Kernel.Creation
import Kaviz.Paging.Permissions

/-! # Kernel pages and the user bit

The stacks of tasks and processes in the upper half are mapped with `0x07`, which
contains `PAGE_USER`. The runs that never open a page of the upper half to user
mode are those in which no creation can map its kernel stack.
-/

namespace Kaviz.Kernel

open Memory Paging Heap Sched Traces

def KernelOnly (t : PageTables) : Prop :=
  ∀ v, kernelBase ≤ v → v < 2 ^ 64 → ∀ p f, t.translate (pageNumber v) = some (p, f) → ¬ HasUser f

def Refused (k : PagedKernel) : Call → Prop
  | .addTask _ =>
      k.sched.taskCount < maxTasks →
        ¬ Room k.mem.mach.tables (pageNumber (stackTop k.sched.taskCount - 0x10000))
  | .processCreate _ _ =>
      ∀ pid, k.procs.slot = some pid →
        ¬ Room k.mem.mach.tables (pageNumber (kernelStackTop pid - 8192))
  | _ => True

structure ClosedOk (s : PagedState) : Prop where
  paged : PagedOk s
  closed : KernelOnly s.mach.tables

def Harmless (v f : Nat) : Prop := f < 4096 ∧ (¬ HasUser (f ||| pagePresent) ∨ pageNumber v < 2 ^ 35)

theorem upper_page {v : Nat} (hlo : kernelBase ≤ v) (hhi : v < 2 ^ 64) : 2 ^ 35 ≤ pageNumber v := by
  unfold kernelBase at hlo
  unfold pageNumber
  omega

theorem closedOk_preserves : Preserves paged Harmless ClosedOk where
  store h hs := ⟨pagedOk_preserves.store h.paged hs, (store8_tables hs).1 ▸ h.closed⟩
  map {s v f} hP h := by
    refine ⟨pagedOk_preserves.map hP.1 h.paged, fun a hlo hhi p g htr => ?_⟩
    obtain ⟨-, hroom, hstarved⟩ := mapFresh_room (v := v) h.paged.wf h.paged.counter hP.1
    by_cases hr : Room s.mach.tables (pageNumber v)
    · rw [(hroom hr).2] at htr
      split at htr
      · exact h.closed a hlo hhi p g htr
      · unfold PageMap.update at htr
        split at htr
        next hsame =>
          have hg : f ||| pagePresent = g := congrArg Prod.snd (Option.some.inj htr)
          have hupper := upper_page hlo hhi
          rw [← hg]
          rcases hP.2 with hbit | hlow
          · exact hbit
          · omega
        next => exact h.closed a hlo hhi p g htr
    · rw [(hstarved hr).2] at htr
      exact h.closed a hlo hhi p g htr
  vars first last h := ⟨pagedOk_preserves.vars first last h.paged, h.closed⟩

/-- A kernel stack that finds room opens the upper half. -/
theorem mapStack_opens {s : PagedState} {base n : Nat} (h : PagedOk s) (hone : OneTable base n)
    (hn : 2 ≤ n) (hroom : Room s.mach.tables (pageNumber base)) :
    ∃ i p, i < n ∧ (mapStack paged 0x07 base 0 n s).mach.tables.translate (pageNumber base + i) =
      some (p, 0x07) := by
  obtain ⟨-, -, htr, -⟩ := mapStack_room (f := 0x07) hone (Nat.le_of_eq (Nat.zero_add n)) h.wf
    h.counter (by decide)
  obtain ⟨i, hi, hframe⟩ : ∃ i, i < 2 ∧ nextFrame s i ≠ 0 := by
    by_cases hzero : nextFrame s 0 = 0
    · refine ⟨1, by decide, ?_⟩
      unfold nextFrame at hzero ⊢
      omega
    · exact ⟨0, by decide, hzero⟩
  refine ⟨i, nextFrame s i, by omega, ?_⟩
  rw [htr hroom, Nat.add_zero, fillPages_at (by omega), if_pos hframe]
  rfl

theorem not_kernelOnly {t : PageTables} {base i n p : Nat} (hone : OneTable base n)
    (hbase : kernelBase ≤ base) (hi : i < n)
    (htr : t.translate (pageNumber base + i) = some (p, 0x07)) : ¬ KernelOnly t := by
  intro hclosed
  have hbound := hone.bound
  refine hclosed (base + 4096 * i) (by omega) (by omega) p 0x07 ?_ (by decide)
  rw [(hone.page hi).2.1]
  exact htr

theorem mapStack_refused {s : PagedState} {base n : Nat} (h : ClosedOk s) (hone : OneTable base n)
    (hroom : ¬ Room s.mach.tables (pageNumber base)) : ClosedOk (mapStack paged 0x07 base 0 n s) := by
  obtain ⟨hwf, hc, -, htr⟩ := mapStack_room (f := 0x07) hone (Nat.le_of_eq (Nat.zero_add n))
    h.paged.wf h.paged.counter (by decide)
  refine ⟨⟨hwf, hc⟩, ?_⟩
  unfold KernelOnly
  rw [htr hroom]
  exact h.closed

theorem taskStack_upper (i : Nat) : kernelBase ≤ stackTop i - 0x10000 := by
  unfold stackTop
  omega

theorem kernelStack_upper (pid : Nat) : kernelBase ≤ kernelStackTop pid - 8192 := by
  unfold kernelStackTop
  omega

section Calls

variable {k k' : PagedKernel}

theorem addTask_closed_iff (h : ClosedOk k.mem) (entry : Nat) :
    KernelOnly (k.addTask paged entry).mem.mach.tables ↔ Refused k (.addTask entry) := by
  unfold Refused KernelState.addTask
  by_cases hfull : k.sched.taskCount ≥ maxTasks
  · rw [if_pos hfull]
    exact iff_of_true h.closed fun hlt => absurd hlt (Nat.not_lt.mpr hfull)
  · have hcount := Nat.not_le.mp hfull
    have hone := taskStack_oneTable hcount
    rw [if_neg hfull]
    constructor
    · intro hclosed _ hroom
      obtain ⟨i, p, hi, htr⟩ := mapStack_opens h.paged hone (by decide) hroom
      exact not_kernelOnly hone (taskStack_upper _) hi htr hclosed
    · intro hrefused
      exact (mapStack_refused h hone (hrefused hcount)).closed

/-- The user stack of a process lies in the lower half. -/
theorem userStack_harmless {pid j : Nat} (hpid : pid < maxProcesses) (hj : j < 0 + 2) :
    Harmless ((userStackTop pid - 8192 + 4096 * j) % 2 ^ 64) (0x07 ||| pageUser) := by
  refine ⟨by decide, Or.inr ?_⟩
  unfold maxProcesses at hpid
  unfold userStackTop pageNumber
  omega

theorem processCreate_closed_iff (h : ClosedOk k.mem) (entry : Nat) (name : List UInt8) :
    KernelOnly (k.processCreate paged entry name).2.mem.mach.tables ↔
      Refused k (.processCreate entry name) := by
  unfold Refused KernelState.processCreate
  cases hslot : k.procs.slot with
  | none => exact iff_of_true h.closed fun pid hpid => nomatch hpid
  | some pid =>
      obtain ⟨hpos, hpid, -⟩ := slot_bounds hslot
      have hone := kernelStack_oneTable hpid
      obtain ⟨hwf, hc, -, -⟩ := mapStack_room (f := 0x07) hone (Nat.le_of_eq (Nat.zero_add 2))
        h.paged.wf h.paged.counter (by decide)
      constructor
      · intro hclosed pid' hpid' hroom
        obtain rfl := Option.some.inj hpid'
        obtain ⟨i, p, hi, htr⟩ := mapStack_opens h.paged hone (by decide) hroom
        refine not_kernelOnly (p := p) hone (kernelStack_upper _) hi ?_ hclosed
        -- The user stack does not touch the page.
        refine (mapStack_off (userStack_oneTable hpid) hwf hc (by decide) (Or.inr ?_)).trans htr
        unfold maxProcesses at hpid
        unfold userStackTop kernelStackTop kernelBase pageNumber
        omega
      · intro hrefused
        have hkernel := mapStack_refused h hone (hrefused pid rfl)
        exact (closedOk_preserves.mapStack (fun _ hj => userStack_harmless hpid hj) hkernel).closed

theorem heapFlags_harmless (v : Nat) : Harmless v heapFlags := ⟨by decide, Or.inl (by decide)⟩

theorem enterUserMode_harmless {j : Nat} (hj : j < 0 + 2) :
    Harmless ((0x100000000 + 4096 * j) % 2 ^ 64) (pagePresent ||| pageWritable ||| pageUser) := by
  refine ⟨by decide, Or.inr ?_⟩
  unfold pageNumber
  omega

theorem step_closed_iff {call : Call} (h : ClosedOk k.mem) (hs : k.step paged call = some k') :
    KernelOnly k'.mem.mach.tables ↔ Refused k call := by
  cases call with
  | kmalloc size =>
      obtain ⟨⟨r, s'⟩, hrun, rfl⟩ := Option.map_eq_some_iff.mp hs
      exact iff_of_true (closedOk_preserves.kmalloc heapFlags_harmless hrun h).closed trivial
  | kfree ptr =>
      obtain ⟨s', hrun, rfl⟩ := Option.map_eq_some_iff.mp hs
      exact iff_of_true (closedOk_preserves.kfree hrun h).closed trivial
  | addTask entry =>
      obtain rfl := Option.some.inj hs
      exact addTask_closed_iff h entry
  | processCreate entry name =>
      obtain rfl := Option.some.inj hs
      exact processCreate_closed_iff h entry name
  | processExit pid =>
      obtain rfl := Option.some.inj hs
      exact iff_of_true h.closed trivial
  | enterUserMode =>
      obtain rfl := Option.some.inj hs
      have halloc : ClosedOk k.mem.allocPhysicalPage.2 := ⟨h.paged.alloc, h.closed⟩
      exact iff_of_true
        (closedOk_preserves.mapPages (fun _ hj => enterUserMode_harmless hj) halloc).closed trivial

end Calls

/-- The upper half stays closed to user mode exactly in the runs in which no
creation finds room for its kernel stack. -/
theorem kernel_only_iff (mach : PhysState PageTables) (s : Scheduler) (p : Processes)
    (hwf : mach.tables.WellFormed) (hclosed : KernelOnly mach.tables)
    (ts : List (Step PagedKernel Call)) (k : PagedKernel)
    (hrun : Trace (KernelState.step paged) (KernelState.boot mach s p) ts k) :
    (∀ t ∈ ts, KernelOnly t.after.mem.mach.tables) ↔ ∀ t ∈ ts, Refused t.before t.op := by
  have hboot : ClosedOk (KernelState.boot mach s p).mem := ⟨boot_pagedOk hwf s p, hclosed⟩
  have hstep : ∀ {k : PagedKernel} {call : Call} {k' : PagedKernel}, ClosedOk k.mem →
      k.step paged call = some k' → (KernelOnly k'.mem.mach.tables ↔ Refused k call) :=
    fun hok hs => step_closed_iff hok hs
  have hkeep : ∀ {k : PagedKernel} {call : Call} {k' : PagedKernel}, ClosedOk k.mem →
      k.step paged call = some k' → Refused k call → ClosedOk k'.mem :=
    fun hok hs hrefused => ⟨step_pagedOk hok.paged hs, (step_closed_iff hok hs).mpr hrefused⟩
  exact Trace.forall_iff hrun hboot hstep hkeep

theorem bootMach_kernelOnly : KernelOnly bootMach.tables := by
  intro v _ _ p f htr
  rw [show bootMach.tables = bootTree from rfl, bootTree_translate] at htr
  cases htr

theorem bootMach_room (n : Nat) : Room bootMach.tables n :=
  Nat.le_trans (Radix.missing_le _ _ _) (show 3 ≤ bootMach.tables.freeTables by decide)

/-- The stack of the first task is open to user mode. -/
theorem first_task_opens : ∃ ts k, Trace (KernelState.step paged) booted ts k ∧
    ¬ ∀ t ∈ ts, KernelOnly t.after.mem.mach.tables := by
  have hstep : booted.step paged (.addTask 0x1000) = some (booted.addTask paged 0x1000) := rfl
  refine ⟨_, _, .cons hstep (.nil _), fun hall => ?_⟩
  have hok : ClosedOk booted.mem := ⟨boot_pagedOk bootMach_wellFormed _ _, bootMach_kernelOnly⟩
  have hafter : KernelOnly (booted.addTask paged 0x1000).mem.mach.tables :=
    hall ⟨booted, .addTask 0x1000, booted.addTask paged 0x1000⟩ List.mem_cons_self
  exact (addTask_closed_iff hok 0x1000).mp hafter (show 0 < maxTasks by decide) (bootMach_room _)

theorem kernel_only_iff_first : ∃ ts k, Trace (KernelState.step paged) booted ts k ∧
    ts.length = 1 ∧ ((∀ t ∈ ts, KernelOnly t.after.mem.mach.tables) ↔
      ∀ t ∈ ts, Refused t.before t.op) := by
  have hstep : booted.step paged (.addTask 0x1000) = some (booted.addTask paged 0x1000) := rfl
  have hrun := Trace.cons hstep (.nil _)
  exact ⟨_, _, hrun, rfl,
    kernel_only_iff bootMach _ _ bootMach_wellFormed bootMach_kernelOnly _ _ hrun⟩

end Kaviz.Kernel
