import Kaviz.Kernel.Stacks
import Kaviz.Sched.Rounds

/-! # A successful creation has its stacks

`process_create` returns a pid, and `scheduler_add_task` counts a task, whether
or not the stack pages could be mapped. The calls after which every stack page is
mapped are characterised by the state before the call.
-/

namespace Kaviz.Kernel

open Memory Paging Heap Sched Traces

abbrev PagedKernel := KernelState (PhysState PageTables)

def Writable (e : Option (Nat × Nat)) : Prop := ∃ p f, e = some (p, f) ∧ f / pageWritable % 2 = 1

/-- The page of every address from `lo` up to `hi` is as `G` says. -/
def RangeIs (G : Option (Nat × Nat) → Prop) (k : PagedKernel) (lo hi : Nat) : Prop :=
  ∀ v, lo ≤ v → v < hi → G (k.mem.mach.tables.translate (pageNumber v))

def Usable (t : Step PagedKernel Call) : Prop :=
  match t.op with
  | .addTask _ =>
      t.after.sched.taskCount = t.before.sched.taskCount + 1 →
        RangeIs (fun e => e.isSome) t.after
          ((t.after.sched.tasks t.before.sched.taskCount).context.rsp - 0x10000)
          (t.after.sched.tasks t.before.sched.taskCount).context.rsp
  | .processCreate entry name =>
      ∀ pid, (t.before.processCreate paged entry name).1 = pid → pid ≠ 0 →
        RangeIs Writable t.after ((t.after.procs.processes pid).kernelStack - 8192)
            (t.after.procs.processes pid).kernelStack ∧
          RangeIs Writable t.after ((t.after.procs.processes pid).userStack - 8192)
            (t.after.procs.processes pid).userStack
  | _ => True

/-- Each of `n` pages gets a frame that is not `NULL`, the `skip`-th from now on
first, or is good already. -/
def Backed (G : Option (Nat × Nat) → Prop) (k : PagedKernel) (base n skip : Nat) : Prop :=
  ∀ i, i < n → nextFrame k.mem (i + skip) ≠ 0 ∨ G (k.mem.mach.tables.translate (pageNumber base + i))

/-- The pool and the frame counter can supply the stacks of a creation. -/
def Supported (k : PagedKernel) : Call → Prop
  | .addTask _ =>
      k.sched.taskCount < maxTasks →
        Room k.mem.mach.tables (pageNumber (stackTop k.sched.taskCount - 0x10000)) ∧
          Backed (fun e => e.isSome) k (stackTop k.sched.taskCount - 0x10000) 16 0
  | .processCreate _ _ =>
      ∀ pid, k.procs.slot = some pid →
        k.mem.mach.tables.missingTables (pageNumber (kernelStackTop pid - 8192)) +
            k.mem.mach.tables.missingTables (pageNumber (userStackTop pid - 8192)) ≤
          k.mem.mach.tables.freeTables ∧
        Backed Writable k (kernelStackTop pid - 8192) 2 0 ∧
        Backed Writable k (userStackTop pid - 8192) 2 2
  | _ => True

theorem OneTable.range_iff {G : Option (Nat × Nat) → Prop} {k : PagedKernel} {base n : Nat}
    (h : OneTable base n) : RangeIs G k base (base + 4096 * n) ↔
      ∀ i, i < n → G (k.mem.mach.tables.translate (pageNumber base + i)) := by
  have hal := h.aligned
  constructor
  · intro hall i hi
    obtain ⟨-, hpage, -⟩ := h.page hi
    rw [← hpage]
    exact hall (base + 4096 * i) (by omega) (by omega)
  · intro hall v hlo hhi
    have hi : (v - base) / 4096 < n := by omega
    have hpage : pageNumber v = pageNumber (base + 4096 * ((v - base) / 4096)) := by
      unfold pageNumber
      omega
    rw [hpage, (h.page hi).2.1]
    exact hall _ hi

theorem writable_none : ¬ Writable none := by
  rintro ⟨p, f, h, -⟩
  cases h

theorem writable_new {f : Nat} (hf : (f ||| pagePresent) / pageWritable % 2 = 1) (p : Nat) :
    Writable (some (p, f ||| pagePresent)) := ⟨p, _, rfl, hf⟩

section Calls

variable {k k' : PagedKernel}

theorem addTask_usable_iff (h : PagedOk k.mem) (entry : Nat) :
    Usable ⟨k, .addTask entry, k.addTask paged entry⟩ ↔ Supported k (.addTask entry) := by
  unfold Usable Supported
  dsimp only
  unfold KernelState.addTask
  by_cases hfull : k.sched.taskCount ≥ maxTasks
  · rw [if_pos hfull]
    refine iff_of_true (fun hcount => ?_) (fun hlt => absurd hlt (Nat.not_lt.mpr hfull))
    omega
  · have hroom : k.sched.taskCount < maxTasks := Nat.not_le.mp hfull
    have hone := taskStack_oneTable hroom
    have hcount : (k.sched.addTask entry).taskCount = k.sched.taskCount + 1 := by
      rw [Scheduler.addTask, if_neg hfull]
    have hrsp : ((k.sched.addTask entry).tasks k.sched.taskCount).context.rsp =
        stackTop k.sched.taskCount := by
      rw [Scheduler.addTask, if_neg hfull]
      simp [initialContext]
    have htop : stackTop k.sched.taskCount = stackTop k.sched.taskCount - 0x10000 + 4096 * 16 := by
      unfold stackTop
      omega
    rw [if_neg hfull]
    dsimp only
    rw [hcount, hrsp]
    simp only [true_implies, hroom]
    nth_rewrite 3 [htop]
    rw [hone.range_iff]
    exact mapStack_good_iff (G := fun e => e.isSome = true) (f := 0x07) (by decide) (fun _ => rfl)
      (by decide) hone h.wf h.counter (by decide)

/-- Kernel stack, then user stack: the second gets what the first leaves. -/
theorem processPages_good_iff {s : PagedState} (h : PagedOk s) {pid : Nat}
    (hpid : pid < maxProcesses) :
    ((∀ i, i < 2 → Writable ((KernelState.processPages paged s pid).mach.tables.translate
        (pageNumber (kernelStackTop pid - 8192) + i))) ∧
      ∀ i, i < 2 → Writable ((KernelState.processPages paged s pid).mach.tables.translate
        (pageNumber (userStackTop pid - 8192) + i))) ↔
    s.mach.tables.missingTables (pageNumber (kernelStackTop pid - 8192)) +
        s.mach.tables.missingTables (pageNumber (userStackTop pid - 8192)) ≤
      s.mach.tables.freeTables ∧
    (∀ i, i < 2 → nextFrame s i ≠ 0 ∨ Writable (s.mach.tables.translate
      (pageNumber (kernelStackTop pid - 8192) + i))) ∧
    ∀ i, i < 2 → nextFrame s (i + 2) ≠ 0 ∨ Writable (s.mach.tables.translate
      (pageNumber (userStackTop pid - 8192) + i)) := by
  have hkone := kernelStack_oneTable hpid
  have huone := userStack_oneTable hpid
  have hkpage : pageNumber (kernelStackTop pid - 8192) = 2 ^ 35 + 256 * pid + 254 := by
    unfold maxProcesses at hpid
    unfold kernelStackTop kernelBase pageNumber
    omega
  have hupage : pageNumber (userStackTop pid - 8192) = 2 ^ 20 + 256 * pid - 2 := by
    unfold maxProcesses at hpid
    unfold userStackTop pageNumber
    omega
  have hbound : pid < 64 := hpid
  have hfirst := mapStack_good_iff (f := 0x07) writable_none (writable_new (by decide)) (by decide)
    hkone h.wf h.counter (by decide)
  obtain ⟨hwf₁, hc₁, -, -⟩ := mapStack_room (f := 0x07) hkone (Nat.le_of_eq (Nat.zero_add 2)) h.wf
    h.counter (by decide)
  have hsecond := mapStack_good_iff (f := 0x07 ||| pageUser) writable_none
    (writable_new (by decide)) (by decide) huone hwf₁ hc₁ (by decide)
  have hkeepKernel : ∀ i, i < 2 → (KernelState.processPages paged s pid).mach.tables.translate
      (pageNumber (kernelStackTop pid - 8192) + i) =
      (mapStack paged 0x07 (kernelStackTop pid - 8192) 0 2 s).mach.tables.translate
        (pageNumber (kernelStackTop pid - 8192) + i) := fun i hi =>
    mapStack_off huone hwf₁ hc₁ (by decide) (by omega)
  have hkeepUser : ∀ i, i < 2 →
      (mapStack paged 0x07 (kernelStackTop pid - 8192) 0 2 s).mach.tables.translate
        (pageNumber (userStackTop pid - 8192) + i) =
      s.mach.tables.translate (pageNumber (userStackTop pid - 8192) + i) := fun i hi =>
    mapStack_off hkone h.wf h.counter (by decide) (by omega)
  have hkernel : (∀ i, i < 2 → Writable ((KernelState.processPages paged s pid).mach.tables.translate
      (pageNumber (kernelStackTop pid - 8192) + i))) ↔
      Room s.mach.tables (pageNumber (kernelStackTop pid - 8192)) ∧
        ∀ i, i < 2 → nextFrame s i ≠ 0 ∨ Writable (s.mach.tables.translate
          (pageNumber (kernelStackTop pid - 8192) + i)) := by
    rw [← hfirst]
    refine forall_congr' fun i => forall_congr' fun hi => ?_
    rw [hkeepKernel i hi]
  have huser : (∀ i, i < 2 → Writable ((KernelState.processPages paged s pid).mach.tables.translate
      (pageNumber (userStackTop pid - 8192) + i))) ↔
      Room (mapStack paged 0x07 (kernelStackTop pid - 8192) 0 2 s).mach.tables
          (pageNumber (userStackTop pid - 8192)) ∧
        ∀ i, i < 2 → nextFrame s (i + 2) ≠ 0 ∨ Writable (s.mach.tables.translate
          (pageNumber (userStackTop pid - 8192) + i)) := by
    refine hsecond.trans (and_congr_right fun _ => forall_congr' fun i => forall_congr' fun hi => ?_)
    rw [nextFrame_mapStack h.counter, hkeepUser i hi]
  have hleft : Room s.mach.tables (pageNumber (kernelStackTop pid - 8192)) →
      (Room (mapStack paged 0x07 (kernelStackTop pid - 8192) 0 2 s).mach.tables
          (pageNumber (userStackTop pid - 8192)) ↔
        s.mach.tables.missingTables (pageNumber (kernelStackTop pid - 8192)) +
          s.mach.tables.missingTables (pageNumber (userStackTop pid - 8192)) ≤
        s.mach.tables.freeTables) := by
    intro hroom
    rcases mapStack_supplied (f := 0x07) hkone (Nat.le_of_eq (Nat.zero_add 2)) h.wf h.counter
      (by decide) hroom with hsup | ⟨hnull, -⟩
    · have hfree := hsup.free
      have hother := hsup.others (pageNumber (userStackTop pid - 8192)) (by omega)
      unfold Room
      omega
    · -- Two frames in a row cannot both be `NULL`.
      have hzero := hnull 0 (by decide)
      have hone := hnull 1 (by decide)
      unfold nextFrame at hzero hone
      omega
  rw [hkernel, huser]
  constructor
  · rintro ⟨⟨hroom, hbacked⟩, hmore, hbacked'⟩
    exact ⟨(hleft hroom).mp hmore, hbacked, hbacked'⟩
  · rintro ⟨hsum, hbacked, hbacked'⟩
    have hroom : Room s.mach.tables (pageNumber (kernelStackTop pid - 8192)) :=
      Nat.le_trans (Nat.le_add_right _ _) hsum
    exact ⟨⟨hroom, hbacked⟩, (hleft hroom).mpr hsum, hbacked'⟩

theorem processCreate_usable_iff (h : PagedOk k.mem) (entry : Nat) (name : List UInt8) :
    Usable ⟨k, .processCreate entry name, (k.processCreate paged entry name).2⟩ ↔
      Supported k (.processCreate entry name) := by
  unfold Usable Supported
  dsimp only
  unfold KernelState.processCreate
  cases hslot : k.procs.slot with
  | none => simp
  | some pid =>
      obtain ⟨hpos, hpid, -⟩ := slot_bounds hslot
      obtain ⟨-, -, hkernel, huser⟩ := @Processes.create_self pid k.procs entry name
      have hktop : kernelStackTop pid = kernelStackTop pid - 8192 + 4096 * 2 := by
        unfold kernelStackTop
        omega
      have hutop : userStackTop pid = userStackTop pid - 8192 + 4096 * 2 := by
        unfold userStackTop
        omega
      have hgood := processPages_good_iff h hpid
      constructor
      · intro hall pid' hpid'
        obtain rfl := Option.some.inj hpid'
        have hboth := hall pid rfl (by omega)
        dsimp only at hboth
        rw [hkernel, huser] at hboth
        nth_rewrite 2 [hktop] at hboth
        nth_rewrite 2 [hutop] at hboth
        rw [(kernelStack_oneTable hpid).range_iff, (userStack_oneTable hpid).range_iff] at hboth
        exact hgood.mp hboth
      · rintro hall pid' rfl -
        dsimp only
        have hboth := hgood.mpr (hall pid rfl)
        rw [hkernel, huser]
        nth_rewrite 2 [hktop]
        nth_rewrite 2 [hutop]
        rw [(kernelStack_oneTable hpid).range_iff, (userStack_oneTable hpid).range_iff]
        exact hboth

theorem step_usable_iff {call : Call} (h : PagedOk k.mem) (hs : k.step paged call = some k') :
    Usable ⟨k, call, k'⟩ ↔ Supported k call := by
  cases call with
  | addTask entry =>
      obtain rfl := Option.some.inj hs
      exact addTask_usable_iff h entry
  | processCreate entry name =>
      obtain rfl := Option.some.inj hs
      exact processCreate_usable_iff h entry name
  | kmalloc size => exact Iff.rfl
  | kfree ptr => exact Iff.rfl
  | processExit pid => exact Iff.rfl
  | enterUserMode => exact Iff.rfl

end Calls

theorem boot_pagedOk {mach : PhysState PageTables} (hwf : mach.tables.WellFormed) (s : Scheduler)
    (p : Processes) : PagedOk (KernelState.boot mach s p).mem :=
  ⟨hwf, show 0x200000 % 4096 = 0 by decide, show 0x200000 < 2 ^ 64 by decide⟩

/-- In every run the creations have all their stack pages exactly when each finds
the tables and frames for them. -/
theorem creations_usable_iff (mach : PhysState PageTables) (s : Scheduler) (p : Processes)
    (hwf : mach.tables.WellFormed) (ts : List (Step PagedKernel Call)) (k : PagedKernel)
    (hrun : Trace (KernelState.step paged) (KernelState.boot mach s p) ts k) :
    (∀ t ∈ ts, Usable t) ↔ ∀ t ∈ ts, Supported t.before t.op := by
  refine forall_congr' fun t => forall_congr' fun ht => ?_
  obtain ⟨hok, hstep⟩ := hrun.inv_of_mem (boot_pagedOk hwf s p) (fun h hs => step_pagedOk h hs) ht
  exact step_usable_iff hok hstep

/-! ## Running out of tables -/

structure Filled (j : Nat) (p : Processes) : Prop where
  count : p.processCount = j
  current : p.currentPid = 0
  state : ∀ i, 0 < i → i < maxProcesses → ((p.processes i).state = .terminated ↔ j < i)

theorem init_filled (p : Processes) : Filled 0 p.init := by
  refine ⟨rfl, rfl, fun i hpos hi => ?_⟩
  simp [Processes.init, hi, hpos]

theorem Filled.slot {j : Nat} {p : Processes} (h : Filled j p) (hj : j + 1 < maxProcesses) :
    p.slot = some (j + 1) := by
  have hroom : ¬ p.processCount ≥ maxProcesses := by
    rw [h.count]
    omega
  unfold Processes.slot
  rw [if_neg hroom, Processes.freeSlot, List.find?_range'_eq_some]
  refine ⟨?_, ?_, fun i hlo hhi => ?_⟩
  · simpa using (h.state (j + 1) (by omega) hj).mpr (by omega)
  · rw [List.mem_range'_1]
    unfold maxProcesses at hj ⊢
    omega
  · have hused := h.state i (by omega) (by omega)
    simp only [Bool.not_eq_true', decide_eq_false_iff_not, hused]
    omega

theorem Filled.create {j : Nat} {p : Processes} (h : Filled j p) (hj : j + 1 < maxProcesses)
    (entry : Nat) (name : List UInt8) : Filled (j + 1) (p.create (j + 1) entry name) := by
  have hcount := h.count
  have hcurrent := h.current
  unfold maxProcesses at hj
  unfold Processes.create
  refine ⟨?_, hcurrent, fun i hpos hi => ?_⟩
  · dsimp only
    omega
  · have hstate := h.state i hpos hi
    simp only [hcurrent, ne_eq, not_true_eq_false, if_false, Function.update_apply]
    split
    next hsame => simp [hsame]
    next hother =>
      rw [hstate]
      omega

structure PoolOk (s : PagedState) : Prop where
  paged : PagedOk s
  pool : s.mach.tables.FromPool UpperHalf

theorem poolOk_preserves : Preserves paged (fun _ f => f < 4096) PoolOk where
  store h hs := ⟨pagedOk_preserves.store h.paged hs, (store8_tables hs).1 ▸ h.pool⟩
  map hf h := by
    refine ⟨pagedOk_preserves.map hf h.paged, ?_⟩
    rw [mapFresh_tables]
    split
    · exact h.pool
    · rw [h.paged.counter.frame]
      exact h.pool.mapPage h.paged.wf (Nat.mod_lt _ (by decide)) hf
  vars first last h := ⟨pagedOk_preserves.vars first last h.paged, h.pool⟩

structure MappedOk (n : Nat) (s : PagedState) : Prop where
  paged : PagedOk s
  mapped : (s.mach.tables.translate n).isSome

theorem mappedOk_preserves (n : Nat) : Preserves paged (fun _ f => f < 4096) (MappedOk n) where
  store h hs := ⟨pagedOk_preserves.store h.paged hs, (store8_tables hs).1 ▸ h.mapped⟩
  map {s v f} hf h := by
    refine ⟨pagedOk_preserves.map hf h.paged, ?_⟩
    obtain ⟨-, hroom, hstarved⟩ := mapFresh_room (v := v) h.paged.wf h.paged.counter hf
    by_cases hr : Room s.mach.tables (pageNumber v)
    · rw [(hroom hr).2]
      split
      · exact h.mapped
      · unfold PageMap.update
        split
        · rfl
        · exact h.mapped
    · rw [(hstarved hr).2]
      exact h.mapped
  vars first last h := ⟨pagedOk_preserves.vars first last h.paged, h.mapped⟩

theorem stays_mapped {n : Nat} {k k' : PagedKernel} {ts : List (Step PagedKernel Call)}
    (hrun : Trace (KernelState.step paged) k ts k') (h : MappedOk n k.mem) : MappedOk n k'.mem :=
  hrun.inv (show (fun k : PagedKernel => MappedOk n k.mem) k from h) fun hk hs =>
    (mappedOk_preserves n).step (fun _ _ hf => hf) (fun h => ⟨h.paged.alloc, h.mapped⟩) hs hk

/-- Usable creations leave the kernel stacks of all their processes mapped. -/
theorem creations_mapped {k k' : PagedKernel} {ts : List (Step PagedKernel Call)} {j : Nat}
    {entry : Nat} {name : List UInt8} (hrun : Trace (KernelState.step paged) k ts k')
    (hops : ∀ t ∈ ts, t.op = .processCreate entry name) (husable : ∀ t ∈ ts, Usable t)
    (hok : PagedOk k.mem) (hfilled : Filled j k.procs) (hj : j + ts.length < maxProcesses)
    {pid : Nat} (hlo : j < pid) (hhi : pid ≤ j + ts.length) :
    (k'.mem.mach.tables.translate (pageNumber (kernelStackTop pid - 8192))).isSome := by
  induction hrun generalizing j with
  | nil =>
      rw [List.length_nil] at hhi
      omega
  | @cons k k₁ k' call ts head tail ih =>
      rw [List.length_cons] at hj hhi
      rw [List.forall_mem_cons] at hops husable
      obtain ⟨hop, hops⟩ := hops
      dsimp only at hop
      subst hop
      have hslot := hfilled.slot (by omega)
      have hok₁ := step_pagedOk hok head
      have hk₁ : (k.processCreate paged entry name).2 = k₁ := Option.some.inj head
      have hprocs : k₁.procs = k.procs.create (j + 1) entry name := by
        rw [← hk₁, KernelState.processCreate, hslot]
      by_cases hpid : pid = j + 1
      · subst hpid
        have hstack := (@Processes.create_self (j + 1) k.procs entry name).2.2.1
        have hpage := (husable.1 (j + 1) (by simp [KernelState.processCreate, hslot]) (by omega)).1
        dsimp only at hpage
        rw [hprocs, hstack] at hpage
        have hwritable := hpage (kernelStackTop (j + 1) - 8192) (Nat.le_refl _) (by
          unfold kernelStackTop
          omega)
        refine (stays_mapped tail ⟨hok₁, ?_⟩).mapped
        obtain ⟨p, f, htr, -⟩ := hwritable
        rw [htr]
        rfl
      · refine ih (j := j + 1) hops husable.2 hok₁ ?_ (by omega) (by omega) (by omega)
        rw [hprocs]
        exact hfilled.create (by omega) entry name

theorem poolOk_of_run {k k' : PagedKernel} {ts : List (Step PagedKernel Call)}
    (hrun : Trace (KernelState.step paged) k ts k') (h : PoolOk k.mem) : PoolOk k'.mem :=
  hrun.inv (show (fun k : PagedKernel => PoolOk k.mem) k from h) fun hk hs =>
    poolOk_preserves.step (fun _ _ hf => hf) (fun h => ⟨h.paged.alloc, h.pool⟩) hs hk

/-- Sixteen tables do not carry the kernel stacks of 32 processes. -/
theorem creations_not_usable {mach : PhysState PageTables} {s : Scheduler} {p : Processes}
    (hwf : mach.tables.WellFormed) (hpool : mach.tables.FromPool UpperHalf)
    {ts : List (Step PagedKernel Call)} {k : PagedKernel} {entry : Nat} {name : List UInt8}
    (hrun : Trace (KernelState.step paged) (KernelState.boot mach s p) ts k)
    (hlen : ts.length = 32) (hops : ∀ t ∈ ts, t.op = .processCreate entry name) :
    ¬ ∀ t ∈ ts, Usable t := by
  intro husable
  have hok := boot_pagedOk hwf s p
  obtain ⟨hpaged, hfrom⟩ := poolOk_of_run hrun ⟨hok, hpool⟩
  obtain ⟨j, hj, hnone⟩ := PageTables.upper_half_bounded (n := 2 ^ 35) hpaged.wf hfrom (by decide)
    (by decide) (by decide)
  -- Region `j` holds the kernel stack of process `2 j`, or of process 1.
  obtain ⟨pid, hlo, hhi, hpath⟩ : ∃ pid, 0 < pid ∧ pid ≤ 32 ∧
      tablePath (pageNumber (kernelStackTop pid - 8192)) = tablePath (2 ^ 35 + 512 * j) := by
    refine ⟨max 1 (2 * j), by omega, by omega, ?_⟩
    simp only [tablePath, pageNumber, kernelStackTop, kernelBase, List.cons.injEq, and_true]
    omega
  have hmapped := creations_mapped hrun hops husable hok (init_filled p) (by rw [hlen]; decide) hlo
    (by omega)
  rw [PageTables.translate, hpath, hnone] at hmapped
  simp at hmapped

/-- The first link of the tree the bootloader leaves; what it maps below 1 GiB is
left out. -/
def bootTree : PageTables where
  mem := Bytes.ofWords fun w => if w = 0x20000 then 0x101003 else 0
  pml4 := 0x100000
  poolBase := 0x400000
  poolUsed := 0
  tlb _ := none

theorem bootTree_entry {table i : Nat} (haligned : table % 4096 = 0) :
    bootTree.entry table i = if table / 8 + i = 0x20000 then 0x101003 else 0 := by
  have haddr : table + 8 * i = 8 * (table / 8 + i) + 0 := by omega
  rw [PageTables.entry, haddr]
  show Bytes.readLE (Bytes.ofWords _) _ 8 = _
  rw [Bytes.readLE_ofWords _ _ (by omega), Nat.pow_zero, Nat.div_one]
  split <;> rfl

theorem bootTree_child {table i x : Nat} (haligned : table % 4096 = 0) (hi : i < 512)
    (h : bootTree.childTable table i = some x) : table = 0x100000 ∧ i = 0 ∧ x = 0x101000 := by
  rw [PageTables.childTable, bootTree_entry haligned] at h
  by_cases hfirst : table / 8 + i = 0x20000
  · rw [if_pos hfirst] at h
    have hx : pageAlign 0x101003 = x := Option.some.inj h
    exact ⟨by omega, by omega, hx.symm⟩
  · rw [if_neg hfirst] at h
    cases h

theorem bootTree_tableAt {path : List Nat} {x : Nat} (hpath : Radix.Within 512 3 path)
    (h : bootTree.tableAt path = some x) :
    (path = [] ∧ x = 0x100000) ∨ (path = [0] ∧ x = 0x101000) := by
  induction path using List.reverseRecOn generalizing x with
  | nil =>
      cases h
      exact Or.inl ⟨rfl, rfl⟩
  | append_singleton path i ih =>
      rw [PageTables.tableAt, Radix.walk_snoc] at h
      obtain ⟨y, hy, hchild⟩ := Option.bind_eq_some_iff.mp h
      rcases ih hpath.of_append hy with ⟨rfl, rfl⟩ | ⟨rfl, rfl⟩
      · obtain ⟨-, rfl, rfl⟩ := bootTree_child (by decide) hpath.last_lt hchild
        exact Or.inr ⟨rfl, rfl⟩
      · obtain ⟨htable, -, -⟩ := bootTree_child (by decide) hpath.last_lt hchild
        cases htable

theorem bootTree_wellFormed : bootTree.WellFormed where
  separated p q x hp hq hpx hqx := by
    rcases bootTree_tableAt hp hpx with ⟨rfl, rfl⟩ | ⟨rfl, rfl⟩ <;>
      rcases bootTree_tableAt hq hqx with ⟨rfl, hx⟩ | ⟨rfl, hx⟩ <;> first | rfl | cases hx
  rootAligned := rfl
  noHuge path x i hpath hx hi _ := by
    have hal : x % 4096 = 0 := by
      rcases bootTree_tableAt ⟨Nat.le_succ_of_le hpath.1, hpath.2⟩ hx with ⟨-, rfl⟩ | ⟨-, rfl⟩ <;> rfl
    rw [bootTree_entry hal]
    split <;> rfl
  poolAligned := rfl
  poolBound := by decide
  usedAligned := rfl
  usedBound := by decide
  outsidePool path x hpath hx := by
    rcases bootTree_tableAt hpath hx with ⟨-, rfl⟩ | ⟨-, rfl⟩
    · exact Or.inl (by decide)
    · exact Or.inl (by decide)

theorem bootTree_fromPool : bootTree.FromPool UpperHalf := by
  rintro path x ⟨i, rest, rfl, hi⟩ hpath hx
  rcases bootTree_tableAt hpath hx with ⟨hnil, -⟩ | ⟨hzero, -⟩
  · cases hnil
  · cases hzero
    omega

theorem bootTree_translate (n : Nat) : bootTree.translate n = none := by
  have htable : bootTree.tableAt (tablePath n) = none := by
    cases hpt : bootTree.tableAt (tablePath n) with
    | none => rfl
    | some pt =>
        rcases bootTree_tableAt (tablePath_within n) hpt with ⟨hpath, -⟩ | ⟨hpath, -⟩
        · exact absurd (congrArg List.length hpath) (by simp [tablePath])
        · exact absurd (congrArg List.length hpath) (by simp [tablePath])
  unfold PageTables.translate
  rw [htable]
  exact ite_self _

def bootMach : PhysState PageTables := ⟨bootTree, fun _ => 0⟩

theorem bootMach_wellFormed : bootMach.tables.WellFormed := bootTree_wellFormed

theorem bootMach_fromPool : bootMach.tables.FromPool UpperHalf := bootTree_fromPool

abbrev booted : PagedKernel := KernelState.boot bootMach clearedTasks clearedProcesses

theorem exists_creations (k : PagedKernel) (entry : Nat) (name : List UInt8) (n : Nat) :
    ∃ ts k', Trace (KernelState.step paged) k ts k' ∧ ts.length = n ∧
      ∀ t ∈ ts, t.op = .processCreate entry name := by
  induction n generalizing k with
  | zero => exact ⟨[], k, .nil k, rfl, by simp⟩
  | succ n ih =>
      obtain ⟨ts, k', hrun, hlen, hops⟩ := ih (k.processCreate paged entry name).2
      have hhead : k.step paged (.processCreate entry name) =
          some (k.processCreate paged entry name).2 := rfl
      refine ⟨_, k', .cons hhead hrun, by rw [List.length_cons, hlen], ?_⟩
      rw [List.forall_mem_cons]
      exact ⟨rfl, hops⟩

/-- Some of the first 32 processes of a kernel start without their stacks. -/
theorem creation_without_stack : ∃ ts k, Trace (KernelState.step paged) booted ts k ∧
    (∀ t ∈ ts, t.op = .processCreate 0x1000 [0x70]) ∧ ¬ ∀ t ∈ ts, Usable t := by
  obtain ⟨ts, k, hrun, hlen, hops⟩ := exists_creations booted 0x1000 [0x70] 32
  refine ⟨ts, k, hrun, hops, ?_⟩
  exact creations_not_usable bootMach_wellFormed bootMach_fromPool hrun hlen hops

theorem creations_usable_iff_first : ∃ ts k, Trace (KernelState.step paged) booted ts k ∧
    ts.length = 1 ∧ ((∀ t ∈ ts, Usable t) ↔ ∀ t ∈ ts, Supported t.before t.op) := by
  obtain ⟨ts, k, hrun, hlen, -⟩ := exists_creations booted 0x1000 [0x70] 1
  exact ⟨ts, k, hrun, hlen, creations_usable_iff bootMach _ _ bootMach_wellFormed ts k hrun⟩

end Kaviz.Kernel
