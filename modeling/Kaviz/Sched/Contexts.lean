import Kaviz.Lib.Traces
import Kaviz.Sched.Sleep

/-! # Contexts saved and loaded

The scheduler together with the registers of the CPU. `context_switch` is taken
at its specification: it stores the registers into one control block and loads
them from another. Between the calls the running thread computes, so that the
registers are arbitrary there. `current_task` starts at 0 while the boot thread
is running, so the first switch saves the boot thread over the first task.
-/

namespace Kaviz.Sched

open Traces

structure Switching where
  sched : Scheduler
  cpu : Context

inductive Act
  | call (op : Op)
  | work (cpu : Context)

namespace Switching

/-- After `scheduler_init`, with the registers of the boot thread. -/
def boot (s : Scheduler) (cpu : Context) : Switching := ⟨s.init, cpu⟩

/-- `context_switch(&tasks[old], &tasks[next])`. -/
def contextSwitch (k : Switching) (old next : Nat) : Switching where
  sched := { k.sched with
    tasks := Function.update k.sched.tasks old { k.sched.tasks old with context := k.cpu } }
  cpu := (k.sched.tasks next).context

/-- `if (current_task != old_task) context_switch(...)`. -/
def switchTo (k : Switching) (old : Nat) : Option Nat → Switching
  | none => k
  | some next => k.contextSwitch old next

def step (k : Switching) : Act → Option Switching
  | .call op => do
      let (switched, s) ← k.sched.exec op
      return { k with sched := s }.switchTo k.sched.currentTask switched
  | .work cpu => some { k with cpu := cpu }

def Switches (k : Switching) : Act → Prop
  | .call (.add _) => False
  | .call _ => 1 < k.sched.taskCount ∧ k.sched.OtherRunnable
  | .work _ => False

end Switching

/-- The step saves the registers for `old` and loads those of `next`:
`current_task` changes exactly when `context_switch` is called. -/
def Switch (old next : Nat) (t : Step Switching Act) : Prop :=
  t.before.sched.currentTask = old ∧ t.after.sched.currentTask = next ∧ old ≠ next

def Creates (i entry : Nat) (t : Step Switching Act) : Prop :=
  t.op = .call (.add entry) ∧ t.before.sched.taskCount = i ∧ i < maxTasks

def Loaded (i : Nat) (ts : List (Step Switching Act)) : Prop := ∃ t ∈ ts, ∃ old, Switch old i t

/-- Task `i` is not lost before it starts. -/
structure Kept (ts : List (Step Switching Act)) (i : Nat) : Prop where
  saved : ∀ us t vs next, ts = us ++ t :: vs → Switch i next t → Loaded i us
  loaded : ∀ us t vs old, ts = us ++ t :: vs → Switch old i t → ¬ Loaded i us →
    ∃ u ∈ us, ∃ entry, Creates i entry u ∧ t.after.cpu = initialContext i entry

/-! ## One step -/

/-- A step without a switch: contexts change only where a task is created. -/
structure Stays (t : Step Switching Act) : Prop where
  alone : ¬ t.before.Switches t.op
  current : t.after.sched.currentTask = t.before.sched.currentTask
  context : ∀ i, i < t.before.sched.taskCount →
    (t.after.sched.tasks i).context = (t.before.sched.tasks i).context
  created : ∀ i, i < t.after.sched.taskCount → t.before.sched.taskCount ≤ i →
    ∃ entry, Creates i entry t ∧ (t.after.sched.tasks i).context = initialContext i entry

/-- A step with a switch: only the context of the task left is overwritten. -/
structure Leaves (t : Step Switching Act) : Prop where
  other : t.before.Switches t.op
  current : t.after.sched.currentTask ≠ t.before.sched.currentTask
  count : t.after.sched.taskCount = t.before.sched.taskCount
  current_lt : t.after.sched.currentTask < t.before.sched.taskCount
  cpu : t.after.cpu = (t.before.sched.tasks t.after.sched.currentTask).context
  context : ∀ i, i ≠ t.before.sched.currentTask →
    (t.after.sched.tasks i).context = (t.before.sched.tasks i).context

theorem Scheduler.Outcome.context {s s' : Scheduler} {switched : Option Nat}
    (hout : Outcome s switched s') (i : Nat) : (s'.tasks i).context = (s.tasks i).context := by
  rcases hout with ⟨-, -, rfl⟩ | ⟨-, hfound, -⟩
  · rfl
  · rw [hfound.tasks i]
    split
    · exact Task.visit_context _
    · rfl

theorem Scheduler.dozing_context (s : Scheduler) (ticks i : Nat) :
    ((s.dozing ticks).tasks i).context = (s.tasks i).context := by
  by_cases hi : i = s.currentTask
  · rw [hi, dozing_current]
  · rw [dozing_other s ticks hi]

namespace Switching

variable {k k' : Switching} {act : Act}

/-- The last part of `scheduler_schedule`, from a state `x` that differs from the
one before the call in what happens to the current task only. -/
theorem switch_cases {x s : Scheduler} {switched : Option Nat} (hok : x.Ok)
    (hout : Scheduler.Outcome x switched s) (hcount : x.taskCount = k.sched.taskCount)
    (hcurrent : x.currentTask = k.sched.currentTask)
    (hcontext : ∀ i, (x.tasks i).context = (k.sched.tasks i).context)
    (hother : k.Switches act ↔ 1 < x.taskCount ∧ x.OtherRunnable)
    (hk' : k' = { k with sched := s }.switchTo k.sched.currentTask switched) :
    Stays ⟨k, act, k'⟩ ∨ Leaves ⟨k, act, k'⟩ := by
  have hsw := hout.switched_iff hok
  rw [← hother] at hsw
  have hkeep : ∀ i, (s.tasks i).context = (k.sched.tasks i).context := fun i =>
    (hout.context i).trans (hcontext i)
  have hcount' : s.taskCount = k.sched.taskCount := hout.count.trans hcount
  cases switched with
  | none =>
      subst hk'
      have hcur : s.currentTask = k.sched.currentTask := by
        rw [← hcurrent]
        rcases hout with ⟨-, -, rfl⟩ | ⟨-, -, hnone⟩
        · rfl
        · by_contra hne
          rw [if_pos hne] at hnone
          cases hnone
      refine Or.inl ⟨fun h => by simpa using hsw.mpr h, hcur, fun i _ => hkeep i, fun i hi hle => ?_⟩
      exact absurd (hcount' ▸ hi) (Nat.not_lt.mpr hle)
  | some next =>
      subst hk'
      obtain ⟨hfound, hnext⟩ : Scheduler.Found x s ∧
          some next = if s.currentTask ≠ x.currentTask then some s.currentTask else none := by
        rcases hout with ⟨-, hnone, -⟩ | ⟨-, hfound, hsome⟩
        · cases hnone
        · exact ⟨hfound, hsome⟩
      have hne : s.currentTask ≠ x.currentTask := by
        intro heq
        rw [if_neg (not_not.mpr heq)] at hnext
        cases hnext
      rw [if_pos hne] at hnext
      cases hnext
      rw [hcurrent] at hne
      refine Or.inr ⟨hsw.mp rfl, hne, hcount', hcount ▸ hfound.current_lt, hkeep _, fun i hi => ?_⟩
      show (Function.update s.tasks _ _ i).context = _
      rw [Function.update_of_ne hi]
      exact hkeep i

theorem step_cases (hok : k.sched.Ok) (h : k.step act = some k') :
    Stays ⟨k, act, k'⟩ ∨ Leaves ⟨k, act, k'⟩ := by
  cases act with
  | work cpu =>
      cases h
      exact Or.inl ⟨id, rfl, fun _ _ => rfl, fun i hi hle => absurd hi (Nat.not_lt.mpr hle)⟩
  | call op =>
      obtain ⟨⟨switched, s⟩, hexec, h⟩ := Option.bind_eq_some_iff.mp h
      have hk' : k' = { k with sched := s }.switchTo k.sched.currentTask switched :=
        (Option.some.inj h).symm
      rcases Scheduler.exec_cases hok hexec with ⟨entry, rfl, rfl, rfl⟩ | ⟨rfl, hout⟩ |
        ⟨ticks, rfl, ⟨hzero, rfl, rfl⟩ | ⟨-, hout⟩⟩
      · subst hk'
        refine Or.inl ⟨id, Scheduler.addTask_current _ _,
          fun i hi => congrArg Task.context (Scheduler.addTask_other hi), fun i hi hle => ?_⟩
        obtain ⟨rfl, hroom, hcontext⟩ := Scheduler.addTask_created hi hle
        exact ⟨entry, ⟨rfl, rfl, hroom⟩, hcontext⟩
      · exact switch_cases hok hout rfl rfl (fun _ => rfl) Iff.rfl hk'
      · subst hk'
        refine Or.inl ⟨?_, rfl, fun _ _ => rfl, fun i hi hle => absurd hi (Nat.not_lt.mpr hle)⟩
        rintro ⟨hmany, -⟩
        dsimp only at hmany
        omega
      · refine switch_cases (hok.dozing ticks) hout rfl rfl (Scheduler.dozing_context _ ticks) ?_ hk'
        rw [Scheduler.dozing_otherRunnable]
        exact Iff.rfl

theorem step_ok (hok : k.sched.Ok) (h : k.step act = some k') : k'.sched.Ok := by
  cases act with
  | work cpu =>
      cases h
      exact hok
  | call op =>
      obtain ⟨⟨switched, s⟩, hexec, h⟩ := Option.bind_eq_some_iff.mp h
      obtain ⟨hle, hlt⟩ := (Scheduler.exec_ok hok hexec).1
      cases switched <;> cases h <;> exact ⟨hle, hlt⟩

end Switching

/-! ## Whole runs -/

/-- The slot of task `i ≠ 0` after the steps `us`: loaded before, or still as created. -/
structure Fresh (i : Nat) (us : List (Step Switching Act)) (k : Switching) : Prop where
  ok : k.sched.Ok
  current : k.sched.currentTask = i → Loaded i us
  context : i < k.sched.taskCount → ¬ Loaded i us →
    ∃ u ∈ us, ∃ entry, Creates i entry u ∧ (k.sched.tasks i).context = initialContext i entry

theorem Loaded.mono {i : Nat} {us vs : List (Step Switching Act)} (h : Loaded i us)
    (hsub : us ⊆ vs) : Loaded i vs := by
  obtain ⟨t, ht, hload⟩ := h
  exact ⟨t, hsub ht, hload⟩

theorem Fresh.step {i : Nat} {us : List (Step Switching Act)} {k k' : Switching} {act : Act}
    (h : Fresh i us k) (hstep : k.step act = some k') : Fresh i (us ++ [⟨k, act, k'⟩]) k' := by
  have hsub : us ⊆ us ++ [⟨k, act, k'⟩] := List.subset_append_left _ _
  have hlast : (⟨k, act, k'⟩ : Step Switching Act) ∈ us ++ [⟨k, act, k'⟩] := by simp
  refine ⟨Switching.step_ok h.ok hstep, fun hcur => ?_, fun hi hnot => ?_⟩
  · rcases Switching.step_cases h.ok hstep with hstay | hleave
    · have hsame : k'.sched.currentTask = k.sched.currentTask := hstay.current
      exact (h.current (hsame ▸ hcur)).mono hsub
    · exact ⟨_, hlast, k.sched.currentTask, rfl, hcur, hcur ▸ Ne.symm hleave.current⟩
  · have hbefore : ¬ Loaded i us := fun hload => hnot (hload.mono hsub)
    rcases Switching.step_cases h.ok hstep with hstay | hleave
    · by_cases hold : i < k.sched.taskCount
      · obtain ⟨u, hu, entry, hcreate, hcontext⟩ := h.context hold hbefore
        exact ⟨u, hsub hu, entry, hcreate, (hstay.context i hold).trans hcontext⟩
      · obtain ⟨entry, hcreate, hcontext⟩ := hstay.created i hi (Nat.not_lt.mp hold)
        exact ⟨_, hlast, entry, hcreate, hcontext⟩
    · have hold : i < k.sched.taskCount := hleave.count ▸ hi
      have hne : i ≠ k.sched.currentTask := fun heq => hbefore (h.current heq.symm)
      obtain ⟨u, hu, entry, hcreate, hcontext⟩ := h.context hold hbefore
      exact ⟨u, hsub hu, entry, hcreate, (hleave.context i hne).trans hcontext⟩

theorem Fresh.trace {i : Nat} {us ts : List (Step Switching Act)} {k k' : Switching}
    (h : Fresh i us k) (hrun : Trace Switching.step k ts k') : Fresh i (us ++ ts) k' := by
  induction hrun generalizing us with
  | nil => rwa [List.append_nil]
  | cons head _ ih =>
      rw [List.append_cons]
      exact ih (h.step head)

/-- A step of a run, with the slot of task `i ≠ 0` in front of it. -/
theorem fresh_of_split {s₀ : Scheduler} {cpu : Context} {us vs : List (Step Switching Act)}
    {t : Step Switching Act} {k : Switching} {i : Nat} (hi : i ≠ 0)
    (hrun : Trace Switching.step (Switching.boot s₀ cpu) (us ++ t :: vs) k) :
    Fresh i us t.before ∧ (Stays t ∨ Leaves t) := by
  have hboot : Fresh i [] (Switching.boot s₀ cpu) :=
    ⟨s₀.init_ok, fun hcur => absurd hcur.symm hi, fun hlt => absurd hlt (Nat.not_lt_zero i)⟩
  obtain ⟨k₁, hfirst, hrest⟩ := hrun.split
  have hfresh := hboot.trace hfirst
  rw [List.nil_append] at hfresh
  cases hrest with
  | cons head _ => exact ⟨hfresh, Switching.step_cases hfresh.ok head⟩

/-- Every task but the first starts with the context built for it. -/
theorem kept_of_ne_zero {s₀ : Scheduler} {cpu : Context} {ts : List (Step Switching Act)}
    {k : Switching} {i : Nat} (hi : i ≠ 0)
    (hrun : Trace Switching.step (Switching.boot s₀ cpu) ts k) : Kept ts i := by
  constructor
  · rintro us t vs next rfl ⟨hcur, -, -⟩
    exact (fresh_of_split hi hrun).1.current hcur
  · rintro us t vs old rfl ⟨hold, hcur, hne⟩ hnot
    obtain ⟨hfresh, hstay | hleave⟩ := fresh_of_split hi hrun
    · rw [← hold, ← hcur] at hne
      exact absurd hstay.current.symm hne
    · obtain ⟨u, hu, entry, hcreate, hcontext⟩ := hfresh.context (hcur ▸ hleave.current_lt) hnot
      refine ⟨u, hu, entry, hcreate, ?_⟩
      rw [hleave.cpu, hcur]
      exact hcontext

/-- While nobody has switched, the first switch overwrites task 0. -/
theorem alone_of_kept {ts : List (Step Switching Act)} {k k' : Switching} (hok : k.sched.Ok)
    (hcur : k.sched.currentTask = 0) (hrun : Trace Switching.step k ts k')
    (hkept : ∀ us t vs next, ts = us ++ t :: vs → Switch 0 next t → Loaded 0 us) :
    ∀ t ∈ ts, ¬ t.before.Switches t.op := by
  induction hrun with
  | nil => exact fun t ht => absurd ht (List.not_mem_nil)
  | @cons k k₁ k' act ts head tail ih =>
      rcases Switching.step_cases hok head with hstay | hleave
      · have hcur₁ : k₁.sched.currentTask = 0 := hstay.current.trans hcur
        refine List.forall_mem_cons.mpr ⟨hstay.alone, ih (Switching.step_ok hok head) hcur₁ ?_⟩
        intro us t vs next hts hswitch
        obtain ⟨u, hu, old, hload⟩ := hkept (⟨k, act, k₁⟩ :: us) t vs next (by rw [hts]; rfl) hswitch
        rcases List.mem_cons.mp hu with rfl | hu
        · exact absurd (hload.1.symm.trans (hstay.current.symm.trans hload.2.1)) hload.2.2
        · exact ⟨u, hu, old, hload⟩
      · obtain ⟨u, hu, -⟩ := hkept [] ⟨k, act, k₁⟩ ts k₁.sched.currentTask rfl
          ⟨hcur, rfl, fun heq => hleave.current (heq.symm.trans hcur.symm)⟩
        exact absurd hu (List.not_mem_nil)

/-- Without a switch nothing is overwritten and nothing loaded. -/
theorem kept_of_alone {ts : List (Step Switching Act)} {k k' : Switching} (hok : k.sched.Ok)
    (hrun : Trace Switching.step k ts k') (halone : ∀ t ∈ ts, ¬ t.before.Switches t.op) (i : Nat) :
    Kept ts i := by
  have hnone : ∀ t ∈ ts, ∀ old next, ¬ Switch old next t := by
    rintro t ht old next ⟨hold, hnext, hne⟩
    obtain ⟨hok', hstep⟩ := hrun.inv_of_mem hok (fun h hs => Switching.step_ok h hs) ht
    rcases Switching.step_cases hok' hstep with hstay | hleave
    · exact hne (hold.symm.trans (hstay.current.symm.trans hnext))
    · exact halone t ht hleave.other
  constructor
  · rintro us t vs next rfl hswitch
    exact absurd hswitch (hnone t (by simp) i next)
  · rintro us t vs old rfl hswitch
    exact absurd hswitch (hnone t (by simp) old i)

/-- Task `i` is never lost before it starts exactly when it is not the first task
or no call of the scheduler finds another task to run. -/
theorem kept_iff (s₀ : Scheduler) (cpu : Context) (ts : List (Step Switching Act)) (k : Switching)
    (hrun : Trace Switching.step (Switching.boot s₀ cpu) ts k) (i : Nat) :
    Kept ts i ↔ i ≠ 0 ∨ ∀ t ∈ ts, ¬ t.before.Switches t.op := by
  constructor
  · intro hkept
    by_cases hi : i = 0
    · subst hi
      exact Or.inr (alone_of_kept s₀.init_ok rfl hrun hkept.saved)
    · exact Or.inl hi
  · rintro (hi | halone)
    · exact kept_of_ne_zero hi hrun
    · exact kept_of_alone s₀.init_ok hrun halone i

def firstTurns : List Act :=
  [.call (.add 0x1000), .call (.add 0x2000), .call .schedule, .call .schedule]

def bootContext : Context := { initialContext 0 0xFFFF800000100000 with rsp := 0x90000 }

theorem firstTurns_loads : (collect Switching.step (Switching.boot clearedTasks bootContext)
    firstTurns).map (fun ts => ts.map fun t =>
      (t.before.sched.currentTask, t.after.sched.currentTask, t.after.cpu.rip)) =
    some [(0, 0, 0xFFFF800000100000), (0, 0, 0xFFFF800000100000), (0, 1, 0x2000),
      (1, 0, 0xFFFF800000100000)] := by
  decide

/-- The first switch saves the boot thread over task 0, which has never run. -/
theorem first_task_lost : ∃ ts k,
    Trace Switching.step (Switching.boot clearedTasks bootContext) ts k ∧ ¬ Kept ts 0 := by
  obtain ⟨ts, hts, hmap⟩ := Option.map_eq_some_iff.mp firstTurns_loads
  obtain ⟨k, hrun⟩ := collect_trace hts
  refine ⟨ts, k, hrun, fun hkept => ?_⟩
  match ts, hmap with
  | [t₁, t₂, t₃, t₄], hmap =>
      simp only [List.map_cons, List.map_nil, List.cons.injEq, Prod.mk.injEq, and_true] at hmap
      obtain ⟨⟨h₁, h₁', -⟩, ⟨h₂, h₂', -⟩, ⟨h₃, h₃', -⟩, -⟩ := hmap
      obtain ⟨u, hu, old, hold, hcur, hne⟩ :=
        hkept.saved [t₁, t₂] t₃ [t₄] 1 rfl ⟨h₃, h₃', by decide⟩
      simp only [List.mem_cons, List.not_mem_nil, or_false] at hu
      rcases hu with rfl | rfl <;> omega

theorem kept_iff_firstTurns : ∃ ts k,
    Trace Switching.step (Switching.boot clearedTasks bootContext) ts k ∧ ts.length = 4 ∧
      ∀ i, Kept ts i ↔ i ≠ 0 ∨ ∀ t ∈ ts, ¬ t.before.Switches t.op := by
  obtain ⟨ts, hts, hmap⟩ := Option.map_eq_some_iff.mp firstTurns_loads
  obtain ⟨k, hrun⟩ := collect_trace hts
  have hlen : ts.length = 4 := by simpa using congrArg List.length hmap
  exact ⟨ts, k, hrun, hlen, fun i => kept_iff clearedTasks bootContext ts k hrun i⟩

end Kaviz.Sched
