import Kaviz.Kernel.Creation
import Kaviz.Kernel.ProcessTable

/-! # Who owns which addresses

The heap, the stacks of tasks and the kernel stacks of processes are placed in
the upper half by three pieces of code that do not know of each other, all of
them counting from the same base. The first task gets the addresses the heap
starts with; tasks 31, 47 and 63 get the stacks of processes 1, 2 and 3. The
regions stay apart as long as every call finds its own addresses unused.
-/

namespace Kaviz.Kernel

open Memory Paging Heap Sched Traces

inductive Owner
  | heap
  | task (i : Nat)
  | process (pid : Nat)
  deriving DecidableEq

variable {σ : Type} (M : Machine σ)

namespace KernelState

variable (k : KernelState σ)

def Live : Owner → Prop
  | .heap => True
  | .task i => i < k.sched.taskCount
  | .process pid => pid ∈ k.procs.live

def regionStart : Owner → Nat
  | .heap => k.mem.heapStart
  | .task i => (k.sched.tasks i).context.rsp - 0x10000
  | .process pid => (k.procs.processes pid).kernelStack - 8192

def regionEnd : Owner → Nat
  | .heap => k.mem.heapEnd
  | .task i => (k.sched.tasks i).context.rsp
  | .process pid => (k.procs.processes pid).kernelStack

def Owns (o : Owner) (a : Nat) : Prop := k.regionStart o ≤ a ∧ a < k.regionEnd o

def RegionsApart : Prop :=
  ∀ o o' a, k.Live o → k.Live o' → o ≠ o' → k.Owns o a → ¬ k.Owns o' a

end KernelState

/-- The event maps no page with an address in `R`. -/
def Spares (R : Nat → Prop) : Event → Prop
  | .store _ => True
  | .map v _ _ r => r = 0 → ∀ a, a / 4096 = v / 4096 → ¬ R a

def ActsOn : Call → Owner → Prop
  | .kmalloc _, .heap => True
  | .kfree _, .heap => True
  | _, _ => False

def Undisturbed (t : Step (KernelState σ) Call) : Prop :=
  ∃ es, t.after.mem.trace = es ++ t.before.mem.trace ∧ ∀ e ∈ es,
    Spares (fun a => ∃ o, t.before.Live o ∧ ¬ ActsOn t.op o ∧ t.before.Owns o a) e

/-! ## When a call finds its addresses unused -/

/-- A mapping loop for `n` heap pages at `base` ends at or below `limit`, or fails
before it comes to the page there. -/
def StaysBelow (s : MemState σ) (base n limit : Nat) : Prop :=
  base + 4096 * n ≤ limit ∨ (s.mapPages M heapFlags base 0 ((limit - base) / 4096 + 1)).1 = false

/-- Where the heap has to end: `heap_max`, and the stacks in use. -/
def HeapBelow (k : KernelState σ) (limit : Nat) : Prop :=
  limit = heapLimit + 1 ∨ ∃ o, o ≠ .heap ∧ k.Live o ∧ limit = k.regionStart o

/-- The addresses a call is going to take are unused. -/
def Unclaimed (k : KernelState σ) : Call → Prop
  | .kmalloc size =>
      (k.mem.heapFirstBlock = 0 →
        ∀ limit, HeapBelow k limit → StaysBelow M k.mem k.mem.heapStart 1024 limit) ∧
      ∀ s₁, initHeap M k.mem = some (true, s₁) →
        findBest M s₁.mach (roundSize size) walkFuel s₁.heapFirstBlock 0 = some 0 →
        ∀ limit, HeapBelow k limit →
          StaysBelow M s₁ s₁.heapEnd (pagesNeeded (roundSize size)) limit
  | .addTask _ => k.sched.taskCount < maxTasks →
      k.mem.heapEnd ≤ stackTop k.sched.taskCount - 0x10000 ∧
        ∀ pid ∈ k.procs.live, k.sched.taskCount + 1 ≠ 16 * (pid + 1)
  | .processCreate _ _ => ∀ pid, k.procs.slot = some pid →
      k.mem.heapEnd ≤ kernelStackTop pid - 8192 ∧ k.sched.taskCount < 16 * (pid + 1)
  | _ => True

/-! ## Recorded events -/

/-- The events recorded from `s` to `s'` satisfy `P`. -/
def Adds (P : Event → Prop) (s s' : MemState σ) : Prop :=
  ∃ es, s'.trace = es ++ s.trace ∧ ∀ e ∈ es, P e

section Events

variable {M} {P Q : Event → Prop} {s s' s'' : MemState σ} {v f base i n limit : Nat}

theorem Adds.refl (s : MemState σ) : Adds P s s := ⟨[], rfl, by simp⟩

theorem Adds.of_trace (h : s'.trace = s.trace) : Adds P s s' := ⟨[], h, by simp⟩

theorem Adds.trans (h : Adds P s s') (h' : Adds P s' s'') : Adds P s s'' := by
  obtain ⟨es, hes, hP⟩ := h
  obtain ⟨es', hes', hP'⟩ := h'
  refine ⟨es' ++ es, by rw [hes', hes, List.append_assoc], ?_⟩
  intro e he
  rcases List.mem_append.mp he with he | he
  · exact hP' e he
  · exact hP e he

theorem Adds.mono (h : Adds P s s') (himp : ∀ e, P e → Q e) : Adds Q s s' := by
  obtain ⟨es, hes, hP⟩ := h
  exact ⟨es, hes, fun e he => himp e (hP e he)⟩

theorem Stored.adds {R : Nat → Prop} (h : Stored M s s') : Adds (Spares R) s s' := by
  induction h with
  | refl => exact .refl _
  | store _ hs ih =>
      obtain ⟨x, -, rfl⟩ := Option.map_eq_some_iff.mp hs
      refine ih.trans ⟨[_], rfl, ?_⟩
      simp [Spares]

/-- One fresh page: nothing recorded and refused, or recorded with its answer. -/
theorem mapFresh_adds (s : MemState σ) (v f : Nat) :
    Adds (fun e => ∃ p r, e = .map v p f r ∧ (r = 0 → (s.mapFresh M v f).1 = true)) s
      (s.mapFresh M v f).2 := by
  have htrace := alloc_trace s
  unfold MemState.mapFresh
  generalize s.allocPhysicalPage = r at htrace ⊢
  by_cases hnull : r.1 = 0
  · simp only [hnull, if_true]
    exact .of_trace htrace
  · simp only [hnull, if_false, MemState.mapPage]
    refine ⟨[.map v r.1 f (M.mapPage r.2.mach v r.1 f).1], by rw [← htrace]; rfl, ?_⟩
    intro e he
    obtain rfl := List.mem_singleton.mp he
    exact ⟨_, _, rfl, fun hr => decide_eq_true hr⟩

theorem mapStack_adds (f base i n : Nat) (s : MemState σ) :
    Adds (fun e => ∃ j p r, j < i + n ∧ e = .map ((base + 4096 * j) % 2 ^ 64) p f r) s
      (mapStack M f base i n s) := by
  induction n generalizing s i with
  | zero => exact .refl _
  | succ n ih =>
      rw [mapStack]
      refine Adds.trans (Adds.mono (mapFresh_adds s _ f) ?_) (Adds.mono (ih (i + 1) _) ?_)
      · rintro e ⟨p, r, rfl, -⟩
        exact ⟨i, p, r, by omega, rfl⟩
      · rintro e ⟨j, p, r, hj, rfl⟩
        exact ⟨j, p, r, by omega, rfl⟩

theorem mapPages_shorter {m : Nat} (h : (s.mapPages M f base i n).1 = true) (hm : m ≤ n) :
    (s.mapPages M f base i m).1 = true := by
  induction m generalizing s i n with
  | zero => rfl
  | succ m ih =>
      obtain ⟨n, rfl⟩ : ∃ n', n = n' + 1 := ⟨n - 1, by omega⟩
      rw [MemState.mapPages] at h ⊢
      cases hfresh : s.mapFresh M ((base + 4096 * i) % 2 ^ 64) f with
      | mk done s₁ =>
          rw [hfresh] at h
          cases done with
          | false => cases h
          | true => exact ih h (by omega)

/-- The pages a mapping loop maps are those up to its first failure. -/
theorem mapPages_adds (f base i n : Nat) (s : MemState σ) :
    Adds (fun e => ∃ j p r, j < n ∧ e = .map ((base + 4096 * (i + j)) % 2 ^ 64) p f r ∧
      (r = 0 → (s.mapPages M f base i (j + 1)).1 = true)) s (s.mapPages M f base i n).2 := by
  induction n generalizing s i with
  | zero => exact .refl _
  | succ n ih =>
      have hone := mapFresh_adds (M := M) s ((base + 4096 * i) % 2 ^ 64) f
      rw [MemState.mapPages]
      cases hfresh : s.mapFresh M ((base + 4096 * i) % 2 ^ 64) f with
      | mk done s₁ =>
          rw [hfresh] at hone
          have hfirst : Adds (fun e => ∃ j p r, j < n + 1 ∧
              e = .map ((base + 4096 * (i + j)) % 2 ^ 64) p f r ∧
              (r = 0 → (s.mapPages M f base i (j + 1)).1 = true)) s s₁ := by
            refine hone.mono ?_
            rintro e ⟨p, r, rfl, hr⟩
            refine ⟨0, p, r, by omega, rfl, fun hzero => ?_⟩
            rw [MemState.mapPages, hfresh]
            dsimp only at hr
            rw [hr hzero]
            rfl
          cases done with
          | false => exact hfirst
          | true =>
              refine hfirst.trans (Adds.mono (ih (i + 1) s₁) ?_)
              rintro e ⟨j, p, r, hj, rfl, hr⟩
              refine ⟨j + 1, p, r, by omega, by rw [Nat.add_right_comm, Nat.add_assoc i j 1], fun hzero => ?_⟩
              rw [MemState.mapPages, hfresh]
              exact hr hzero

/-- Pages mapped by a loop that stays below a limit lie below it. -/
theorem StaysBelow.reached {j : Nat} (h : StaysBelow M s base n limit) (hj : j < n)
    (hmapped : (s.mapPages M heapFlags base 0 (j + 1)).1 = true) :
    base + 4096 * (j + 1) ≤ limit := by
  rcases h with hend | hfail
  · omega
  · by_contra hover
    have hlonger : (limit - base) / 4096 + 1 ≤ j + 1 := by omega
    rw [mapPages_shorter hmapped hlonger] at hfail
    cases hfail

theorem mapStack_vars (f base i n : Nat) (s : MemState σ) :
    (mapStack M f base i n s).heapStart = s.heapStart ∧
      (mapStack M f base i n s).heapEnd = s.heapEnd := by
  induction n generalizing s i with
  | zero => exact ⟨rfl, rfl⟩
  | succ n ih =>
      obtain ⟨hstart, hend⟩ := ih (i + 1) (s.mapFresh M ((base + 4096 * i) % 2 ^ 64) f).2
      rw [mapStack, hstart, hend, mapFresh_vars]
      exact ⟨rfl, rfl⟩

end Events

/-! ## The heap -/

structure HeapOk (k : KernelState σ) (s : MemState σ) : Prop where
  start : s.heapStart = kernelBase
  base : kernelBase ≤ s.heapEnd
  aligned : s.heapEnd % 4096 = 0
  below : ∀ limit, HeapBelow k limit → s.heapEnd ≤ limit

section Heap

variable {M} {k : KernelState σ} {s s' : MemState σ} {base n : Nat}

/-- Where the heap stays as it is, only limits that are new have to be looked at. -/
theorem HeapOk.kept {k' : KernelState σ} (h : HeapOk k s) (hstart : s'.heapStart = s.heapStart)
    (hend : s'.heapEnd = s.heapEnd)
    (hlimits : ∀ limit, HeapBelow k' limit → HeapBelow k limit ∨ s.heapEnd ≤ limit) :
    HeapOk k' s' := by
  refine ⟨hstart.trans h.start, ?_, ?_, ?_⟩
  · rw [hend]
    exact h.base
  · rw [hend]
    exact h.aligned
  · intro limit hlimit
    rw [hend]
    rcases hlimits limit hlimit with hold | hnew
    · exact h.below limit hold
    · exact hnew

theorem HeapOk.stored (h : HeapOk k s) (hs : Stored M s s') : HeapOk k s' := by
  have hstart : s'.heapStart = s.heapStart := by rw [hs.vars]
  have hend : s'.heapEnd = s.heapEnd := by rw [hs.vars]
  exact h.kept hstart hend fun _ hlimit => Or.inl hlimit

theorem kernelBase_aligned : kernelBase % 4096 = 0 := by decide

theorem heapLimit_lt : heapLimit + 1 < 2 ^ 64 := by decide

/-- A mapping loop below the stacks in use moves the end of the heap at most to there. -/
theorem HeapOk.grown (h : HeapOk k s) (hbase : kernelBase ≤ base) (hal : base % 4096 = 0)
    (hlow : ∀ limit, HeapBelow k limit → base ≤ limit)
    (hstay : ∀ limit, HeapBelow k limit → StaysBelow M s base n limit)
    (hs : Grown M s base n s') : HeapOk k s' := by
  obtain ⟨hstart, hend⟩ := hs.vars
  rcases hend with hend | ⟨hdone, hend⟩
  · exact h.kept hstart hend fun _ hlimit => Or.inl hlimit
  · have hnew : ∀ limit, HeapBelow k limit → base + 4096 * n ≤ limit := by
      intro limit hlimit
      cases n with
      | zero => exact hlow limit hlimit
      | succ n => exact (hstay limit hlimit).reached (Nat.lt_succ_self n) hdone
    have hmax := hnew _ (Or.inl rfl)
    have hlt := heapLimit_lt
    rw [Nat.mod_eq_of_lt (by omega)] at hend
    refine ⟨hstart.trans h.start, ?_, ?_, ?_⟩
    · omega
    · omega
    · rw [hend]
      exact hnew

theorem Grown.adds {R : Nat → Prop} (hR : ∀ a, R a → ∃ limit, HeapBelow k limit ∧ limit ≤ a)
    (hal : base % 4096 = 0) (hstay : ∀ limit, HeapBelow k limit → StaysBelow M s base n limit)
    (hs : Grown M s base n s') : Adds (Spares R) s s' := by
  obtain ⟨first, last, -, hstored⟩ := hs
  have hloop : Adds (Spares R) s (s.mapPages M heapFlags base 0 n).2 := by
    refine Adds.mono (mapPages_adds heapFlags base 0 n s) ?_
    rintro e ⟨j, p, r, hj, rfl, hmapped⟩
    rintro hzero a hpage ha
    obtain ⟨limit, hlimit, hle⟩ := hR a ha
    have hreach := (hstay limit hlimit).reached hj (hmapped hzero)
    have hmax := (hstay _ (Or.inl rfl)).reached hj (hmapped hzero)
    have hlt := heapLimit_lt
    rw [Nat.zero_add, Nat.mod_eq_of_lt (by omega)] at hpage
    omega
  exact hloop.trans (hstored.adds (R := R))

/-- `kmalloc` grows the heap into unused addresses only. -/
theorem HeapOk.kmalloc {R : Nat → Prop} {size r : Nat} (h : HeapOk k k.mem)
    (hlow : ∀ limit, HeapBelow k limit → kernelBase ≤ limit)
    (hR : ∀ a, R a → ∃ limit, HeapBelow k limit ∧ limit ≤ a)
    (hcond : Unclaimed M k (.kmalloc size)) (hs : kmalloc M k.mem size = some (r, s')) :
    HeapOk k s' ∧ Adds (Spares R) k.mem s' := by
  obtain ⟨hcreate, hextend⟩ := hcond
  obtain ⟨done, s₁, hinit, hrest⟩ := kmalloc_branches hs
  have hfirst : HeapOk k s₁ ∧ Adds (Spares R) k.mem s₁ := by
    rcases initHeap_cases hinit with rfl | ⟨hnone, hgrown⟩
    · exact ⟨h, .refl _⟩
    · have hstay := hcreate hnone
      rw [h.start] at hstay hgrown
      exact ⟨h.grown (Nat.le_refl _) kernelBase_aligned hlow hstay hgrown,
        hgrown.adds hR kernelBase_aligned hstay⟩
  obtain ⟨hok, hadds⟩ := hfirst
  rcases hrest with ⟨-, rfl⟩ | ⟨rfl, s₂, hext, hstored⟩
  · exact ⟨hok, hadds⟩
  · rcases hext with rfl | ⟨hbest, hgrown⟩
    · exact ⟨hok.stored hstored, hadds.trans hstored.adds⟩
    · have hstay := hextend s₁ hinit hbest
      exact ⟨(hok.grown hok.base hok.aligned hok.below hstay hgrown).stored hstored,
        hadds.trans ((hgrown.adds hR hok.aligned hstay).trans hstored.adds)⟩

end Heap

/-! ## All owners -/

/-- Every stack is where it was placed, and no two owners meet. -/
structure RegionInv (k : KernelState σ) : Prop where
  heap : HeapOk k k.mem
  tasks : ∀ i, i < k.sched.taskCount → (k.sched.tasks i).context.rsp = stackTop i
  procs : ∀ pid ∈ k.procs.live, (k.procs.processes pid).kernelStack = kernelStackTop pid
  apart : ∀ pid ∈ k.procs.live, k.sched.taskCount < 16 * (pid + 1)

namespace RegionInv

variable {M} {k : KernelState σ} {o : Owner} {a : Nat}

/-- A stack starts at or above the base of the upper half, and the heap ends there. -/
theorem stack_above (h : RegionInv k) (hne : o ≠ .heap) (hlive : k.Live o) :
    kernelBase ≤ k.regionStart o ∧ k.mem.heapEnd ≤ k.regionStart o := by
  refine ⟨?_, h.heap.below _ (Or.inr ⟨o, hne, hlive, rfl⟩)⟩
  cases o with
  | heap => exact absurd rfl hne
  | task i =>
      dsimp only [KernelState.regionStart]
      rw [h.tasks i hlive]
      unfold stackTop
      omega
  | process pid =>
      dsimp only [KernelState.regionStart]
      rw [h.procs pid hlive]
      unfold kernelStackTop
      omega

theorem low_limit (h : RegionInv k) {limit : Nat} (hlimit : HeapBelow k limit) :
    kernelBase ≤ limit := by
  rcases hlimit with rfl | ⟨o, hne, hlive, rfl⟩
  · decide
  · exact (h.stack_above hne hlive).1

theorem owned_above (h : RegionInv k) (hlive : k.Live o) (ha : k.Owns o a) : kernelBase ≤ a := by
  by_cases hheap : o = .heap
  · subst hheap
    exact h.heap.start ▸ ha.1
  · exact Nat.le_trans (h.stack_above hheap hlive).1 ha.1

theorem owns_task (h : RegionInv k) {i : Nat} (hi : i < k.sched.taskCount) (ha : k.Owns (.task i) a) :
    kernelBase + 0x10000 * i ≤ a ∧ a < kernelBase + 0x10000 * (i + 1) := by
  dsimp only [KernelState.Owns, KernelState.regionStart, KernelState.regionEnd] at ha
  rw [h.tasks i hi] at ha
  unfold stackTop at ha
  omega

theorem owns_process (h : RegionInv k) {pid : Nat} (hpid : pid ∈ k.procs.live)
    (ha : k.Owns (.process pid) a) :
    kernelBase + 0x100000 * (pid + 1) - 8192 ≤ a ∧ a < kernelBase + 0x100000 * (pid + 1) := by
  dsimp only [KernelState.Owns, KernelState.regionStart, KernelState.regionEnd] at ha
  have htop : kernelStackTop pid = kernelBase + 0x100000 * (pid + 1) := by
    rw [kernelStackTop, Nat.mul_comm]
  rw [h.procs pid hpid, htop] at ha
  exact ha

theorem heap_apart (h : RegionInv k) (hne : o ≠ .heap) (hlive : k.Live o) (ha : k.Owns .heap a) :
    ¬ k.Owns o a := by
  intro ha'
  have hend := (h.stack_above hne hlive).2
  have hlt : a < k.mem.heapEnd := ha.2
  have hle := ha'.1
  omega

theorem task_process_apart (h : RegionInv k) {i pid : Nat} (hi : i < k.sched.taskCount)
    (hpid : pid ∈ k.procs.live) (ha : k.Owns (.task i) a) : ¬ k.Owns (.process pid) a := by
  intro ha'
  have htask := h.owns_task hi ha
  have hproc := h.owns_process hpid ha'
  have hfew := h.apart pid hpid
  omega

theorem regionsApart (h : RegionInv k) : k.RegionsApart := by
  intro o o' a hlive hlive' hne ha ha'
  cases o with
  | heap => exact h.heap_apart hne.symm hlive' ha ha'
  | task i =>
      cases o' with
      | heap => exact h.heap_apart hne hlive ha' ha
      | task j =>
          have hi := h.owns_task hlive ha
          have hj := h.owns_task hlive' ha'
          exact hne (congrArg Owner.task (by omega))
      | process pid => exact h.task_process_apart hlive hlive' ha ha'
  | process pid =>
      cases o' with
      | heap => exact h.heap_apart hne hlive ha' ha
      | task j => exact h.task_process_apart hlive' hlive ha' ha
      | process q =>
          have hp := h.owns_process hlive ha
          have hq := h.owns_process hlive' ha'
          exact hne (congrArg Owner.process (by omega))

theorem boot (mach : σ) (s : Scheduler) (p : Processes) : RegionInv (KernelState.boot mach s p) := by
  have hnone : ∀ pid, pid ∉ p.init.live := by
    intro pid
    rw [Processes.init_live]
    simp
  refine ⟨⟨rfl, Nat.le_refl _, kernelBase_aligned, ?_⟩, ?_, ?_, ?_⟩
  · rintro limit (rfl | ⟨o, hne, hlive, rfl⟩)
    · exact (by decide : kernelBase ≤ heapLimit + 1)
    · cases o with
      | heap => exact absurd rfl hne
      | task i => exact absurd hlive (Nat.not_lt_zero i)
      | process pid => exact absurd hlive (hnone pid)
  · intro i hi
    exact absurd hi (Nat.not_lt_zero i)
  · intro pid hpid
    exact absurd hpid (hnone pid)
  · intro pid hpid
    exact absurd hpid (hnone pid)

/-! ## Calls -/

variable {k' : KernelState σ} {s : MemState σ}

theorem heapBelow_mem {limit : Nat} (h : HeapBelow { k with mem := s } limit) :
    HeapBelow k limit := by
  rcases h with rfl | ⟨o, hne, hlive, rfl⟩
  · exact Or.inl rfl
  · cases o with
    | heap => exact absurd rfl hne
    | task i => exact Or.inr ⟨.task i, hne, hlive, rfl⟩
    | process pid => exact Or.inr ⟨.process pid, hne, hlive, rfl⟩

theorem with_mem (h : RegionInv k) (hs : HeapOk k s) : RegionInv { k with mem := s } :=
  ⟨⟨hs.start, hs.base, hs.aligned, fun limit hlimit => hs.below limit (heapBelow_mem hlimit)⟩,
    h.tasks, h.procs, h.apart⟩

theorem kmalloc {size : Nat} (h : RegionInv k) (hcond : Unclaimed M k (.kmalloc size))
    (hs : k.step M (.kmalloc size) = some k') :
    RegionInv k' ∧ Undisturbed ⟨k, .kmalloc size, k'⟩ := by
  obtain ⟨⟨r, s'⟩, hrun, rfl⟩ := Option.map_eq_some_iff.mp hs
  have hR : ∀ a, (∃ o, k.Live o ∧ ¬ ActsOn (.kmalloc size) o ∧ k.Owns o a) →
      ∃ limit, HeapBelow k limit ∧ limit ≤ a := by
    rintro a ⟨o, hlive, hother, ha⟩
    have hne : o ≠ .heap := by
      rintro rfl
      exact hother trivial
    exact ⟨_, Or.inr ⟨o, hne, hlive, rfl⟩, ha.1⟩
  obtain ⟨hok, hadds⟩ := h.heap.kmalloc (fun _ hlimit => h.low_limit hlimit) hR hcond hrun
  exact ⟨h.with_mem hok, hadds⟩

theorem kfree {ptr : Nat} (h : RegionInv k) (hs : k.step M (.kfree ptr) = some k') :
    RegionInv k' ∧ Undisturbed ⟨k, .kfree ptr, k'⟩ := by
  obtain ⟨s', hrun, rfl⟩ := Option.map_eq_some_iff.mp hs
  have hstored := kfree_stored hrun
  exact ⟨h.with_mem (h.heap.stored hstored), hstored.adds⟩

theorem next_task_free (h : RegionInv k) {entry : Nat} (hcond : Unclaimed M k (.addTask entry))
    (hroom : k.sched.taskCount < maxTasks) (hlo : kernelBase + 0x10000 * k.sched.taskCount ≤ a)
    (hhi : a < kernelBase + 0x10000 * (k.sched.taskCount + 1)) (hlive : k.Live o) : ¬ k.Owns o a := by
  obtain ⟨hheap, hprocs⟩ := hcond hroom
  intro ha
  cases o with
  | heap =>
      have hend : a < k.mem.heapEnd := ha.2
      unfold stackTop at hheap
      omega
  | task i =>
      have hi : i < k.sched.taskCount := hlive
      have htask := h.owns_task hi ha
      omega
  | process pid =>
      have hproc := h.owns_process hlive ha
      have hfew := h.apart pid hlive
      have hnext := hprocs pid hlive
      omega

theorem taskStack_adds (h : RegionInv k) {entry : Nat} (hcond : Unclaimed M k (.addTask entry))
    (hroom : k.sched.taskCount < maxTasks) {R : Nat → Prop}
    (hR : ∀ a, R a → ∃ o, k.Live o ∧ k.Owns o a) (n : Nat) (hn : n ≤ 16) :
    Adds (Spares R) k.mem (mapStack M 0x07 (stackTop k.sched.taskCount - 0x10000) 0 n k.mem) := by
  refine Adds.mono (mapStack_adds 0x07 (stackTop k.sched.taskCount - 0x10000) 0 n k.mem) ?_
  rintro e ⟨j, p, r, hj, rfl⟩
  rintro - a hpage ha
  obtain ⟨o, hlive, ha⟩ := hR a ha
  have hbase : stackTop k.sched.taskCount - 0x10000 = kernelBase + 0x10000 * k.sched.taskCount := by
    unfold stackTop
    omega
  have haligned := kernelBase_aligned
  have htop : kernelBase + 0x10000 * 64 < 2 ^ 64 := by decide
  have hfew : k.sched.taskCount < 64 := hroom
  rw [hbase, Nat.mod_eq_of_lt (by omega)] at hpage
  exact h.next_task_free hcond hroom (by omega) (by omega) hlive ha

theorem addTask {entry : Nat} (h : RegionInv k) (hcond : Unclaimed M k (.addTask entry))
    (hs : k.step M (.addTask entry) = some k') :
    RegionInv k' ∧ Undisturbed ⟨k, .addTask entry, k'⟩ := by
  obtain rfl := Option.some.inj hs
  unfold KernelState.addTask
  by_cases hfull : k.sched.taskCount ≥ maxTasks
  · rw [if_pos hfull]
    exact ⟨h, Adds.refl _⟩
  · rw [if_neg hfull]
    have hroom := Nat.not_le.mp hfull
    obtain ⟨hheap, hprocs⟩ := hcond hroom
    have hcount := Scheduler.addTask_count hroom entry
    have hcontext := Scheduler.addTask_context hroom entry
    have hadds : Adds (Spares fun a => ∃ o, k.Live o ∧ ¬ ActsOn (.addTask entry) o ∧ k.Owns o a)
        k.mem (mapStack M 0x07 (stackTop k.sched.taskCount - 0x10000) 0 16 k.mem) := by
      refine h.taskStack_adds hcond hroom ?_ 16 (Nat.le_refl 16)
      rintro a ⟨o, hlive, -, ha⟩
      exact ⟨o, hlive, ha⟩
    obtain ⟨hstart, hend⟩ := mapStack_vars (M := M) 0x07 (stackTop k.sched.taskCount - 0x10000) 0 16 k.mem
    generalize mapStack M 0x07 (stackTop k.sched.taskCount - 0x10000) 0 16 k.mem = s'
      at hadds hstart hend
    have htask : ∀ i, i < k.sched.taskCount + 1 →
        ((k.sched.addTask entry).tasks i).context.rsp = stackTop i := by
      intro i hi
      by_cases hnew : i = k.sched.taskCount
      · rw [hnew, hcontext]
        rfl
      · have hold : i < k.sched.taskCount := by omega
        rw [Scheduler.addTask_other hold]
        exact h.tasks i hold
    refine ⟨⟨h.heap.kept hstart hend ?_, ?_, h.procs, ?_⟩, hadds⟩
    · rintro limit (rfl | ⟨o, hne, hlive, rfl⟩)
      · exact Or.inl (Or.inl rfl)
      · cases o with
        | heap => exact absurd rfl hne
        | process pid =>
            have hold : pid ∈ k.procs.live := hlive
            dsimp only [KernelState.regionStart]
            exact Or.inl (Or.inr ⟨.process pid, hne, hold, rfl⟩)
        | task i =>
            have hi : i < (k.sched.addTask entry).taskCount := hlive
            rw [hcount] at hi
            dsimp only [KernelState.regionStart]
            by_cases hnew : i = k.sched.taskCount
            · rw [htask i hi, hnew]
              exact Or.inr hheap
            · have hold : i < k.sched.taskCount := by omega
              rw [Scheduler.addTask_other hold]
              exact Or.inl (Or.inr ⟨.task i, hne, hold, rfl⟩)
    · intro i hi
      dsimp only at hi
      rw [hcount] at hi
      exact htask i hi
    · intro pid hpid
      have hfew := h.apart pid hpid
      have hnext := hprocs pid hpid
      dsimp only
      rw [hcount]
      omega

theorem next_stack_free (h : RegionInv k) {entry pid : Nat} {name : List UInt8}
    (hcond : Unclaimed M k (.processCreate entry name)) (hslot : k.procs.slot = some pid)
    (hlo : kernelBase + 0x100000 * (pid + 1) - 8192 ≤ a) (hhi : a < kernelBase + 0x100000 * (pid + 1))
    (hlive : k.Live o) : ¬ k.Owns o a := by
  obtain ⟨hheap, htasks⟩ := hcond pid hslot
  intro ha
  cases o with
  | heap =>
      have hend : a < k.mem.heapEnd := ha.2
      unfold kernelStackTop at hheap
      omega
  | task i =>
      have hi : i < k.sched.taskCount := hlive
      have htask := h.owns_task hi ha
      omega
  | process q =>
      have hproc := h.owns_process hlive ha
      have hsame : q = pid := by omega
      subst hsame
      exact (Processes.mem_live.mp hlive).2 (slot_bounds hslot).2.2

theorem low_page_free (h : RegionInv k) {v : Nat} (hv : v + 4096 ≤ kernelBase)
    (hpage : a / 4096 = v / 4096) (hlive : k.Live o) : ¬ k.Owns o a := by
  intro ha
  have hlow := h.owned_above hlive ha
  omega

theorem processPages_vars (s : MemState σ) (pid : Nat) :
    (KernelState.processPages M s pid).heapStart = s.heapStart ∧
      (KernelState.processPages M s pid).heapEnd = s.heapEnd := by
  obtain ⟨hstart, hend⟩ := mapStack_vars (M := M) 0x07 (kernelStackTop pid - 8192) 0 2 s
  obtain ⟨hstart', hend'⟩ := mapStack_vars (M := M) (0x07 ||| pageUser) (userStackTop pid - 8192) 0 2
    (mapStack M 0x07 (kernelStackTop pid - 8192) 0 2 s)
  exact ⟨hstart'.trans hstart, hend'.trans hend⟩

theorem processPages_adds (h : RegionInv k) {entry pid : Nat} {name : List UInt8}
    (hcond : Unclaimed M k (.processCreate entry name)) (hslot : k.procs.slot = some pid)
    {R : Nat → Prop} (hR : ∀ a, R a → ∃ o, k.Live o ∧ k.Owns o a) :
    Adds (Spares R) k.mem (KernelState.processPages M k.mem pid) := by
  have hpid := (slot_bounds hslot).2.1
  have haligned := kernelBase_aligned
  have htop : kernelBase + 0x100000 * 64 < 2 ^ 64 := by decide
  have hlow : 0x200000000 ≤ kernelBase := by decide
  unfold maxProcesses at hpid
  refine Adds.trans (Adds.mono (mapStack_adds 0x07 (kernelStackTop pid - 8192) 0 2 k.mem) ?_)
    (Adds.mono (mapStack_adds (0x07 ||| pageUser) (userStackTop pid - 8192) 0 2 _) ?_)
  · rintro e ⟨j, p, r, hj, rfl⟩
    rintro - a hpage ha
    obtain ⟨o, hlive, ha⟩ := hR a ha
    have hbase : kernelStackTop pid = kernelBase + 0x100000 * (pid + 1) := by
      rw [kernelStackTop, Nat.mul_comm]
    rw [hbase, Nat.mod_eq_of_lt (by omega)] at hpage
    exact h.next_stack_free hcond hslot (by omega) (by omega) hlive ha
  · rintro e ⟨j, p, r, hj, rfl⟩
    rintro - a hpage ha
    obtain ⟨o, hlive, ha⟩ := hR a ha
    unfold userStackTop at hpage
    rw [Nat.mod_eq_of_lt (by omega)] at hpage
    exact h.low_page_free (by omega) hpage hlive ha

theorem processCreate {entry : Nat} {name : List UInt8} (h : RegionInv k)
    (hcond : Unclaimed M k (.processCreate entry name))
    (hs : k.step M (.processCreate entry name) = some k') :
    RegionInv k' ∧ Undisturbed ⟨k, .processCreate entry name, k'⟩ := by
  obtain rfl := Option.some.inj hs
  unfold KernelState.processCreate
  cases hslot : k.procs.slot with
  | none => exact ⟨h, Adds.refl _⟩
  | some pid =>
      obtain ⟨hheap, htasks⟩ := hcond pid hslot
      obtain ⟨hstart, hend⟩ := processPages_vars (M := M) k.mem pid
      have hlive := Processes.create_live k.procs (slot_bounds hslot).2.1 entry name
      have hstack : ((k.procs.create pid entry name).processes pid).kernelStack = kernelStackTop pid :=
        (Processes.create_self k.procs entry name).2.2.1
      have hother : ∀ q, q ≠ pid → ((k.procs.create pid entry name).processes q).kernelStack =
          (k.procs.processes q).kernelStack :=
        fun q hq => (Processes.create_other k.procs entry name hq).2.2.2.2
      have hadds : Adds (Spares fun a =>
          ∃ o, k.Live o ∧ ¬ ActsOn (.processCreate entry name) o ∧ k.Owns o a) k.mem
          (KernelState.processPages M k.mem pid) := by
        apply h.processPages_adds hcond hslot
        rintro a ⟨o, holive, -, ha⟩
        exact ⟨o, holive, ha⟩
      dsimp only
      generalize KernelState.processPages M k.mem pid = s' at hadds hstart hend
      refine ⟨⟨h.heap.kept hstart hend ?_, h.tasks, ?_, ?_⟩, hadds⟩
      · rintro limit (rfl | ⟨o, hne, holive, rfl⟩)
        · exact Or.inl (Or.inl rfl)
        · cases o with
          | heap => exact absurd rfl hne
          | task i =>
              have hold : i < k.sched.taskCount := holive
              dsimp only [KernelState.regionStart]
              exact Or.inl (Or.inr ⟨.task i, hne, hold, rfl⟩)
          | process q =>
              dsimp only [KernelState.regionStart]
              by_cases hq : q = pid
              · rw [hq, hstack]
                exact Or.inr hheap
              · have hold : q ∈ k.procs.live := by
                  have hmem : q ∈ (k.procs.create pid entry name).live := holive
                  rw [hlive] at hmem
                  exact (Finset.mem_insert.mp hmem).resolve_left hq
                rw [hother q hq]
                exact Or.inl (Or.inr ⟨.process q, hne, hold, rfl⟩)
      · intro q hmem
        dsimp only at hmem ⊢
        rw [hlive] at hmem
        rcases Finset.mem_insert.mp hmem with rfl | hold
        · exact hstack
        · by_cases hq : q = pid
          · rw [hq]
            exact hstack
          · rw [hother q hq]
            exact h.procs q hold
      · intro q hmem
        dsimp only at hmem
        rw [hlive] at hmem
        rcases Finset.mem_insert.mp hmem with rfl | hold
        · exact htasks
        · exact h.apart q hold

theorem processExit {pid : Nat} (h : RegionInv k) (hs : k.step M (.processExit pid) = some k') :
    RegionInv k' ∧ Undisturbed ⟨k, .processExit pid, k'⟩ := by
  obtain rfl := Option.some.inj hs
  have hkept : ∀ q, ((k.procs.exit pid).processes q).kernelStack = (k.procs.processes q).kernelStack ∧
      (q ∈ (k.procs.exit pid).live → q ∈ k.procs.live) := by
    intro q
    rw [Processes.mem_live, Processes.mem_live]
    unfold Processes.exit
    split
    · exact ⟨rfl, id⟩
    · by_cases hq : q = pid
      · subst hq
        simp
      · simp [hq]
  refine ⟨⟨h.heap.kept rfl rfl ?_, h.tasks, ?_, ?_⟩, Adds.refl _⟩
  · rintro limit (rfl | ⟨o, hne, hlive, rfl⟩)
    · exact Or.inl (Or.inl rfl)
    · cases o with
      | heap => exact absurd rfl hne
      | task i => exact Or.inl (Or.inr ⟨.task i, hne, hlive, rfl⟩)
      | process q =>
          dsimp only [KernelState.regionStart]
          rw [(hkept q).1]
          exact Or.inl (Or.inr ⟨.process q, hne, (hkept q).2 hlive, rfl⟩)
  · intro q hq
    rw [(hkept q).1]
    exact h.procs q ((hkept q).2 hq)
  · intro q hq
    exact h.apart q ((hkept q).2 hq)

theorem enterUserMode (h : RegionInv k) (hs : k.step M .enterUserMode = some k') :
    RegionInv k' ∧ Undisturbed ⟨k, .enterUserMode, k'⟩ := by
  obtain rfl := Option.some.inj hs
  unfold KernelState.enterUserMode
  have htrace := alloc_trace k.mem
  have hstart : k.mem.allocPhysicalPage.2.heapStart = k.mem.heapStart := by
    simp only [MemState.allocPhysicalPage]
  have hend : k.mem.allocPhysicalPage.2.heapEnd = k.mem.heapEnd := by
    simp only [MemState.allocPhysicalPage]
  generalize k.mem.allocPhysicalPage.2 = s at htrace hstart hend
  have hvars := mapPages_vars (M := M) s (pagePresent ||| pageWritable ||| pageUser) 0x100000000 0 2
  have hadds := mapPages_adds (M := M) (pagePresent ||| pageWritable ||| pageUser) 0x100000000 0 2 s
  generalize (s.mapPages M (pagePresent ||| pageWritable ||| pageUser) 0x100000000 0 2).2 = s'
    at hvars hadds
  have hstart' : s'.heapStart = k.mem.heapStart := by rw [hvars, ← hstart]
  have hend' : s'.heapEnd = k.mem.heapEnd := by rw [hvars, ← hend]
  have hlow : 0x200000000 ≤ kernelBase := by decide
  refine ⟨h.with_mem (h.heap.kept hstart' hend' fun _ hlimit => Or.inl hlimit), ?_⟩
  refine Adds.trans (Adds.of_trace htrace) (Adds.mono hadds ?_)
  rintro e ⟨j, p, r, hj, rfl, -⟩
  rintro - a hpage ⟨o, hlive, -, ha⟩
  rw [Nat.mod_eq_of_lt (by omega)] at hpage
  exact h.low_page_free (by omega) hpage hlive ha

theorem step {call : Call} (h : RegionInv k) (hcond : Unclaimed M k call)
    (hs : k.step M call = some k') : RegionInv k' ∧ Undisturbed ⟨k, call, k'⟩ := by
  cases call with
  | kmalloc size => exact h.kmalloc hcond hs
  | kfree ptr => exact h.kfree hs
  | addTask entry => exact h.addTask hcond hs
  | processCreate entry name => exact h.processCreate hcond hs
  | processExit pid => exact h.processExit hs
  | enterUserMode => exact h.enterUserMode hs

end RegionInv

/-- In a run whose calls all find their addresses unused, the regions stay apart
and no call maps a page of another owner again. -/
theorem regions_apart_of_run (mach : σ) (s : Scheduler) (p : Processes)
    {ts : List (Step (KernelState σ) Call)} {k : KernelState σ}
    (hrun : Trace (KernelState.step M) (KernelState.boot mach s p) ts k)
    (hcond : ∀ t ∈ ts, Unclaimed M t.before t.op) :
    k.RegionsApart ∧ ∀ t ∈ ts, t.before.RegionsApart ∧ t.after.RegionsApart ∧ Undisturbed t := by
  have hboot := RegionInv.boot mach s p
  generalize KernelState.boot mach s p = k₀ at hrun hboot
  induction hrun with
  | nil => exact ⟨hboot.regionsApart, by simp⟩
  | cons head _ ih =>
      rw [List.forall_mem_cons] at hcond ⊢
      obtain ⟨hnext, hquiet⟩ := hboot.step hcond.1 head
      obtain ⟨hlast, hrest⟩ := ih hcond.2 hnext
      exact ⟨hlast, ⟨hboot.regionsApart, hnext.regionsApart, hquiet⟩, hrest⟩

/-! ### One process and many tasks -/

theorem exists_tasks (k : KernelState σ) (entry n : Nat) (hroom : k.sched.taskCount + n ≤ maxTasks)
    (hplaced : ∀ i, i < k.sched.taskCount → (k.sched.tasks i).context.rsp = stackTop i) :
    ∃ ts k', Trace (KernelState.step M) k ts k' ∧ ts.map (·.op) = List.replicate n (.addTask entry) ∧
      k'.procs = k.procs ∧ k'.sched.taskCount = k.sched.taskCount + n ∧
      ∀ i, i < k'.sched.taskCount → (k'.sched.tasks i).context.rsp = stackTop i := by
  induction n generalizing k with
  | zero => exact ⟨[], k, .nil k, rfl, rfl, rfl, hplaced⟩
  | succ n ih =>
      have hfree : k.sched.taskCount < maxTasks := by omega
      have hadd : k.addTask M entry = { k with
          sched := k.sched.addTask entry
          mem := mapStack M 0x07 (stackTop k.sched.taskCount - 0x10000) 0 16 k.mem } :=
        if_neg (Nat.not_le.mpr hfree)
      have hsched : (k.addTask M entry).sched = k.sched.addTask entry := by rw [hadd]
      have hprocs : (k.addTask M entry).procs = k.procs := by rw [hadd]
      have hcount : (k.addTask M entry).sched.taskCount = k.sched.taskCount + 1 := by
        rw [hsched, Scheduler.addTask_count hfree]
      obtain ⟨ts, k', hrun, hops, hsame, htotal, hall⟩ := ih (k.addTask M entry) (by omega) (by
        intro i hi
        rw [hsched]
        by_cases hnew : i = k.sched.taskCount
        · rw [hnew, Scheduler.addTask_context hfree]
          rfl
        · rw [Scheduler.addTask_other (by omega)]
          exact hplaced i (by omega))
      have hhead : k.step M (.addTask entry) = some (k.addTask M entry) := rfl
      refine ⟨_, k', .cons hhead hrun, ?_, hsame.trans hprocs, by omega, hall⟩
      rw [List.map_cons, hops]
      rfl

theorem booted_slot : booted.procs.slot = some 1 := by decide

def oneProcess : PagedKernel := (booted.processCreate paged 0x1000 [0x70]).2

theorem oneProcess_eq : oneProcess = { booted with
    mem := KernelState.processPages paged booted.mem 1
    procs := booted.procs.create 1 0x1000 [0x70] } := by
  unfold oneProcess KernelState.processCreate
  rw [booted_slot]

theorem oneProcess_live : 1 ∈ oneProcess.procs.live := by
  rw [oneProcess_eq]
  dsimp only
  rw [Processes.create_live _ (by decide)]
  exact Finset.mem_insert_self _ _

/-- The stack of task 31 is where the kernel stack of process 1 is. -/
theorem task_on_process_stack : ∃ ts k, Trace (KernelState.step paged) booted ts k ∧
    ts.map (·.op) = .processCreate 0x1000 [0x70] :: List.replicate 32 (.addTask 0x2000) ∧
    ¬ k.RegionsApart := by
  have hnone : oneProcess.sched.taskCount = 0 := by
    rw [oneProcess_eq]
    rfl
  obtain ⟨ts, k, hrun, hops, hprocs, hcount, hall⟩ := exists_tasks paged oneProcess 0x2000 32
    (by rw [hnone]; decide) (by rw [hnone]; omega)
  rw [hnone] at hcount
  have hhead : booted.step paged (.processCreate 0x1000 [0x70]) = some oneProcess := rfl
  refine ⟨_, k, .cons hhead hrun, by rw [List.map_cons, hops], fun hapart => ?_⟩
  have hlive : k.Live (.process 1) := by
    show 1 ∈ k.procs.live
    rw [hprocs]
    exact oneProcess_live
  have hstack : (k.procs.processes 1).kernelStack = kernelStackTop 1 := by
    rw [hprocs, oneProcess_eq]
    exact (Processes.create_self _ _ _).2.2.1
  have htask := hall 31 (by omega)
  apply hapart (.task 31) (.process 1) (kernelStackTop 1 - 1) (by rw [KernelState.Live]; omega) hlive
    (by simp)
  · dsimp only [KernelState.Owns, KernelState.regionStart, KernelState.regionEnd]
    rw [htask]
    decide
  · dsimp only [KernelState.Owns, KernelState.regionStart, KernelState.regionEnd]
    rw [hstack]
    decide

theorem regions_apart_first : ∃ ts k, Trace (KernelState.step paged) booted ts k ∧
    ts.map (·.op) = [.processCreate 0x1000 [0x70], .addTask 0x2000] ∧ k.RegionsApart := by
  have hcount : oneProcess.sched.taskCount = 0 := by
    rw [oneProcess_eq]
    rfl
  have hend : oneProcess.mem.heapEnd = kernelBase := by
    rw [oneProcess_eq]
    exact (RegionInv.processPages_vars booted.mem 1).2
  have hhead : booted.step paged (.processCreate 0x1000 [0x70]) = some oneProcess := rfl
  have hnext : oneProcess.step paged (.addTask 0x2000) = some (oneProcess.addTask paged 0x2000) := rfl
  have hrun := Trace.cons hhead (Trace.cons hnext (Trace.nil _))
  refine ⟨_, _, hrun, rfl, (regions_apart_of_run paged bootMach _ _ hrun ?_).1⟩
  rw [List.forall_mem_cons, List.forall_mem_cons]
  refine ⟨fun pid _ => ⟨?_, ?_⟩, fun _ => ⟨?_, fun pid _ => ?_⟩, by simp⟩
  · show kernelBase ≤ kernelStackTop pid - 8192
    unfold kernelStackTop
    omega
  · show 0 < 16 * (pid + 1)
    omega
  · dsimp only
    rw [hend, hcount]
    decide
  · dsimp only
    rw [hcount]
    omega

end Kaviz.Kernel
