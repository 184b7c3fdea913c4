import Kaviz.Kernel.Creation

/-! # No physical frame is shared

Frames are handed out by a counter that never goes back, in the mapping loops of
`kmalloc`, `scheduler_add_task`, `process_create` and `enter_user_mode`. Some of
the loops give up half-way, some go on after a failure and some map pages that
are mapped already. As long as the counter does not wrap, the pages they leave
mapped are on different frames.
-/

namespace Kaviz.Kernel

open Memory Paging Heap Sched Traces

/-- The operations that take frames, with the loops of `kmalloc` on their own. -/
inductive FrameOp
  | heapPages (base pages : Nat)
  | addTask (entry : Nat)
  | processCreate (entry : Nat) (name : List UInt8)
  | processExit (pid : Nat)
  | enterUserMode

/-- Frames a loop takes that stops at the first failure. -/
def pagesTried (f base : Nat) : Nat → Nat → PagedState → Nat
  | _, 0, _ => 0
  | i, n + 1, s =>
      match s.mapFresh paged ((base + 4096 * i) % 2 ^ 64) f with
      | (true, s) => pagesTried f base (i + 1) n s + 1
      | (false, _) => 1

namespace FrameOp

def step (k : PagedKernel) : FrameOp → Option PagedKernel
  | .heapPages base pages =>
      some { k with mem := (k.mem.mapPages paged heapFlags base 0 pages).2 }
  | .addTask entry => k.step paged (.addTask entry)
  | .processCreate entry name => k.step paged (.processCreate entry name)
  | .processExit pid => k.step paged (.processExit pid)
  | .enterUserMode => k.step paged .enterUserMode

/-- Number of calls of `alloc_physical_page`. -/
def frames (k : PagedKernel) : FrameOp → Nat
  | .heapPages base pages => pagesTried heapFlags base 0 pages k.mem
  | .addTask _ => if k.sched.taskCount ≥ maxTasks then 0 else 16
  | .processCreate _ _ => if k.procs.slot = none then 0 else 4
  | .processExit _ => 0
  | .enterUserMode =>
      1 + pagesTried (pagePresent ||| pageWritable ||| pageUser) 0x100000000 0 2
        k.mem.allocPhysicalPage.2

end FrameOp

/-- The kernel has mapped the page since boot. -/
def Installed (s : PagedState) (n : Nat) : Prop :=
  ∃ v p f, .map v p f 0 ∈ s.trace ∧ pageNumber v = n

/-- The pages mapped since boot are on different frames from 2 MiB on. -/
structure FramesApart (s : PagedState) : Prop where
  aligned : ∀ n p f, Installed s n → s.mach.tables.translate n = some (p, f) → p % 4096 = 0
  above : ∀ n p f, Installed s n → s.mach.tables.translate n = some (p, f) → 0x200000 ≤ p
  distinct : ∀ n m p q f g, Installed s n → Installed s m → n ≠ m →
    s.mach.tables.translate n = some (p, f) → s.mach.tables.translate m = some (q, g) → p ≠ q

/-- `c` frames have been handed out, and the pages mapped since boot are on these. -/
structure Counted (c : Nat) (s : PagedState) : Prop where
  wf : s.mach.tables.WellFormed
  next : s.nextFreePage = 0x200000 + 4096 * c
  below : ∀ n p f, Installed s n → s.mach.tables.translate n = some (p, f) → p < s.nextFreePage
  apart : FramesApart s

section Steps

variable {s : PagedState} {c v f base i n : Nat}

theorem Counted.pagedOk (h : Counted c s) (hc : c < 2 ^ 50) : PagedOk s := by
  have hnext := h.next
  exact ⟨h.wf, by omega, by omega⟩

/-- What is installed after one page: the page itself on the next frame, or an old page. -/
theorem mapFresh_installed (h : Counted c s) (hc : c < 2 ^ 50) (hf : f < 4096) {m q g : Nat}
    (hm : Installed (s.mapFresh paged v f).2 m)
    (htr : (s.mapFresh paged v f).2.mach.tables.translate m = some (q, g)) :
    (m = pageNumber v ∧ q = s.nextFreePage) ∨
      (Installed s m ∧ s.mach.tables.translate m = some (q, g)) := by
  have hnext := h.next
  have hok := h.pagedOk hc
  have hframe : s.allocPhysicalPage.1 = s.nextFreePage := by
    rw [hok.counter.frame, nextFrame]
    omega
  have hnull : s.allocPhysicalPage.1 ≠ 0 := by omega
  have halign : pageAlign s.nextFreePage = s.nextFreePage := pageAlign_of_aligned (by omega)
  rw [Installed, mapFresh_trace s v f hnull, hframe] at hm
  rw [mapFresh_tables, if_neg hnull, hframe] at htr
  obtain ⟨-, hspec⟩ := PageTables.mapPage_spec (v := v) (p := s.nextFreePage) h.wf (by omega) hf
  rw [halign] at hspec
  obtain ⟨v', p', f', hmem, hpage⟩ := hm
  rcases hspec with ⟨hret, hmap⟩ | ⟨hret, hmap⟩
  · rw [hmap, PageMap.update] at htr
    split at htr
    next hsame =>
      have hq : (s.nextFreePage, f ||| pagePresent) = (q, g) := Option.some.inj htr
      exact Or.inl ⟨hsame, (congrArg Prod.fst hq).symm⟩
    next hother =>
      refine Or.inr ⟨⟨v', p', f', ?_, hpage⟩, htr⟩
      rcases List.mem_cons.mp hmem with heq | hmem
      · obtain ⟨hv, -, -, -⟩ := Event.map.inj heq
        rw [hv] at hpage
        exact absurd hpage.symm hother
      · exact hmem
  · rw [hmap] at htr
    refine Or.inr ⟨⟨v', p', f', ?_, hpage⟩, htr⟩
    rcases List.mem_cons.mp hmem with heq | hmem
    · obtain ⟨-, -, -, hzero⟩ := Event.map.inj heq
      rw [hret] at hzero
      cases hzero
    · exact hmem

theorem Counted.mapFresh (h : Counted c s) (hc : c < 2 ^ 50) (hf : f < 4096) :
    Counted (c + 1) (s.mapFresh paged v f).2 := by
  have hnext := h.next
  have hok := h.pagedOk hc
  have hcases := fun {m q g} => mapFresh_installed (v := v) (m := m) (q := q) (g := g) h hc hf
  have hnext' : (s.mapFresh paged v f).2.nextFreePage = s.nextFreePage + 4096 := by
    rw [mapFresh_next, hok.counter.next]
    omega
  refine ⟨(mapFresh_room hok.wf hok.counter hf).1, by rw [hnext']; omega, fun m q g hm htr => ?_, ?_⟩
  · rw [hnext']
    rcases hcases hm htr with ⟨-, rfl⟩ | ⟨hm, htr⟩
    · omega
    · have hlt := h.below m q g hm htr
      omega
  · refine ⟨fun m q g hm htr => ?_, fun m q g hm htr => ?_, fun m m' q q' g g' hm hm' hne htr htr' => ?_⟩
    · rcases hcases hm htr with ⟨-, rfl⟩ | ⟨hm, htr⟩
      · omega
      · exact h.apart.aligned m q g hm htr
    · rcases hcases hm htr with ⟨-, rfl⟩ | ⟨hm, htr⟩
      · omega
      · exact h.apart.above m q g hm htr
    · rcases hcases hm htr with ⟨rfl, rfl⟩ | ⟨hm, htr⟩
      · rcases hcases hm' htr' with ⟨rfl, -⟩ | ⟨hm', htr'⟩
        · exact absurd rfl hne
        · exact Nat.ne_of_gt (h.below m' q' g' hm' htr')
      · rcases hcases hm' htr' with ⟨-, rfl⟩ | ⟨hm', htr'⟩
        · exact Nat.ne_of_lt (h.below m q g hm htr)
        · exact h.apart.distinct m m' q q' g g' hm hm' hne htr htr'

theorem Counted.mapPages (h : Counted c s) (hf : f < 4096)
    (hc : c + pagesTried f base i n s ≤ 2 ^ 50) :
    Counted (c + pagesTried f base i n s) (s.mapPages paged f base i n).2 := by
  induction n generalizing s c i with
  | zero => exact h
  | succ n ih =>
      unfold pagesTried at hc ⊢
      rw [MemState.mapPages]
      cases hfresh : s.mapFresh paged ((base + 4096 * i) % 2 ^ 64) f with
      | mk done s₁ =>
          rw [hfresh] at hc
          cases done with
          | false =>
              have hone := h.mapFresh (v := (base + 4096 * i) % 2 ^ 64) (by dsimp only at hc; omega) hf
              rw [hfresh] at hone
              exact hone
          | true =>
              dsimp only at hc ⊢
              have hone := h.mapFresh (v := (base + 4096 * i) % 2 ^ 64) (by omega) hf
              rw [hfresh] at hone
              rw [Nat.add_comm _ 1, ← Nat.add_assoc]
              exact ih hone (by omega)

theorem Counted.mapStack (h : Counted c s) (hf : f < 4096) (hc : c + n ≤ 2 ^ 50) :
    Counted (c + n) (mapStack paged f base i n s) := by
  induction n generalizing s c i with
  | zero => exact h
  | succ n ih =>
      have hone := h.mapFresh (v := (base + 4096 * i) % 2 ^ 64) (by omega) hf
      have hrest := ih (i := i + 1) hone (by omega)
      rw [Nat.add_right_comm, Nat.add_assoc] at hrest
      exact hrest

theorem Counted.alloc (h : Counted c s) (hc : c < 2 ^ 50) :
    Counted (c + 1) s.allocPhysicalPage.2 := by
  have hnext := h.next
  have hstate : s.allocPhysicalPage.2 = { s with nextFreePage := s.nextFreePage + 4096 } := by
    have hcounter := (h.pagedOk hc).counter.next
    simp only [MemState.allocPhysicalPage] at hcounter ⊢
    rw [hcounter, Nat.mod_eq_of_lt (by omega)]
  rw [hstate]
  refine ⟨h.wf, by dsimp only; omega, fun m q g hm htr => ?_,
    h.apart.aligned, h.apart.above, h.apart.distinct⟩
  exact Nat.lt_of_lt_of_le (h.below m q g hm htr) (Nat.le_add_right _ _)

end Steps

theorem Counted.step {k k' : PagedKernel} {c : Nat} {op : FrameOp} (h : Counted c k.mem)
    (hc : c + op.frames k ≤ 2 ^ 50) (hs : op.step k = some k') :
    Counted (c + op.frames k) k'.mem := by
  cases op with
  | heapPages base pages =>
      obtain rfl := Option.some.inj hs
      exact h.mapPages (by decide) hc
  | addTask entry =>
      obtain rfl := Option.some.inj hs
      dsimp only [FrameOp.frames] at hc ⊢
      unfold KernelState.addTask
      split at hc
      next hfull =>
        rw [if_pos hfull, if_pos hfull]
        exact h
      next hroom =>
        rw [if_neg hroom, if_neg hroom]
        exact h.mapStack (by decide) hc
  | processCreate entry name =>
      obtain rfl := Option.some.inj hs
      dsimp only [FrameOp.frames] at hc ⊢
      unfold KernelState.processCreate
      cases hslot : k.procs.slot with
      | none => exact h
      | some pid =>
          rw [hslot] at hc
          have hkernel : Counted (c + 2)
              (Kernel.mapStack paged 0x07 (kernelStackTop pid - 8192) 0 2 k.mem) :=
            h.mapStack (by decide) (by simp at hc; omega)
          exact hkernel.mapStack (n := 2) (by decide) (by simp at hc; omega)
  | processExit pid =>
      obtain rfl := Option.some.inj hs
      exact h
  | enterUserMode =>
      obtain rfl := Option.some.inj hs
      dsimp only [FrameOp.frames] at hc ⊢
      rw [← Nat.add_assoc]
      exact (h.alloc (by omega)).mapPages (by decide) (by omega)

theorem Counted.trace {k k' : PagedKernel} {c : Nat} {ts : List (Step PagedKernel FrameOp)}
    (h : Counted c k.mem) (hrun : Trace FrameOp.step k ts k')
    (hc : c + (ts.map fun t => t.op.frames t.before).sum ≤ 2 ^ 50) :
    Counted (c + (ts.map fun t => t.op.frames t.before).sum) k'.mem := by
  induction hrun generalizing c with
  | nil => exact h
  | cons head _ ih =>
      rw [List.map_cons, List.sum_cons, ← Nat.add_assoc] at hc ⊢
      exact ih (h.step (Nat.le_trans (Nat.le_add_right _ _) hc) head) hc

theorem boot_counted {mach : PhysState PageTables} (hwf : mach.tables.WellFormed) (s : Scheduler)
    (p : Processes) : Counted 0 (KernelState.boot mach s p).mem := by
  have hnone : ∀ n, ¬ Installed (KernelState.boot mach s p).mem n := by
    rintro n ⟨v, q, f, hmem, -⟩
    exact absurd hmem (List.not_mem_nil)
  exact ⟨hwf, rfl, fun n _ _ hn => absurd hn (hnone n), fun n _ _ hn => absurd hn (hnone n),
    fun n _ _ hn => absurd hn (hnone n), fun n _ _ _ _ _ hn => absurd hn (hnone n)⟩

/-- After every run that takes fewer than 2^50 frames, the pages mapped by it are
on different frames. -/
theorem frames_apart_of_run (mach : PhysState PageTables) (s : Scheduler) (p : Processes)
    (hwf : mach.tables.WellFormed) (ts : List (Step PagedKernel FrameOp)) (k : PagedKernel)
    (hrun : Trace FrameOp.step (KernelState.boot mach s p) ts k)
    (hfew : (ts.map fun t => t.op.frames t.before).sum < 2 ^ 50) : FramesApart k.mem := by
  have hcounted := (boot_counted hwf s p).trace hrun (by omega)
  exact hcounted.apart

theorem processCreate_frames_le (k : PagedKernel) (entry : Nat) (name : List UInt8) :
    (FrameOp.processCreate entry name).frames k ≤ 4 := by
  dsimp only [FrameOp.frames]
  split <;> decide

/-- A process is created, exits and is created again in its old slot. -/
theorem frames_apart_recreated : ∃ ts k, Trace FrameOp.step booted ts k ∧
    ts.map Step.op = [.processCreate 0x1000 [0x70], .processExit 1, .processCreate 0x1000 [0x70]] ∧
      FramesApart k.mem := by
  have hcollect : collect FrameOp.step booted [.processCreate 0x1000 [0x70], .processExit 1,
      .processCreate 0x1000 [0x70]] = some _ := rfl
  obtain ⟨k, hrun⟩ := collect_trace hcollect
  refine ⟨_, k, hrun, rfl, frames_apart_of_run bootMach _ _ bootMach_wellFormed _ k hrun ?_⟩
  simp only [List.map_cons, List.map_nil, List.sum_cons, List.sum_nil]
  refine Nat.lt_of_le_of_lt (m := 4 + (0 + (4 + 0))) ?_ (by decide)
  exact Nat.add_le_add (processCreate_frames_le _ _ _)
    (Nat.add_le_add (Nat.le_refl 0) (Nat.add_le_add (processCreate_frames_le _ _ _) (Nat.le_refl 0)))

end Kaviz.Kernel
