import Kaviz.Lib.Traces
import Kaviz.Kernel.Growth
import Kaviz.Memory.Physical

/-! # Stack pages and the bootstrap pool

`scheduler_add_task` and `process_create` go on when `map_page` fails. All pages
of one stack lie below one page table, so either the pool has the tables that
are missing on their common path and every page is mapped, or it has not and
none is. The answer depends on the tables all earlier calls have used up.
-/

namespace Kaviz.Kernel

open Memory Paging Heap Sched Traces

abbrev paged : Machine (PhysState PageTables) := physical tableMapper

abbrev PagedState := MemState (PhysState PageTables)

theorem paged_mapPage (s : PhysState PageTables) (v p f : Nat) : paged.mapPage s v p f =
    ((s.tables.mapPage v p f).1, { s with tables := (s.tables.mapPage v p f).2 }) := rfl

/-- The pool has the tables missing on the path of a page. -/
def Room (t : PageTables) (n : Nat) : Prop := t.missingTables n ≤ t.freeTables

def nextFrame (s : PagedState) (i : Nat) : Nat := (s.nextFreePage + 4096 * i) % 2 ^ 64

/-- `base` is a page address, and `n` pages from it on share one page table. -/
structure OneTable (base n : Nat) : Prop where
  aligned : base % 4096 = 0
  bound : base + 4096 * n ≤ 2 ^ 64
  table : base / 4096 % 512 + n ≤ 512

structure CounterOk (s : PagedState) : Prop where
  aligned : s.nextFreePage % 4096 = 0
  bound : s.nextFreePage < 2 ^ 64

/-! ## One page -/

section Page

variable {s : PagedState} {v f : Nat}

theorem CounterOk.frame (h : CounterOk s) : s.allocPhysicalPage.1 = nextFrame s 0 := by
  have hal := h.aligned
  have hbd := h.bound
  simp only [MemState.allocPhysicalPage, nextFrame, pageAlign]
  omega

theorem CounterOk.next (h : CounterOk s) :
    s.allocPhysicalPage.2.nextFreePage = (s.nextFreePage + 4096) % 2 ^ 64 := by
  have hal := h.aligned
  have hbd := h.bound
  simp only [MemState.allocPhysicalPage, pageAlign]
  omega

theorem mapFresh_next (s : PagedState) (v f : Nat) :
    (s.mapFresh paged v f).2.nextFreePage = s.allocPhysicalPage.2.nextFreePage := by
  rw [mapFresh_eq]
  split
  · rfl
  · rfl

theorem mapFresh_tables (s : PagedState) (v f : Nat) :
    (s.mapFresh paged v f).2.mach.tables =
      if s.allocPhysicalPage.1 = 0 then s.mach.tables
      else (s.mach.tables.mapPage v s.allocPhysicalPage.1 f).2 := by
  rw [mapFresh_eq, paged_mapPage]
  by_cases hnull : s.allocPhysicalPage.1 = 0
  · rw [if_pos hnull, if_pos hnull, alloc_mach]
  · rw [if_neg hnull, if_neg hnull]

theorem mapFresh_trace (s : PagedState) (v f : Nat) (hframe : s.allocPhysicalPage.1 ≠ 0) :
    (s.mapFresh paged v f).2.trace = .map v s.allocPhysicalPage.1 f
      (s.mach.tables.mapPage v s.allocPhysicalPage.1 f).1 :: s.trace := by
  rw [mapFresh_eq, paged_mapPage, if_neg hframe]

theorem mapFresh_flag (s : PagedState) (v f : Nat) :
    if s.allocPhysicalPage.1 = 0 then
      (s.mapFresh paged v f).1 = false ∧ (s.mapFresh paged v f).2.trace = s.trace
    else (s.mapFresh paged v f).1 =
      decide ((s.mach.tables.mapPage v s.allocPhysicalPage.1 f).1 = 0) := by
  rw [mapFresh_eq, paged_mapPage]
  by_cases hnull : s.allocPhysicalPage.1 = 0
  · rw [if_pos hnull, if_pos hnull]
    exact ⟨rfl, alloc_trace s⟩
  · rw [if_neg hnull, if_neg hnull]

theorem CounterOk.mapFresh (h : CounterOk s) : CounterOk (s.mapFresh paged v f).2 := by
  have hal := h.aligned
  constructor
  · rw [mapFresh_next, h.next]
    omega
  · rw [mapFresh_next, h.next]
    exact Nat.mod_lt _ (by decide)

theorem nextFrame_mapFresh (h : CounterOk s) (i : Nat) :
    nextFrame (s.mapFresh paged v f).2 i = nextFrame s (i + 1) := by
  unfold nextFrame
  rw [mapFresh_next, h.next]
  omega

end Page

theorem OneTable.page {base n i : Nat} (h : OneTable base n) (hi : i < n) :
    (base + 4096 * i) % 2 ^ 64 = base + 4096 * i ∧
      pageNumber (base + 4096 * i) = pageNumber base + i ∧
      tablePath (pageNumber (base + 4096 * i)) = tablePath (pageNumber base) := by
  have hal := h.aligned
  have hbd := h.bound
  have htab := h.table
  have hpage : pageNumber (base + 4096 * i) = pageNumber base + i := by
    unfold pageNumber
    omega
  refine ⟨Nat.mod_eq_of_lt (by omega), hpage, ?_⟩
  rw [hpage]
  simp only [tablePath, pageNumber, List.cons.injEq, and_true]
  omega

/-! ## A stack -/

/-- `n` pages from `lo` on backed by frames, where the frame is not `NULL`. -/
def fillPages (m : PageMap) (lo n f : Nat) (frame : Nat → Nat) : PageMap := fun k =>
  if lo ≤ k ∧ k < lo + n ∧ frame (k - lo) ≠ 0 then some (frame (k - lo), f) else m k

theorem fillPages_zero (m : PageMap) (lo f : Nat) (frame : Nat → Nat) :
    fillPages m lo 0 f frame = m := by
  funext k
  exact if_neg (by omega)

theorem fillPages_succ (m : PageMap) (lo n f : Nat) (frame : Nat → Nat) :
    fillPages m lo (n + 1) f frame =
      fillPages (if frame 0 = 0 then m else PageMap.update m lo (some (frame 0, f))) (lo + 1) n f
        (fun i => frame (i + 1)) := by
  funext k
  unfold fillPages
  by_cases hk : k = lo
  · subst hk
    rw [if_neg (show ¬ (k + 1 ≤ k ∧ _) by omega), Nat.sub_self]
    by_cases hzero : frame 0 = 0
    · simp [hzero]
    · simp [hzero, PageMap.update]
  · have hold : (if frame 0 = 0 then m else PageMap.update m lo (some (frame 0, f))) k = m k := by
      split
      · rfl
      · exact if_neg hk
    rw [hold]
    by_cases hin : lo + 1 ≤ k ∧ k < lo + 1 + n
    · have hsub : k - lo = k - (lo + 1) + 1 := by omega
      simp only [hsub, show lo ≤ k by omega, show k < lo + (n + 1) by omega, hin, true_and]
    · rw [if_neg (by omega), if_neg (by omega)]

section Stack

variable {s : PagedState} {t : PageTables} {v f base n i total : Nat}

theorem room_congr {m : Nat} (h : tablePath n = tablePath m) : Room t n ↔ Room t m := by
  unfold Room PageTables.missingTables
  rw [h]

/-- One page: mapped to the next frame if there is room, and nothing otherwise. -/
theorem mapFresh_room (hwf : s.mach.tables.WellFormed) (hc : CounterOk s) (hf : f < 4096) :
    (s.mapFresh paged v f).2.mach.tables.WellFormed ∧
      (Room s.mach.tables (pageNumber v) →
        Room (s.mapFresh paged v f).2.mach.tables (pageNumber v) ∧
          (s.mapFresh paged v f).2.mach.tables.translate =
            if nextFrame s 0 = 0 then s.mach.tables.translate
            else PageMap.update s.mach.tables.translate (pageNumber v)
              (some (nextFrame s 0, f ||| pagePresent))) ∧
      (¬ Room s.mach.tables (pageNumber v) →
        ¬ Room (s.mapFresh paged v f).2.mach.tables (pageNumber v) ∧
          (s.mapFresh paged v f).2.mach.tables.translate = s.mach.tables.translate) := by
  have hframe : nextFrame s 0 < 2 ^ 64 := Nat.mod_lt _ (by decide)
  have halign : pageAlign (nextFrame s 0) = nextFrame s 0 := by
    have hal := hc.aligned
    apply pageAlign_of_aligned
    unfold nextFrame
    omega
  rw [mapFresh_tables, hc.frame]
  by_cases hnull : nextFrame s 0 = 0
  · rw [if_pos hnull, if_pos hnull]
    exact ⟨hwf, fun hroom => ⟨hroom, rfl⟩, fun hroom => ⟨hroom, rfl⟩⟩
  · rw [if_neg hnull, if_neg hnull]
    obtain ⟨hwf', hcases⟩ := PageTables.mapPage_spec (v := v) hwf hframe hf
    rw [halign] at hcases
    refine ⟨hwf', fun hroom => ?_, fun hroom => ?_⟩
    · have hok := (PageTables.mapPage_ok_iff (p := nextFrame s 0) (f := f) hwf).mpr hroom
      obtain ⟨hzero, -, -⟩ := PageTables.mapPage_supplied hwf hframe hf hroom
      refine ⟨Nat.le_trans (Nat.le_of_eq hzero) (Nat.zero_le _), ?_⟩
      rcases hcases with ⟨-, htr⟩ | ⟨hret, -⟩
      · exact htr
      · rw [hok] at hret
        cases hret
    · have hstarved := PageTables.mapPage_starved (p := nextFrame s 0) (f := f) hwf hroom
      refine ⟨Nat.not_le.mpr hstarved, ?_⟩
      rcases hcases with ⟨hret, -⟩ | ⟨-, htr⟩
      · exact absurd ((PageTables.mapPage_ok_iff hwf).mp hret) hroom
      · exact htr

theorem mapStack_room (hone : OneTable base total) (hi : i + n ≤ total)
    (hwf : s.mach.tables.WellFormed) (hc : CounterOk s) (hf : f < 4096) :
    (mapStack paged f base i n s).mach.tables.WellFormed ∧
      CounterOk (mapStack paged f base i n s) ∧
      (Room s.mach.tables (pageNumber base) →
        (mapStack paged f base i n s).mach.tables.translate =
          fillPages s.mach.tables.translate (pageNumber base + i) n (f ||| pagePresent)
            (nextFrame s)) ∧
      (¬ Room s.mach.tables (pageNumber base) →
        (mapStack paged f base i n s).mach.tables.translate = s.mach.tables.translate) := by
  induction n generalizing s i with
  | zero => exact ⟨hwf, hc, fun _ => (fillPages_zero _ _ _ _).symm, fun _ => rfl⟩
  | succ n ih =>
      obtain ⟨haddr, hpage, hpath⟩ := hone.page (show i < total by omega)
      obtain ⟨hwf₁, hroom₁, hstarved₁⟩ := mapFresh_room (v := base + 4096 * i) hwf hc hf
      rw [room_congr hpath] at hroom₁ hstarved₁
      rw [room_congr hpath] at hroom₁ hstarved₁
      obtain ⟨hwf', hc', hroom', hstarved'⟩ := ih (s := (s.mapFresh paged (base + 4096 * i) f).2)
        (i := i + 1) (by omega) hwf₁ hc.mapFresh
      rw [mapStack, haddr]
      refine ⟨hwf', hc', fun hroom => ?_, fun hroom => ?_⟩
      · obtain ⟨hmore, htr⟩ := hroom₁ hroom
        have hframes : nextFrame (s.mapFresh paged (base + 4096 * i) f).2 =
            fun j => nextFrame s (j + 1) := funext fun j => nextFrame_mapFresh hc j
        rw [hroom' hmore, htr, hpage, hframes, fillPages_succ, Nat.add_assoc]
      · obtain ⟨hmore, htr⟩ := hstarved₁ hroom
        rw [hstarved' hmore, htr]

/-- Without its page table a page is not mapped. -/
theorem translate_of_starved (h : ¬ Room t n) : t.translate n = none := by
  have hmissing : t.missingTables n ≠ 0 := fun hzero => h (by rw [Room, hzero]; exact Nat.zero_le _)
  have htable : t.tableAt (tablePath n) = none := by
    cases hpt : t.tableAt (tablePath n) with
    | none => rfl
    | some pt => exact absurd (PageTables.missingTables_eq_zero hpt) hmissing
  unfold PageTables.translate
  rw [htable]
  exact ite_self _

theorem fillPages_at {m : PageMap} {lo : Nat} {frame : Nat → Nat} (hi : i < n) :
    fillPages m lo n f frame (lo + i) =
      if frame i ≠ 0 then some (frame i, f) else m (lo + i) := by
  unfold fillPages
  rw [Nat.add_sub_cancel_left]
  simp only [Nat.le_add_right, true_and, show lo + i < lo + n by omega]

theorem fillPages_off {m : PageMap} {lo k : Nat} {frame : Nat → Nat} (h : k < lo ∨ lo + n ≤ k) :
    fillPages m lo n f frame k = m k := if_neg (by omega)

/-- All pages of a stack are good afterwards exactly when there is room and every
page gets a frame, or was good before. -/
theorem mapStack_good_iff {G : Option (Nat × Nat) → Prop} (hnone : ¬ G none)
    (hnew : ∀ p, G (some (p, f ||| pagePresent))) (hn : 0 < n) (hone : OneTable base n)
    (hwf : s.mach.tables.WellFormed) (hc : CounterOk s) (hf : f < 4096) :
    (∀ i, i < n → G ((mapStack paged f base 0 n s).mach.tables.translate (pageNumber base + i))) ↔
      Room s.mach.tables (pageNumber base) ∧
        ∀ i, i < n → nextFrame s i ≠ 0 ∨ G (s.mach.tables.translate (pageNumber base + i)) := by
  obtain ⟨-, -, hroom, hstarved⟩ := mapStack_room hone (Nat.le_of_eq (Nat.zero_add n)) hwf hc hf
  by_cases h : Room s.mach.tables (pageNumber base)
  · simp only [h, true_and]
    refine forall_congr' fun i => forall_congr' fun hi => ?_
    rw [hroom h, Nat.add_zero, fillPages_at hi]
    by_cases hnull : nextFrame s i = 0
    · simp [hnull]
    · simp [hnull, hnew]
  · refine iff_of_false (fun hall => hnone ?_) fun hboth => h hboth.1
    have hfirst := hall 0 hn
    rw [hstarved h, Nat.add_zero, translate_of_starved h] at hfirst
    exact hfirst

theorem mapStack_off {k : Nat} (hone : OneTable base n) (hwf : s.mach.tables.WellFormed)
    (hc : CounterOk s) (hf : f < 4096) (hk : k < pageNumber base ∨ pageNumber base + n ≤ k) :
    (mapStack paged f base 0 n s).mach.tables.translate k = s.mach.tables.translate k := by
  obtain ⟨-, -, hroom, hstarved⟩ := mapStack_room hone (Nat.le_of_eq (Nat.zero_add n)) hwf hc hf
  by_cases h : Room s.mach.tables (pageNumber base)
  · rw [hroom h, Nat.add_zero]
    exact fillPages_off hk
  · rw [hstarved h]

theorem nextFrame_mapStack (hc : CounterOk s) (j : Nat) :
    nextFrame (mapStack paged f base i n s) j = nextFrame s (j + n) := by
  induction n generalizing s i with
  | zero => rfl
  | succ n ih =>
      rw [mapStack, ih hc.mapFresh, nextFrame_mapFresh hc]
      rfl

/-- The tables missing for a page have been taken from the pool, and no others. -/
structure Supplied (t t' : PageTables) (n : Nat) : Prop where
  missing : t'.missingTables n = 0
  free : t'.freeTables + t.missingTables n = t.freeTables
  others : ∀ m, m / 2 ^ 27 % 512 ≠ n / 2 ^ 27 % 512 → t'.missingTables m = t.missingTables m

theorem Supplied.trans {t t' t'' : PageTables} (h : Supplied t t' n) (h' : Supplied t' t'' n) :
    Supplied t t'' n := by
  have hzero := h.missing
  have hfree := h.free
  have hfree' := h'.free
  exact ⟨h'.missing, by omega, fun m hm => (h'.others m hm).trans (h.others m hm)⟩

theorem mapFresh_supplied (hwf : s.mach.tables.WellFormed) (hc : CounterOk s) (hf : f < 4096)
    (hroom : Room s.mach.tables (pageNumber v)) :
    Supplied s.mach.tables (s.mapFresh paged v f).2.mach.tables (pageNumber v) ∨
      (nextFrame s 0 = 0 ∧ (s.mapFresh paged v f).2.mach.tables = s.mach.tables) := by
  rw [mapFresh_tables, hc.frame]
  by_cases hnull : nextFrame s 0 = 0
  · exact Or.inr ⟨hnull, if_pos hnull⟩
  · rw [if_neg hnull]
    obtain ⟨hzero, hfree, hothers⟩ :=
      PageTables.mapPage_supplied hwf (Nat.mod_lt _ (by decide)) hf hroom
    exact Or.inl ⟨hzero, hfree, hothers⟩

/-- The tables of a stack come from the pool unless every frame is `NULL`. -/
theorem mapStack_supplied (hone : OneTable base total) (hi : i + n ≤ total)
    (hwf : s.mach.tables.WellFormed) (hc : CounterOk s) (hf : f < 4096)
    (hroom : Room s.mach.tables (pageNumber base)) :
    Supplied s.mach.tables (mapStack paged f base i n s).mach.tables (pageNumber base) ∨
      ((∀ j, j < n → nextFrame s j = 0) ∧
        (mapStack paged f base i n s).mach.tables = s.mach.tables) := by
  induction n generalizing s i with
  | zero => exact Or.inr ⟨fun j hj => absurd hj (Nat.not_lt_zero j), rfl⟩
  | succ n ih =>
      obtain ⟨haddr, -, hpath⟩ := hone.page (show i < total by omega)
      have hsame : ∀ x : PageTables, x.missingTables (pageNumber (base + 4096 * i)) =
          x.missingTables (pageNumber base) := fun x => by
        unfold PageTables.missingTables
        rw [hpath]
      obtain ⟨hwf₁, hroom₁, -⟩ := mapFresh_room (v := base + 4096 * i) hwf hc hf
      rw [room_congr hpath] at hroom₁
      rw [room_congr hpath] at hroom₁
      have hrest := ih (s := (s.mapFresh paged (base + 4096 * i) f).2) (i := i + 1) (by omega) hwf₁
        hc.mapFresh (hroom₁ hroom).1
      have hfirst := mapFresh_supplied (v := base + 4096 * i) hwf hc hf
        ((room_congr hpath).mpr hroom)
      rw [mapStack, haddr]
      rcases hfirst with ⟨hzero, hfree, hothers⟩ | ⟨hnull, htables⟩
      · have hbase : Supplied s.mach.tables (s.mapFresh paged (base + 4096 * i) f).2.mach.tables
            (pageNumber base) := by
          rw [hsame] at hzero hfree
          refine ⟨hzero, hfree, fun m hm => hothers m ?_⟩
          have hhead : pageNumber (base + 4096 * i) / 2 ^ 27 % 512 =
              pageNumber base / 2 ^ 27 % 512 := (List.cons.inj hpath).1
          rw [hhead]
          exact hm
        rcases hrest with hrest | ⟨-, htables⟩
        · exact Or.inl (hbase.trans hrest)
        · rw [htables]
          exact Or.inl hbase
      · rw [htables] at hrest
        rcases hrest with hrest | ⟨hnulls, hlast⟩
        · exact Or.inl hrest
        · refine Or.inr ⟨fun j hj => ?_, hlast⟩
          cases j with
          | zero => exact hnull
          | succ j =>
              rw [← nextFrame_mapFresh hc]
              exact hnulls j (by omega)

end Stack

/-! ## The stacks of the kernel -/

theorem taskStack_oneTable {i : Nat} (hi : i < maxTasks) : OneTable (stackTop i - 0x10000) 16 := by
  unfold maxTasks at hi
  unfold stackTop kernelBase
  constructor <;> omega

theorem kernelStack_oneTable {pid : Nat} (hpid : pid < maxProcesses) :
    OneTable (kernelStackTop pid - 8192) 2 := by
  unfold maxProcesses at hpid
  unfold kernelStackTop kernelBase
  constructor <;> omega

theorem userStack_oneTable {pid : Nat} (hpid : pid < maxProcesses) :
    OneTable (userStackTop pid - 8192) 2 := by
  unfold maxProcesses at hpid
  unfold userStackTop
  constructor <;> omega

theorem slot_bounds {p : Processes} {pid : Nat} (h : p.slot = some pid) :
    0 < pid ∧ pid < maxProcesses ∧ (p.processes pid).state = .terminated := by
  unfold Processes.slot at h
  split at h
  · cases h
  · have hmem := List.mem_of_find?_eq_some h
    have hfree := List.find?_some h
    obtain ⟨i, hi, rfl⟩ := List.mem_range'.mp hmem
    unfold maxProcesses at hi ⊢
    exact ⟨by omega, by omega, by simpa using hfree⟩

/-! ## Every call -/

/-- The tables are well formed and the frame counter is a page address. -/
structure PagedOk (s : PagedState) : Prop where
  wf : s.mach.tables.WellFormed
  counter : CounterOk s

theorem PagedOk.alloc {s : PagedState} (h : PagedOk s) : PagedOk s.allocPhysicalPage.2 := by
  have hal := h.counter.aligned
  refine ⟨by simpa only [MemState.allocPhysicalPage] using h.wf, ?_, ?_⟩
  · rw [h.counter.next]
    omega
  · rw [h.counter.next]
    exact Nat.mod_lt _ (by decide)

theorem store8_tables {s s' : PagedState} {a : Nat} {b : UInt8} (h : s.store8 paged a b = some s') :
    s'.mach.tables = s.mach.tables ∧ s'.nextFreePage = s.nextFreePage := by
  obtain ⟨x, hx, rfl⟩ := Option.map_eq_some_iff.mp h
  obtain ⟨q, -, rfl⟩ := Option.map_eq_some_iff.mp hx
  exact ⟨rfl, rfl⟩

theorem pagedOk_preserves : Preserves paged (fun _ f => f < 4096) PagedOk where
  store h hs := by
    obtain ⟨htables, hnext⟩ := store8_tables hs
    exact ⟨htables ▸ h.wf, ⟨by rw [hnext]; exact h.counter.aligned,
      by rw [hnext]; exact h.counter.bound⟩⟩
  map hf h := ⟨(mapFresh_room h.wf h.counter hf).1, h.counter.mapFresh⟩
  vars _ _ h := ⟨h.wf, h.counter.aligned, h.counter.bound⟩

theorem step_pagedOk {k k' : KernelState (PhysState PageTables)} {call : Call}
    (h : PagedOk k.mem) (hs : k.step paged call = some k') : PagedOk k'.mem :=
  pagedOk_preserves.step (fun _ _ hf => hf) PagedOk.alloc hs h

end Kaviz.Kernel
