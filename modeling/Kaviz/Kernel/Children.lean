import Kaviz.Kernel.ProcessTable

/-! # Counting children

`process_create` counts a new process in the control block of the process that is
current, and starts the count of the new one at zero. `process_exit` leaves the
count of the parent alone. A pid names different processes over time, so the
table is run beside a clock: a process belongs to the occupant of the slot
`parent_pid` when it was not created before that occupant.
-/

namespace Kaviz.Kernel

open Traces

/-- The table, with the time at which the process in each slot was created. -/
structure Ancestry where
  procs : Processes
  clock : Nat
  born : Nat → Nat

namespace Ancestry

def init (p : Processes) : Ancestry := ⟨p.init, 0, fun _ => 0⟩

def step (a : Ancestry) (call : TableCall) : Option Ancestry :=
  (call.step a.procs).map fun q =>
    { procs := q
      clock := a.clock + 1
      born := match call, a.procs.slot with
        | .create _ _, some pid => Function.update a.born pid a.clock
        | _, _ => a.born }

/-- The live processes with parent pid `i` that were created while the process in
slot `i` was there. -/
def children (a : Ancestry) (i : Nat) : Finset Nat :=
  a.procs.live.filter fun j => (a.procs.processes j).parentPid = i ∧ a.born i ≤ a.born j

/-- Every live process counts its children. -/
def ChildCountsExact (a : Ancestry) : Prop :=
  ∀ i ∈ a.procs.live, (a.procs.processes i).childCount = (a.children i).card

def EndsNoChild (a : Ancestry) : TableCall → Prop
  | .exit pid => ∀ i ∈ a.procs.live, i ≠ pid → pid ∉ a.children i
  | _ => True

end Ancestry

namespace Processes

variable {p : Processes} {pid : Nat}

theorem create_parentPid (p : Processes) (entry : Nat) (name : List UInt8) (i : Nat) :
    ((p.create pid entry name).processes i).parentPid =
      if i = pid then p.currentPid else (p.processes i).parentPid := by
  unfold create
  dsimp only
  split
  · rw [Function.update_apply]
    by_cases hsame : i = p.currentPid
    · rw [if_pos hsame, ← hsame, Function.update_apply]
      split <;> rfl
    · rw [if_neg hsame, Function.update_apply]
      split <;> rfl
  · rw [Function.update_apply]
    split <;> rfl

/-- A new process has no children yet; the current one has one more. -/
theorem create_childCount (p : Processes) (entry : Nat) (name : List UInt8) {i : Nat} (hi : i ≠ 0) :
    ((p.create pid entry name).processes i).childCount =
      if p.currentPid = i then ((if i = pid then 0 else (p.processes i).childCount) + 1) % 2 ^ 32
      else if i = pid then 0 else (p.processes i).childCount := by
  unfold create
  dsimp only
  by_cases hsame : p.currentPid = i
  · subst hsame
    rw [if_pos hi, if_pos rfl, Function.update_self, Function.update_apply]
    split <;> rfl
  · rw [if_neg hsame]
    split
    · rw [Function.update_of_ne (Ne.symm hsame), Function.update_apply]
      split <;> rfl
    · rw [Function.update_apply]
      split <;> rfl

end Processes

namespace Ancestry

variable {a a' : Ancestry}

/-- The table is consistent, its processes were created in the past, and the counts
are exact. -/
structure Counted (a : Ancestry) : Prop where
  table : a.procs.Consistent
  past : ∀ i ∈ a.procs.live, a.born i < a.clock
  exact : a.ChildCountsExact

theorem mem_children {i j : Nat} : j ∈ a.children i ↔
    j ∈ a.procs.live ∧ (a.procs.processes j).parentPid = i ∧ a.born i ≤ a.born j := by
  rw [children, Finset.mem_filter]

theorem children_lt (h : a.procs.Consistent) (i : Nat) : (a.children i).card < maxProcesses :=
  Nat.lt_of_le_of_lt (Finset.card_filter_le _ _) h.card_lt

theorem init_counted (p : Processes) : (init p).Counted := by
  have hlive : (init p).procs.live = ∅ := p.init_live
  refine ⟨p.init_consistent, ?_, ?_⟩
  · simp [hlive]
  · simp [ChildCountsExact, hlive]

/-! ## Creation -/

def created (a : Ancestry) (pid entry : Nat) (name : List UInt8) : Ancestry :=
  ⟨a.procs.create pid entry name, a.clock + 1, Function.update a.born pid a.clock⟩

/-- A new process is a child of the current one, and takes over no children. -/
theorem created_children (h : a.Counted) {pid : Nat} (hslot : a.procs.slot = some pid) (entry : Nat)
    (name : List UInt8) {i : Nat} (hi : i ∈ insert pid a.procs.live) :
    (a.created pid entry name).children i =
      (if a.procs.currentPid = i then {pid} else ∅) ∪ (if i = pid then ∅ else a.children i) := by
  obtain ⟨-, hlt, hfree⟩ := slot_bounds hslot
  have hnew : pid ∉ a.procs.live := fun hmem => (Processes.mem_live.1 hmem).2 hfree
  have hpast : i ≠ pid → a.born i < a.clock := by
    intro hne
    exact h.past i ((Finset.mem_insert.1 hi).resolve_left hne)
  ext j
  rw [mem_children, created]
  dsimp only
  rw [Processes.create_live _ hlt, Processes.create_parentPid, Finset.mem_insert, Finset.mem_union]
  by_cases hj : j = pid
  · subst hj
    have hself : j ∉ (if i = j then ∅ else a.children i) := by
      intro hmem
      split at hmem
      · cases hmem
      · exact hnew (mem_children.1 hmem).1
    have hle : Function.update a.born j a.clock i ≤ a.clock := by
      rw [Function.update_apply]
      split
      · exact Nat.le_refl _
      · exact Nat.le_of_lt (hpast ‹_›)
    by_cases hparent : a.procs.currentPid = i <;> simp [hself, hle, hparent]
  · have hout : j ∉ (if a.procs.currentPid = i then ({pid} : Finset Nat) else ∅) := by
      split <;> simp [hj]
    simp only [hj, hout, if_false, false_or]
    by_cases hi' : i = pid
    · subst hi'
      simp only [Function.update_self, Function.update_of_ne hj, if_true, Finset.notMem_empty,
        iff_false]
      rintro ⟨hlive, -, hle⟩
      have := h.past j hlive
      omega
    · rw [if_neg hi', mem_children, Function.update_of_ne hi', Function.update_of_ne hj]

theorem Counted.created (h : a.Counted) {pid : Nat} (hslot : a.procs.slot = some pid) (entry : Nat)
    (name : List UInt8) : (a.created pid entry name).Counted := by
  obtain ⟨hpos, hlt, hfree⟩ := slot_bounds hslot
  have hnew : pid ∉ a.procs.live := fun hmem => (Processes.mem_live.1 hmem).2 hfree
  have hlive : (a.created pid entry name).procs.live = insert pid a.procs.live :=
    Processes.create_live _ hlt entry name
  refine ⟨h.table.create hslot entry name, ?_, ?_⟩
  · intro i hi
    show Function.update a.born pid a.clock i < a.clock + 1
    rw [Function.update_apply]
    split
    · exact Nat.lt_succ_self _
    · rw [hlive, Finset.mem_insert] at hi
      exact Nat.lt_succ_of_lt (h.past i (hi.resolve_left ‹_›))
  · intro i hi
    rw [hlive] at hi
    have hzero : i ≠ 0 := by
      rintro rfl
      rcases Finset.mem_insert.1 hi with heq | hmem
      · omega
      · exact h.table.zero hmem
    have hbase : (if i = pid then 0 else (a.procs.processes i).childCount) =
        (if i = pid then ∅ else a.children i).card := by
      split
      · rfl
      · exact h.exact i ((Finset.mem_insert.1 hi).resolve_left ‹_›)
    have hbound : (if i = pid then ∅ else a.children i).card < maxProcesses := by
      split
      · decide
      · exact children_lt h.table i
    have hout : pid ∉ (if i = pid then ∅ else a.children i) := by
      intro hmem
      split at hmem
      · cases hmem
      · exact hnew (mem_children.1 hmem).1
    rw [created_children h hslot entry name hi]
    show ((a.procs.create pid entry name).processes i).childCount = _
    rw [Processes.create_childCount _ entry name hzero, hbase]
    by_cases hparent : a.procs.currentPid = i
    · rw [if_pos hparent, if_pos hparent, Finset.singleton_union, Finset.card_insert_of_notMem hout]
      unfold maxProcesses at hbound
      omega
    · rw [if_neg hparent, if_neg hparent, Finset.empty_union]

/-! ## The other calls -/

/-- An exit takes one process out of the children of every other. -/
theorem exit_children {pid : Nat} (hpid : pid ∈ a.procs.live) (i : Nat) :
    (⟨a.procs.exit pid, a.clock + 1, a.born⟩ : Ancestry).children i = (a.children i).erase pid := by
  obtain ⟨hlt, hlive⟩ := Processes.mem_live.1 hpid
  have hguard : ¬ (pid ≥ maxProcesses ∨ (a.procs.processes pid).state = .terminated) := by
    rw [not_or]
    exact ⟨Nat.not_le.2 hlt, hlive⟩
  ext j
  rw [mem_children, Finset.mem_erase, mem_children]
  dsimp only
  rw [Processes.exit_live hlt hlive, Finset.mem_erase, Processes.exit, if_neg hguard]
  by_cases hj : j = pid
  · simp [hj]
  · simp [hj]

/-- The counts stay exact exactly when no other live process loses a child. -/
theorem Counted.exit_iff (h : a.Counted) {pid : Nat} (hpid : pid ∈ a.procs.live) :
    (⟨a.procs.exit pid, a.clock + 1, a.born⟩ : Ancestry).ChildCountsExact ↔
      ∀ i ∈ a.procs.live, i ≠ pid → pid ∉ a.children i := by
  obtain ⟨hlt, hlive⟩ := Processes.mem_live.1 hpid
  have hguard : ¬ (pid ≥ maxProcesses ∨ (a.procs.processes pid).state = .terminated) := by
    rw [not_or]
    exact ⟨Nat.not_le.2 hlt, hlive⟩
  have hcount : ∀ i, i ≠ pid →
      ((a.procs.exit pid).processes i).childCount = (a.procs.processes i).childCount := by
    intro i hi
    rw [Processes.exit, if_neg hguard]
    dsimp only
    rw [Function.update_of_ne hi]
  have hone : ∀ i ∈ a.procs.live, i ≠ pid →
      (((a.procs.exit pid).processes i).childCount = ((a.children i).erase pid).card ↔
        pid ∉ a.children i) := by
    intro i hi hne
    rw [hcount i hne, h.exact i hi]
    constructor
    · intro hcard hmem
      have := Finset.card_erase_lt_of_mem hmem
      omega
    · intro hmem
      rw [Finset.erase_eq_of_notMem hmem]
  unfold ChildCountsExact
  dsimp only
  rw [Processes.exit_live hlt hlive]
  constructor
  · intro hexact i hi hne
    have hi' := hexact i (Finset.mem_erase.2 ⟨hne, hi⟩)
    rw [exit_children hpid] at hi'
    exact (hone i hi hne).1 hi'
  · intro hkeep i hi
    obtain ⟨hne, hi⟩ := Finset.mem_erase.1 hi
    rw [exit_children hpid]
    exact (hone i hi hne).2 (hkeep i hi hne)

theorem Counted.later {q : Processes} (h : a.Counted) (hq : q.Consistent) (hlive : q.live ⊆ a.procs.live)
    (hexact : (⟨q, a.clock + 1, a.born⟩ : Ancestry).ChildCountsExact) :
    (⟨q, a.clock + 1, a.born⟩ : Ancestry).Counted :=
  ⟨hq, fun i hi => Nat.lt_succ_of_lt (h.past i (hlive hi)), hexact⟩

theorem Counted.unchanged {q : Processes} (h : a.Counted) (hq : q.Consistent)
    (hslot : ∀ i, (q.processes i).state = (a.procs.processes i).state ∧
      (q.processes i).parentPid = (a.procs.processes i).parentPid ∧
      (q.processes i).childCount = (a.procs.processes i).childCount) :
    (⟨q, a.clock + 1, a.born⟩ : Ancestry).Counted := by
  have hlive : q.live = a.procs.live := by
    ext i
    rw [Processes.mem_live, Processes.mem_live, (hslot i).1]
  refine h.later hq (by rw [hlive]) ?_
  intro i hi
  have hchildren : (⟨q, a.clock + 1, a.born⟩ : Ancestry).children i = a.children i := by
    ext j
    rw [mem_children, mem_children]
    dsimp only
    rw [hlive, (hslot j).2.1]
  rw [hchildren]
  dsimp only at hi ⊢
  rw [(hslot i).2.2]
  exact h.exact i (hlive ▸ hi)

theorem switch_family (p : Processes) (old new : Nat) (saved : Registers) (word i : Nat) :
    ((p.switch old new saved word).processes i).parentPid = (p.processes i).parentPid ∧
      ((p.switch old new saved word).processes i).childCount = (p.processes i).childCount := by
  unfold Processes.switch
  by_cases hi : i = old
  · subst hi
    simp
  · simp [hi]

/-! ## Runs -/

/-- A call keeps the counts exact exactly when it ends no child, and then all is as before. -/
theorem Counted.step (h : a.Counted) {call : TableCall} (hstep : a.step call = some a') :
    (a'.ChildCountsExact ↔ a.EndsNoChild call) ∧ (a.EndsNoChild call → a'.Counted) := by
  obtain ⟨q, hq, rfl⟩ := Option.map_eq_some_iff.mp hstep
  have hcons := TableCall.step_consistent h.table hq
  have hexact : ∀ {b : Ancestry}, b.Counted → ((b.ChildCountsExact ↔ True) ∧ (True → b.Counted)) :=
    fun hb => ⟨iff_true_intro hb.exact, fun _ => hb⟩
  cases call with
  | create entry name =>
      obtain rfl : (a.procs.createNew entry name).2 = q := Option.some.inj hq
      apply hexact
      unfold Processes.createNew at hcons ⊢
      cases hslot : a.procs.slot with
      | none => exact h.unchanged h.table fun i => ⟨rfl, rfl, rfl⟩
      | some pid => exact h.created hslot entry name
  | exit pid =>
      obtain rfl : a.procs.exit pid = q := Option.some.inj hq
      dsimp only
      by_cases hpid : pid ∈ a.procs.live
      · have hiff := h.exit_iff hpid
        refine ⟨hiff, fun hkeep => h.later hcons ?_ (hiff.2 hkeep)⟩
        obtain ⟨hlt, hlive⟩ := Processes.mem_live.1 hpid
        rw [Processes.exit_live hlt hlive]
        exact Finset.erase_subset _ _
      · have hguard : pid ≥ maxProcesses ∨ (a.procs.processes pid).state = .terminated := by
          by_contra hno
          rw [not_or] at hno
          exact hpid (Processes.mem_live.2 ⟨Nat.lt_of_not_le hno.1, hno.2⟩)
        have hsame : a.procs.exit pid = a.procs := by rw [Processes.exit, if_pos hguard]
        have hdone := h.unchanged hcons fun i => by rw [hsame]; exact ⟨rfl, rfl, rfl⟩
        refine ⟨iff_of_true hdone.exact ?_, fun _ => hdone⟩
        exact fun i _ _ hmem => hpid (mem_children.1 hmem).1
  | switch old new saved word =>
      unfold TableCall.step at hq
      dsimp only at hq
      split at hq
      · obtain rfl : a.procs.switch old new saved word = q := Option.some.inj hq
        apply hexact
        refine h.unchanged hcons fun i => ⟨(Processes.switch_slot _ old new saved word i).2, ?_⟩
        exact switch_family a.procs old new saved word i
      · cases hq

end Ancestry

/-- In a run the child counts are exact after every call exactly when no call ends a
child of another live process. -/
theorem child_counts_exact_iff (p : Processes) (a : Ancestry)
    (ts : List (Step Ancestry TableCall)) (h : Trace Ancestry.step (Ancestry.init p) ts a) :
    (∀ t ∈ ts, t.after.ChildCountsExact) ↔ ∀ t ∈ ts, t.before.EndsNoChild t.op :=
  h.forall_iff (Ancestry.init_counted p) (fun hinv hstep => (hinv.step hstep).1)
    fun hinv hstep => (hinv.step hstep).2

def childExits : List TableCall :=
  [.create 0x400000 [], .switch 0 1 (processContext 0 0) 0, .create 0x500000 [], .exit 2]

/-- Process 1 still counts the child that is gone. -/
theorem child_count_stale : ∃ ts a, ts.map Step.op = childExits ∧
    Trace Ancestry.step (Ancestry.init clearedProcesses) ts a ∧
      ¬ ∀ t ∈ ts, t.after.ChildCountsExact := by
  have h : Trace Ancestry.step (Ancestry.init clearedProcesses)
      [⟨_, .create 0x400000 [], _⟩, ⟨_, .switch 0 1 (processContext 0 0) 0, _⟩,
        ⟨_, .create 0x500000 [], _⟩, ⟨_, .exit 2, _⟩] _ :=
    .cons rfl (.cons rfl (.cons rfl (.cons rfl (.nil _))))
  refine ⟨_, _, rfl, h, fun hexact => ?_⟩
  simp only [List.forall_mem_cons] at hexact
  have hlast := hexact.2.2.2.1 1 (by decide)
  revert hlast
  decide

/-- The parent exits first: its count is gone with it. -/
theorem child_counts_exact_parentFirst : ∃ ts a, ts.map Step.op =
      [TableCall.create 0x400000 [], .switch 0 1 (processContext 0 0) 0, .create 0x500000 [], .exit 1] ∧
    Trace Ancestry.step (Ancestry.init clearedProcesses) ts a ∧ ∀ t ∈ ts, t.after.ChildCountsExact := by
  have h : Trace Ancestry.step (Ancestry.init clearedProcesses)
      [⟨_, .create 0x400000 [], _⟩, ⟨_, .switch 0 1 (processContext 0 0) 0, _⟩,
        ⟨_, .create 0x500000 [], _⟩, ⟨_, .exit 1, _⟩] _ :=
    .cons rfl (.cons rfl (.cons rfl (.cons rfl (.nil _))))
  refine ⟨_, _, rfl, h, (child_counts_exact_iff clearedProcesses _ _ h).2 ?_⟩
  simp only [List.forall_mem_cons, List.not_mem_nil, false_implies, implies_true, and_true]
  refine ⟨trivial, trivial, trivial, ?_⟩
  unfold Ancestry.EndsNoChild
  decide

end Kaviz.Kernel
