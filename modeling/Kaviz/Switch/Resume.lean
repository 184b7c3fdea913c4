import Kaviz.Switch.Blocks
import Mathlib.Algebra.Order.Ring.Nat
import Mathlib.Data.Set.Insert

/-! # Where a switch back continues

`save_context` stores the address and the stack pointer it finds inside
`context_switch`. A block filled so does not continue the task: restoring it comes
back into `context_switch`, which then restores the block named by the saved `rsi`,
and so on from block to block until one names an address outside.
-/

namespace Kaviz.Switch

open Bytes X86

variable {code : Code} {R : Routines code} {T : Set Nat} {level : Nat} {c d : Cpu} {m m' : Mem}
variable {t u x : Nat}

structure Table (T : Set Nat) : Prop where
  bound : ∀ t ∈ T, t + blockSize ≤ 2 ^ 64
  apart : ∀ t ∈ T, ∀ u ∈ T, t ≠ u → Apart t blockSize u blockSize

def SameBlock (m m' : Mem) (t : Nat) : Prop := ∀ a, t ≤ a → a < t + blockSize → m' a = m a

/-- A block of the table with a context in it: a stack that is not inside the
table, a code segment of the level the kernel runs at, and an address that is the
one `save_context` stores or lies outside the routines. -/
structure Sound (R : Routines code) (T : Set Nat) (level : Nat) (m : Mem) (t : Nat) : Prop where
  deep : 16 ≤ field m t 0
  stack : ∀ u ∈ T, Apart (field m t 0 - 16) 16 u blockSize
  selector : field m t 0x80 % 2 ^ 16 / 4 ≠ 0
  level_eq : field m t 0x80 % 2 ^ 16 % 4 = level
  next : field m t 0xB8 = R.saved → field m t 0x58 ∈ T
  leaves : field m t 0xB8 ≠ R.saved → code (field m t 0xB8) = none

theorem SameBlock.field_eq (h : SameBlock m m' t) {off : Nat} (hoff : off + 8 ≤ blockSize) :
    field m' t off = field m t off := field_congr h hoff

theorem Sound.congr (h : Sound R T level m t) (hsame : SameBlock m m' t) :
    Sound R T level m' t := by
  have h0 : field m' t 0 = field m t 0 := hsame.field_eq (by decide)
  have h58 : field m' t 0x58 = field m t 0x58 := hsame.field_eq (by decide)
  have h80 : field m' t 0x80 = field m t 0x80 := hsame.field_eq (by decide)
  have hB8 : field m' t 0xB8 = field m t 0xB8 := hsame.field_eq (by decide)
  constructor
  · rw [h0]
    exact h.deep
  · rw [h0]
    exact h.stack
  · rw [h80]
    exact h.selector
  · rw [h80]
    exact h.level_eq
  · rw [hB8, h58]
    exact h.next
  · rw [hB8]
    exact h.leaves

theorem Loaded.congr (h : Loaded m t d) (hsame : SameBlock m' m t) : Loaded m' t d := by
  constructor
  · rw [h.rip, hsame.field_eq (by decide)]
  · intro y off hy
    have hoff := slot_lt hy
    rw [h.regs y off hy, hsame.field_eq (by unfold blockSize; omega)]
  · rw [h.rflags, hsame.field_eq (by decide)]
  · rw [h.cs, hsame.field_eq (by decide)]

/-- Restoring the block at the first address leaves the routines with the block at
the second, by way of blocks other than `x`. -/
inductive LeadsTo (m : Mem) (saved x : Nat) : Nat → Nat → Prop
  | leave {t : Nat} : t ≠ x → field m t 0xB8 ≠ saved → LeadsTo m saved x t t
  | follow {t u : Nat} : t ≠ x → field m t 0xB8 = saved →
      LeadsTo m saved x (field m t 0x58) u → LeadsTo m saved x t u

theorem not_leadsTo_self {saved : Nat} : ¬ LeadsTo m saved x x u := by
  intro h
  cases h with
  | leave hne _ => exact hne rfl
  | follow hne _ _ => exact hne rfl

/-- The chain is the same in memories that agree on the blocks other than `x`. -/
theorem LeadsTo.congr {saved : Nat} (h : LeadsTo m saved x t u) (ht : t ∈ T)
    (hsame : ∀ t ∈ T, t ≠ x → SameBlock m m' t)
    (hnext : ∀ t ∈ T, t ≠ x → field m t 0xB8 = saved → field m t 0x58 ∈ T) :
    LeadsTo m' saved x t u ∧ u ∈ T ∧ u ≠ x := by
  induction h with
  | @leave t hne hrip =>
      refine ⟨.leave hne ?_, ht, hne⟩
      rw [(hsame t ht hne).field_eq (by decide)]
      exact hrip
  | @follow t u hne hrip _ ih =>
      obtain ⟨hchain, hmem⟩ := ih (hnext t ht hne hrip)
      refine ⟨.follow hne ?_ ?_, hmem⟩
      · rw [(hsame t ht hne).field_eq (by decide)]
        exact hrip
      · rw [(hsame t ht hne).field_eq (by decide)]
        exact hchain

/-! ## Going from block to block -/

/-- `restore_context` has been entered for the block at `t`; the table is as in `m`. -/
structure Entering (R : Routines code) (T : Set Nat) (level : Nat) (m : Mem) (t : Nat) (c : Cpu) :
    Prop where
  rip : c.rip = R.restoreContext
  rdi : c.regs .rdi = t
  level_eq : c.segs .cs % 4 = level
  same : ∀ u ∈ T, SameBlock m c.mem u

theorem Entering.restored (htable : Table T) (hsound : Sound R T level m t) (ht : t ∈ T)
    (h : Entering R T level m t c) :
    ∃ d, run code 24 c = some d ∧ Loaded m t d ∧ ∀ u ∈ T, SameBlock m d.mem u := by
  have hsame := h.same t ht
  have hsound' := hsound.congr hsame
  have hrestorable : Restorable c.mem t (c.segs .cs % 4) :=
    ⟨htable.bound t ht, hsound'.deep, hsound'.stack t ht, hsound'.selector, by
      rw [hsound'.level_eq, h.level_eq]⟩
  obtain ⟨d, hrun, hload, hframe⟩ := restore_run R h.rip h.rdi hrestorable
  refine ⟨d, hrun, hload.congr hsame, ?_⟩
  intro u hu a hlo hhi
  have hstack := hsound'.stack u hu
  unfold Apart at hstack
  rw [hframe a (by omega)]
  exact h.same u hu a hlo hhi

/-- Restoring a block that `save_context` filled enters `restore_context` again,
for the block its `rsi` names. -/
theorem Entering.follows (htable : Table T) (hsound : Sound R T level m t) (ht : t ∈ T)
    (h : Entering R T level m t c) (hrip : field m t 0xB8 = R.saved) :
    ∃ d, run code 26 c = some d ∧ Entering R T level m (field m t 0x58) d := by
  obtain ⟨d, hrun, hload, hsame⟩ := h.restored htable hsound ht
  have hdeep := hsound.deep
  have hsp : d.regs .rsp = field m t 0 := hload.regs .rsp 0 rfl
  have hsi : d.regs .rsi = field m t 0x58 := hload.regs .rsi 0x58 rfl
  have hlevel : d.segs .cs % 4 = level := by rw [hload.cs, hsound.level_eq]
  obtain ⟨e, hrun', hrip', hrdi, hsegs, hframe⟩ :=
    switch_next R (hload.rip.trans hrip) hsp (by omega) (field_lt m t 0)
  refine ⟨e, ?_, hrip', hrdi.trans hsi, by rw [hsegs, hlevel], ?_⟩
  · rw [show 26 = 24 + 2 from rfl, run_add, hrun, Option.bind_some, hrun']
  · intro u hu a hlo hhi
    have hstack := hsound.stack u hu
    unfold Apart at hstack
    rw [hframe a (by omega)]
    exact hsame u hu a hlo hhi

theorem LeadsTo.exits {saved : Nat} (h : LeadsTo m saved x t u) (hsaved : saved = R.saved)
    (htable : Table T) (hsound : ∀ t ∈ T, Sound R T level m t) (ht : t ∈ T)
    (hc : Entering R T level m t c) :
    ∃ n d, run code n c = some d ∧ Loaded m u d := by
  subst hsaved
  induction h generalizing c with
  | @leave t hne hrip =>
      obtain ⟨d, hrun, hload, _⟩ := hc.restored htable (hsound t ht) ht
      exact ⟨24, d, hrun, hload⟩
  | @follow t u hne hrip _ ih =>
      obtain ⟨d, hrun, hd⟩ := hc.follows htable (hsound t ht) ht hrip
      obtain ⟨n, e, hrun', hload⟩ := ih ((hsound t ht).next hrip) hd
      refine ⟨26 + n, e, ?_, hload⟩
      rw [run_add, hrun, Option.bind_some, hrun']

/-- A run that leaves the routines has come through a chain. When it passes `x`,
which sends it back to `a`, it comes through a chain from `a`. -/
theorem leadsTo_of_exit {a n : Nat} (htable : Table T) (hsound : ∀ t ∈ T, Sound R T level m t)
    (hx : field m x 0xB8 = R.saved) (hxa : field m x 0x58 = a) (ht : t ∈ T)
    (hc : Entering R T level m t c) (hrun : run code n c = some d) (hout : code d.rip = none) :
    ∃ u, (LeadsTo m R.saved x t u ∨ LeadsTo m R.saved x a u) ∧ Loaded m u d := by
  induction n using Nat.strongRecOn generalizing c t with
  | _ n ih =>
      by_cases hrip : field m t 0xB8 = R.saved
      · obtain ⟨e, hfirst, he⟩ := hc.follows htable (hsound t ht) ht hrip
        obtain ⟨j, rfl, hrest⟩ := run_to_end hrun hout hfirst
        obtain ⟨u, hchain, hload⟩ := ih j (by omega) ((hsound t ht).next hrip) he hrest
        refine ⟨u, ?_, hload⟩
        by_cases htx : t = x
        · subst htx
          rw [hxa, or_self] at hchain
          exact Or.inr hchain
        · exact hchain.imp_left (.follow htx hrip)
      · obtain ⟨e, hfirst, hload, _⟩ := hc.restored htable (hsound t ht) ht
        have hstop : code e.rip = none := by
          rw [hload.rip]
          exact (hsound t ht).leaves hrip
        obtain ⟨j, rfl, hrest⟩ := run_to_end hrun hout hfirst
        obtain ⟨i, hi, hsame⟩ := run_to_end hfirst hstop hrun
        obtain rfl : j = 0 := by omega
        obtain rfl : e = d := Option.some.inj hrest
        have htx : t ≠ x := by
          intro htx
          exact hrip (htx ▸ hx)
        exact ⟨t, Or.inl (.leave htx hrip), hload⟩

/-! ## A call of the switch -/

/-- `context_switch(t, next)` has been called, on a stack that is not inside the table. -/
structure Calls (R : Routines code) (T : Set Nat) (level : Nat) (c : Cpu) (t next : Nat) : Prop where
  rip : c.rip = R.contextSwitch
  rdi : c.regs .rdi = t
  rsi : c.regs .rsi = next
  block : t ∈ T
  target : next ∈ T
  deep : 24 ≤ c.regs .rsp
  bound : c.regs .rsp < 2 ^ 64
  stack : ∀ u ∈ T, Apart (c.regs .rsp - 24) 24 u blockSize
  selector : c.segs .cs % 2 ^ 16 / 4 ≠ 0
  level_eq : c.segs .cs % 2 ^ 16 % 4 = level

/-- What the call has stored when `save_context` returns. -/
theorem Calls.saves {next : Nat} (htable : Table T) (h : Calls R T level c t next) :
    ∃ d, run code 29 c = some d ∧ d.rip = R.saved ∧ d.segs = c.segs ∧ d.regs .rsi = next ∧
      d.regs .rsp = c.regs .rsp ∧ field d.mem t 0xB8 = R.saved ∧ field d.mem t 0x58 = next ∧
      Sound R T level d.mem t ∧ ∀ u ∈ T, u ≠ t → SameBlock c.mem d.mem u := by
  have hdeep := h.deep
  have hstack := h.stack
  have hbound := htable.bound next h.target
  have hmod : next % 2 ^ 64 = next := Nat.mod_eq_of_lt (by unfold blockSize at hbound; omega)
  have hapart : ∀ u ∈ T, Apart (c.regs .rsp - 16) 16 u blockSize := by
    intro u hu
    have := hstack u hu
    unfold Apart at this ⊢
    omega
  obtain ⟨d, hrun, hrip, hsegs, hsi, hsp, hret, htop, hnext, hcs, -, -, hframe⟩ :=
    switch_run R h.rip h.rdi rfl (htable.bound t h.block) (by omega) h.bound (hapart t h.block)
  rw [h.rsi] at hsi hnext
  rw [hmod] at hnext
  refine ⟨d, hrun, hrip, hsegs, hsi, hsp, hret, hnext, ?_, ?_⟩
  · constructor
    · rw [htop]
      omega
    · intro u hu
      have := hstack u hu
      unfold Apart at this ⊢
      rw [htop]
      omega
    · rw [hcs]
      exact h.selector
    · rw [hcs]
      exact h.level_eq
    · intro _
      rw [hnext]
      exact h.target
    · intro hne
      exact absurd hret hne
  · intro u hu hne a hlo hhi
    have hblocks := htable.apart t h.block u hu hne.symm
    have := hapart u hu
    unfold Apart at hblocks this
    exact hframe a (by omega) (by omega)

theorem Calls.enters {next : Nat} (htable : Table T) (h : Calls R T level c t next) :
    ∃ m d, run code 31 c = some d ∧ Entering R T level m next d ∧ field m t 0xB8 = R.saved ∧
      field m t 0x58 = next ∧ Sound R T level m t ∧ ∀ u ∈ T, u ≠ t → SameBlock c.mem m u := by
  have hdeep := h.deep
  have hlevel := h.level_eq
  obtain ⟨d, hrun, hrip, hsegs, hsi, hsp, hret, hnext, hsound, hframe⟩ := h.saves htable
  obtain ⟨e, hrun', hrip', hrdi, hsegs', hframe'⟩ :=
    switch_next R hrip hsp (by omega) h.bound
  refine ⟨d.mem, e, ?_, ⟨hrip', hrdi.trans hsi, ?_, ?_⟩, hret, hnext, hsound, hframe⟩
  · rw [show 31 = 29 + 2 from rfl, run_add, hrun, Option.bind_some, hrun']
  · rw [hsegs', hsegs]
    omega
  · intro u hu a hlo hhi
    have := h.stack u hu
    unfold Apart at this
    exact hframe' a (by omega)

/-- Control is behind the call that entered a function in state `c`. -/
structure Behind (c d : Cpu) : Prop where
  rip : d.rip = c.word (c.regs .rsp)
  rsp : d.regs .rsp = c.regs .rsp + 8
  kept : ∀ y ∈ calleeSaved, d.regs y = c.regs y
  rflags : d.rflags = c.rflags

/-- The block at `u` holds the continuation of that call. -/
structure Holds (c : Cpu) (m : Mem) (u : Nat) : Prop where
  rip : field m u 0xB8 = c.word (c.regs .rsp)
  rsp : field m u 0 = c.regs .rsp + 8
  kept : ∀ y ∈ calleeSaved, ∀ off, slot y = some off → field m u off = c.regs y
  rflags : poppedFlags (field m u 0xB0) = c.rflags

theorem calleeSaved_slot {y : Reg} (h : y ∈ calleeSaved) : ∃ off, slot y = some off := by
  cases y <;> first | exact ⟨_, rfl⟩ | exact absurd h (by decide)

theorem Loaded.behind_iff {c₀ : Cpu} (h : Loaded m u d) : Behind c₀ d ↔ Holds c₀ m u := by
  constructor
  · intro hd
    refine ⟨h.rip.symm.trans hd.rip, (h.regs .rsp 0 rfl).symm.trans hd.rsp, ?_,
      h.rflags.symm.trans hd.rflags⟩
    intro y hy off hoff
    exact (h.regs y off hoff).symm.trans (hd.kept y hy)
  · intro hu
    refine ⟨h.rip.trans hu.rip, (h.regs .rsp 0 rfl).trans hu.rsp, ?_, h.rflags.trans hu.rflags⟩
    intro y hy
    obtain ⟨off, hoff⟩ := calleeSaved_slot hy
    exact (h.regs y off hoff).trans (hu.kept y hy off hoff)

/-! ## Switching back -/

section Back

variable {c₀ c₁ c₂ : Cpu} {a b : Nat}

/-- `context_switch(a, b)` was called in `c₀` and had saved the caller in `c₁`; in `c₂`
another task calls `context_switch(x, a)`, with the block of `a` as it was left. -/
structure SwitchesBack (R : Routines code) (T : Set Nat) (level a b x : Nat) (c₀ c₁ c₂ : Cpu) :
    Prop where
  table : Table T
  away : Calls R T level c₀ a b
  saved : run code 29 c₀ = some c₁
  back : Calls R T level c₂ x a
  other : a ≠ x
  kept : SameBlock c₁.mem c₂.mem a
  sound : ∀ t ∈ T, t ≠ a → t ≠ x → Sound R T level c₂.mem t
  /-- The call of `c₀` was made by code outside the routines. -/
  returns : code (c₀.word (c₀.regs .rsp)) = none

/-- The block of the task that is switched back to: it sends the switch on to `b`. -/
theorem SwitchesBack.suspended (h : SwitchesBack R T level a b x c₀ c₁ c₂) :
    field c₂.mem a 0xB8 = R.saved ∧ field c₂.mem a 0x58 = b ∧ Sound R T level c₂.mem a := by
  obtain ⟨d, hrun, -, -, -, -, hret, hnext, hsound, -⟩ := h.away.saves h.table
  obtain rfl : d = c₁ := Option.some.inj (hrun.symm.trans h.saved)
  refine ⟨?_, ?_, hsound.congr h.kept⟩
  · rw [h.kept.field_eq (by decide), hret]
  · rw [h.kept.field_eq (by decide), hnext]

/-- The blocks other than that of the caller. -/
theorem SwitchesBack.sound_of_ne (h : SwitchesBack R T level a b x c₀ c₁ c₂) (ht : t ∈ T)
    (hne : t ≠ x) : Sound R T level c₂.mem t := by
  by_cases hta : t = a
  · rw [hta]
    exact h.suspended.2.2
  · exact h.sound t ht hta hne

/-- The call comes to restoring `a`, with every block of the table sound. -/
theorem SwitchesBack.enters (h : SwitchesBack R T level a b x c₀ c₁ c₂) :
    ∃ m d, run code 31 c₂ = some d ∧ Entering R T level m a d ∧ field m x 0xB8 = R.saved ∧
      field m x 0x58 = a ∧ (∀ t ∈ T, Sound R T level m t) ∧
      ∀ t ∈ T, t ≠ x → SameBlock c₂.mem m t := by
  obtain ⟨m, d, hrun, henter, hret, hnext, hsound, hsame⟩ := h.back.enters h.table
  refine ⟨m, d, hrun, henter, hret, hnext, ?_, hsame⟩
  intro t ht
  by_cases htx : t = x
  · rw [htx]
    exact hsound
  · exact (h.sound_of_ne ht htx).congr (hsame t ht htx)

theorem SameBlock.symm (h : SameBlock m m' t) : SameBlock m' m t :=
  fun a hlo hhi => (h a hlo hhi).symm

/-- A run from the second call that leaves the routines has come through a chain from `b`. -/
theorem SwitchesBack.leadsTo_of_exit {n : Nat} (h : SwitchesBack R T level a b x c₀ c₁ c₂)
    (hrun : run code n c₂ = some d) (hout : code d.rip = none) :
    ∃ u, LeadsTo c₂.mem R.saved x b u ∧ Loaded c₂.mem u d := by
  obtain ⟨m, e, hfirst, henter, hx, hxa, hsound, hsame⟩ := h.enters
  obtain ⟨j, rfl, hrest⟩ := run_to_end hrun hout hfirst
  obtain ⟨u, hchain, hload⟩ :=
    Switch.leadsTo_of_exit h.table hsound hx hxa h.back.target henter hrest hout
  rw [or_self] at hchain
  obtain ⟨hchain', hmem, hne⟩ := hchain.congr h.back.target
    (fun t ht htx => (hsame t ht htx).symm) (fun t ht _ => (hsound t ht).next)
  refine ⟨u, ?_, hload.congr (hsame u hmem hne)⟩
  -- the block of `a` holds the address inside `context_switch`, so the chain does not end there
  cases hchain' with
  | leave _ hrip => exact absurd h.suspended.1 hrip
  | follow _ _ hrest => rwa [h.suspended.2.1] at hrest

theorem SwitchesBack.exit_of_leadsTo {u : Nat} (h : SwitchesBack R T level a b x c₀ c₁ c₂)
    (hchain : LeadsTo c₂.mem R.saved x b u) :
    ∃ n d, run code n c₂ = some d ∧ Loaded c₂.mem u d := by
  obtain ⟨m, e, hfirst, henter, hx, hxa, hsound, hsame⟩ := h.enters
  have hfull : LeadsTo c₂.mem R.saved x a u := by
    apply LeadsTo.follow h.other h.suspended.1
    rw [h.suspended.2.1]
    exact hchain
  obtain ⟨hchain', hmem, hne⟩ :=
    hfull.congr h.back.target hsame (fun t ht htx => (h.sound_of_ne ht htx).next)
  obtain ⟨n, d, hrun, hload⟩ := hchain'.exits rfl h.table hsound h.back.target henter
  refine ⟨31 + n, d, ?_, hload.congr (hsame u hmem hne)⟩
  rw [run_add, hfirst, Option.bind_some, hrun]

/-- Two tasks that switch to each other never come back: neither block leads outside. -/
theorem SwitchesBack.lost (h : SwitchesBack R T level a b b c₀ c₁ c₂) :
    ¬ ∃ n d, run code n c₂ = some d ∧ Behind c₀ d := by
  rintro ⟨n, d, hrun, hbehind⟩
  have hout : code d.rip = none := by
    rw [hbehind.rip]
    exact h.returns
  obtain ⟨u, hchain, -⟩ := h.leadsTo_of_exit hrun hout
  exact not_leadsTo_self hchain

/-- Switching back to a task continues behind its own call exactly when the chain of
saved `rsi` that starts at the block it switched to leaves through a block that holds
this continuation. -/
theorem context_switch_resumes (h : SwitchesBack R T level a b x c₀ c₁ c₂) :
    (∃ n d, run code n c₂ = some d ∧ Behind c₀ d) ↔
      ∃ u, LeadsTo c₂.mem R.saved x b u ∧ Holds c₀ c₂.mem u := by
  constructor
  · rintro ⟨n, d, hrun, hbehind⟩
    have hout : code d.rip = none := by
      rw [hbehind.rip]
      exact h.returns
    obtain ⟨u, hchain, hload⟩ := h.leadsTo_of_exit hrun hout
    exact ⟨u, hchain, hload.behind_iff.1 hbehind⟩
  · rintro ⟨u, hchain, hholds⟩
    obtain ⟨n, d, hrun, hload⟩ := h.exit_of_leadsTo hchain
    exact ⟨n, d, hrun, hload.behind_iff.2 hholds⟩

end Back

/-! ### Two tasks -/

def callSite (t next sp : Nat) (m : Mem) : Cpu where
  regs
    | .rdi => t
    | .rsi => next
    | .rsp => sp
    | _ => 0
  segs
    | .cs => 0x08
    | _ => 0x10
  rip := 0x100000
  rflags := 0x202
  mem := m

def pairCode : Code := assemble 0x100000 (contextSwitchAsm 0x100000)

def pairRoutines : Routines pairCode := assembled 0x100000 (by decide)

def pairAway : Cpu := callSite 0x200000 0x200100 0x300000 (writeLE (fun _ => 0) 0x300000 8 0x400000)

def pairSaved : Cpu := (run pairCode 29 pairAway).getD pairAway

def pairBack : Cpu := callSite 0x200100 0x200000 0x301000 pairSaved.mem

theorem pair_table : Table {0x200000, 0x200100} := by
  constructor
  · intro t ht
    simp only [Set.mem_insert_iff, Set.mem_singleton_iff] at ht
    rcases ht with rfl | rfl <;> decide
  · intro t ht u hu hne
    simp only [Set.mem_insert_iff, Set.mem_singleton_iff] at ht hu
    unfold Apart blockSize
    omega

theorem pair_calls {t next sp : Nat} {m : Mem} (ht : t ∈ ({0x200000, 0x200100} : Set Nat))
    (hnext : next ∈ ({0x200000, 0x200100} : Set Nat)) (hlo : 0x201000 ≤ sp) (hhi : sp < 2 ^ 64) :
    Calls pairRoutines {0x200000, 0x200100} 0 (callSite t next sp m) t next := by
  have hselector : 0x08 % 2 ^ 16 / 4 ≠ 0 := by decide
  have hlevel : 0x08 % 2 ^ 16 % 4 = 0 := by decide
  refine ⟨rfl, rfl, rfl, ht, hnext, ?_, hhi, ?_, hselector, hlevel⟩
  · show 24 ≤ sp
    omega
  · intro u hu
    simp only [Set.mem_insert_iff, Set.mem_singleton_iff] at hu
    show Apart (sp - 24) 24 u blockSize
    unfold Apart blockSize
    omega

theorem pair_back :
    SwitchesBack pairRoutines {0x200000, 0x200100} 0 0x200000 0x200100 0x200100
      pairAway pairSaved pairBack := by
  have haway : Calls pairRoutines {0x200000, 0x200100} 0 pairAway 0x200000 0x200100 :=
    pair_calls (by simp) (by simp) (by decide) (by decide)
  obtain ⟨d, hrun, -⟩ := haway.saves pair_table
  have hsaved : run pairCode 29 pairAway = some pairSaved := by
    rw [pairSaved, hrun, Option.getD_some]
  have hback : Calls pairRoutines {0x200000, 0x200100} 0 pairBack 0x200100 0x200000 :=
    pair_calls (by simp) (by simp) (by decide) (by decide)
  refine ⟨pair_table, haway, hsaved, hback, (by decide), fun _ _ _ => rfl, ?_, ?_⟩
  · intro t ht hne hne'
    simp only [Set.mem_insert_iff, Set.mem_singleton_iff] at ht
    omega
  · decide +kernel

theorem context_switch_loses_task :
    SwitchesBack pairRoutines {0x200000, 0x200100} 0 0x200000 0x200100 0x200100
        pairAway pairSaved pairBack ∧
      ¬ ∃ n d, run pairCode n pairBack = some d ∧ Behind pairAway d :=
  ⟨pair_back, pair_back.lost⟩

theorem context_switch_resumes_pair :
    (∃ n d, run pairCode n pairBack = some d ∧ Behind pairAway d) ↔
      ∃ u, LeadsTo pairBack.mem pairRoutines.saved 0x200100 0x200100 u ∧
        Holds pairAway pairBack.mem u :=
  context_switch_resumes pair_back

end Kaviz.Switch
