import Kaviz.Lib.Stack

/-! # The system call entry

`syscall_entry` of `kernel/syscall_entry.asm`, up to its `call` and from there to
`sysretq`. `syscall_dispatch` is known by the calling convention: its first six
parameters are in registers and the seventh is the word above its return address.
The moves before the call overwrite values that are still needed.
-/

namespace Kaviz.Entry

open Bytes X86

/-- `syscall_entry`, up to the call. -/
def syscallEntry : List Instr :=
  [.push .rcx, .push .r11,
    .mov .r10 .rdx, .mov .rcx .rsi,
    .push .rdi, .mov .rdi .rax, .mov .rsi .rdi, .pop .rdi,
    .mov .rdx .rcx, .mov .rcx .r8,
    .push .r9, .mov .r8 .r10, .mov .r9 .r8, .pop .r10]

/-- `syscall_entry`, behind the call. -/
def syscallExit : List Instr := [.pop .r11, .pop .rcx]

/-- Code with this routine in it; `syscall_dispatch` lies outside. -/
structure SyscallCode (code : Code) where
  entry : Nat
  callAt : Nat
  back : Nat
  sysretAt : Nat
  dispatch : Nat
  back_lt : back < 2 ^ 64
  entry_placed : Placed code entry syscallEntry callAt
  call_dispatch : code callAt = some (.call dispatch, back)
  dispatch_outside : code dispatch = none
  exit_placed : Placed code back syscallExit sysretAt
  sysret : ∃ a, code sysretAt = some (.sysretq, a)

/-- The number and the six arguments, in the registers of the system call convention. -/
def requested (c : Cpu) : List Nat :=
  [.rax, .rdi, .rsi, .rdx, .r10, .r8, .r9].map c.regs

def parameters (c : Cpu) : List Nat :=
  [.rdi, .rsi, .rdx, .rcx, .r8, .r9].map c.regs ++ [c.word (c.regs .rsp + 8)]

/-- `syscall_dispatch` is called with the number and the arguments in order, and
whatever it returns, `sysretq` is reached with that value and the caller's
`rcx`, `r11` and stack pointer. The two words `syscall_entry` keeps on the stack
belong to its frame. -/
def SyscallIntact {code : Code} (S : SyscallCode code) (c : Cpu) : Prop :=
  ∃ n c₁, run code n c = some c₁ ∧ c₁.rip = S.dispatch ∧ parameters c₁ = requested c ∧
    ∀ r c₂, Returned c₁ c₂ 2 → c₂.regs .rax = r →
      ∃ k c₃, run code k c₂ = some c₃ ∧ c₃.rip = S.sysretAt ∧ c₃.regs .rax = r ∧
        c₃.regs .rcx = c.regs .rcx ∧ c₃.regs .r11 = c.regs .r11 ∧ c₃.regs .rsp = c.regs .rsp

variable {code : Code} {c : Cpu}

def shuffled (c : Cpu) : Reg → Nat
  | .rdi => c.regs .rdi
  | .rsi => c.regs .rax
  | .rdx => c.regs .rsi
  | .rcx => c.regs .r8
  | .r8 => c.regs .rdx
  | .r9 => c.regs .rdx
  | .r10 => c.regs .r9
  | r => c.regs r

/-- The registers of `c`, before anything is on the stack. -/
def viewOf (c : Cpu) : View := ⟨c.regs, c.segs, c.regs .rsp, []⟩

theorem syscallEntry_view (c : Cpu) : ∃ s, (viewOf c).run syscallEntry = some s ∧
    s.regs = shuffled c ∧ s.base = c.regs .rsp ∧ s.stack = [c.regs .r11, c.regs .rcx] := by
  refine ⟨_, rfl, ?_, rfl, rfl⟩
  funext r
  cases r <;> rfl

theorem syscall_called (S : SyscallCode code) (hrip : c.rip = S.entry)
    (hregs : ∀ r, c.regs r < 2 ^ 64) :
    ∃ n c₁ s, run code n c = some c₁ ∧ c₁.rip = S.dispatch ∧ Shows c₁ s ∧
      s.base = c.regs .rsp ∧ s.stack = [S.back, c.regs .r11, c.regs .rcx] ∧
      parameters c₁ = [c.regs .rdi, c.regs .rax, c.regs .rsi, c.regs .r8, c.regs .rdx, c.regs .rdx,
        c.regs .r11] := by
  obtain ⟨s, hs, hsregs, hbase, hstack⟩ := syscallEntry_view c
  obtain ⟨n, c₀, hrun, hrip₀, hshows⟩ := (Shows.start hregs).run S.entry_placed hrip hs
  obtain ⟨c₁, hcall, hrip₁, hshows₁⟩ := hshows.call (by rw [hrip₀]; exact S.call_dispatch) S.back_lt
    (by rw [hstack]; exact (by decide : 2 < View.depth))
  refine ⟨n + 1, c₁, _, ?_, hrip₁, hshows₁, hbase, by rw [hstack], ?_⟩
  · rw [run_add, hrun, Option.bind_some, hcall]
  · have hreg : ∀ r, r ≠ .rsp → c₁.regs r = shuffled c r :=
      fun r hr => (hshows₁.regs_eq r hr).trans (congrFun hsregs r)
    have hword : c₁.word (c₁.regs .rsp + 8) = c.regs .r11 := by
      apply hshows₁.stacked 1
      rw [hstack]
      rfl
    simp only [parameters, List.map_cons, List.map_nil, List.cons_append, List.nil_append, hword]
    rw [hreg .rdi (by decide), hreg .rsi (by decide), hreg .rdx (by decide), hreg .rcx (by decide),
      hreg .r8 (by decide), hreg .r9 (by decide)]
    rfl

/-- The way back, from any return that leaves the two words alone. -/
theorem syscall_returned (S : SyscallCode code) {c₁ c₂ : Cpu} {s : View} (hs : Shows c₁ s)
    (hbase : s.base = c.regs .rsp) (hstack : s.stack = [S.back, c.regs .r11, c.regs .rcx])
    (hrsp : c.regs .rsp < 2 ^ 64) (hret : Returned c₁ c₂ 2) :
    ∃ k c₃, run code k c₂ = some c₃ ∧ c₃.rip = S.sysretAt ∧ c₃.regs .rax = c₂.regs .rax ∧
      c₃.regs .rcx = c.regs .rcx ∧ c₃.regs .r11 = c.regs .r11 ∧ c₃.regs .rsp = c.regs .rsp := by
  obtain ⟨hrip, hshows⟩ := hret.shows hs hstack (Nat.le_refl 2)
  obtain ⟨k, c₃, hrun, hrip₃, hend⟩ := hshows.run S.exit_placed hrip rfl
  refine ⟨k, c₃, hrun, hrip₃, ?_, ?_, ?_, ?_⟩
  · exact hend.regs_eq .rax (by decide)
  · exact hend.regs_eq .rcx (by decide)
  · exact hend.regs_eq .r11 (by decide)
  · rw [hend.rsp_eq]
    show (s.base + 2 ^ 64 - 8 * 0) % 2 ^ 64 = _
    rw [hbase]
    omega

theorem SyscallIntact.equal {S : SyscallCode code} (h : SyscallIntact S c) (hrip : c.rip = S.entry)
    (hregs : ∀ r, c.regs r < 2 ^ 64) :
    c.regs .rax = c.regs .rdi ∧ c.regs .rdx = c.regs .r10 ∧ c.regs .rdx = c.regs .r8 ∧
      c.regs .r9 = c.regs .r11 := by
  obtain ⟨n, c₁, s, hrun, hrip₁, -, -, -, hparams⟩ := syscall_called S hrip hregs
  obtain ⟨k, c₁', hrun', hrip', hmatch, -⟩ := h
  have hsame : c₁ = c₁' := run_end_unique hrun hrun' (by rw [hrip₁]; exact S.dispatch_outside)
    (by rw [hrip']; exact S.dispatch_outside)
  rw [← hsame, hparams] at hmatch
  simp only [requested, List.map_cons, List.map_nil, List.cons.injEq] at hmatch
  obtain ⟨hnum, -, -, harg3, harg4, -, harg6, -⟩ := hmatch
  exact ⟨hnum.symm, harg4, harg3.symm, harg6.symm⟩

/-- The dispatcher gets what was requested exactly when the values that end up in
each other's places are equal. -/
theorem syscall_intact_iff (S : SyscallCode code) (hrip : c.rip = S.entry)
    (hregs : ∀ r, c.regs r < 2 ^ 64) :
    SyscallIntact S c ↔ c.regs .rax = c.regs .rdi ∧ c.regs .rdx = c.regs .r10 ∧
      c.regs .rdx = c.regs .r8 ∧ c.regs .r9 = c.regs .r11 := by
  constructor
  · intro h
    exact h.equal hrip hregs
  · intro ⟨hnum, harg4, harg5, harg6⟩
    obtain ⟨n, c₁, s, hrun, hrip₁, hshows, hbase, hstack, hparams⟩ := syscall_called S hrip hregs
    refine ⟨n, c₁, hrun, hrip₁, ?_, ?_⟩
    · rw [hparams]
      simp only [requested, List.map_cons, List.map_nil]
      rw [← harg4, ← harg5, harg6, hnum]
    · intro r c₂ hret hrax
      obtain ⟨k, c₃, hback, hend⟩ := syscall_returned S hshows hbase hstack (hregs .rsp) hret
      rw [hrax] at hend
      exact ⟨k, c₃, hback, hend⟩

def syscallAsm (dispatch : Nat) : List Instr :=
  syscallEntry ++ ([.call dispatch] ++ syscallExit ++ [.sysretq])

def assembledSyscall (base dispatch : Nat) (hbase : base + 15 < 2 ^ 64) (hout : dispatch < base) :
    SyscallCode (assemble base (syscallAsm dispatch)) where
  entry := base
  callAt := base + 14
  back := base + 15
  sysretAt := base + 17
  dispatch := dispatch
  back_lt := hbase
  entry_placed := placed_assemble base [] syscallEntry ((syscallAsm dispatch).drop 14)
  call_dispatch := assemble_at base _ 14
  dispatch_outside := if_neg (Nat.not_le.mpr hout)
  exit_placed := placed_assemble base ((syscallAsm dispatch).take 15) syscallExit [.sysretq]
  sysret := ⟨_, assemble_at base _ 17⟩

/-- A user program at a `syscall` instruction that has brought it to `syscall_entry`. -/
def calling (number arg1 : Nat) : Cpu where
  regs r := if r = .rax then number else if r = .rdi then arg1 else if r = .rsp then 0x8000 else 0
  segs _ := 8
  rip := 0x100000
  rflags := 2
  mem _ := 0

theorem calling_lt {number arg1 : Nat} (hn : number < 2 ^ 64) (ha : arg1 < 2 ^ 64) (r : Reg) :
    (calling number arg1).regs r < 2 ^ 64 := by
  simp only [calling]
  split
  · exact hn
  · split
    · exact ha
    · split
      · decide
      · decide

/-- Number and first argument equal, the others zero: the call gets through. -/
theorem syscall_intact_write :
    SyscallIntact (assembledSyscall 0x100000 0x200 (by decide) (by decide)) (calling 1 1) :=
  (syscall_intact_iff (assembledSyscall 0x100000 0x200 (by decide) (by decide)) rfl
    (calling_lt (by decide) (by decide))).mpr ⟨rfl, rfl, rfl, rfl⟩

/-- System call 1 with first argument 2 does not. -/
theorem syscall_arguments_lost :
    (calling 1 2).rip = (assembledSyscall 0x100000 0x200 (by decide) (by decide)).entry ∧
      (∀ r, (calling 1 2).regs r < 2 ^ 64) ∧
      ¬ SyscallIntact (assembledSyscall 0x100000 0x200 (by decide) (by decide)) (calling 1 2) := by
  refine ⟨rfl, calling_lt (by decide) (by decide), ?_⟩
  intro h
  obtain ⟨hnum, -⟩ := h.equal rfl (calling_lt (by decide) (by decide))
  cases hnum

end Kaviz.Entry
