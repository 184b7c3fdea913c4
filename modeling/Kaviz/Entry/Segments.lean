import Kaviz.Entry.Idt
import Kaviz.Lib.Traces

/-! # Segments and rings

The descriptor tables of `boot/stage2/gdt.asm` and `improved_gdt.asm`, the two entries that
`setup_user_segments` of `kernel/user_mode.c` adds, and the checks the processor makes
when a selector is loaded. The comments give the new segments privilege level 3;
their bits do not, and no code of the instructions modelled ever leaves ring 0: `wrmsr`,
`lgdt`, `sysret`, `sysexit` and far jumps are not among them, and nothing writes to the
table. The kernel loads no table of its own, so that its gates, all with selector 8,
meet the 32-bit code of the bootloaders.
-/

namespace Kaviz.Entry

open Bytes X86 Traces

/-! ## Descriptors -/

namespace Descriptor

def present (d : BitVec 64) : Bool := d.getLsbD 47

def dpl (d : BitVec 64) : Nat := (d.extractLsb' 45 2).toNat

def isCode (d : BitVec 64) : Bool := d.getLsbD 44 && d.getLsbD 43

def conforming (d : BitVec 64) : Bool := d.getLsbD 42

def isLong (d : BitVec 64) : Bool := d.getLsbD 53 && !d.getLsbD 54

def writable (d : BitVec 64) : Bool := d.getLsbD 44 && !d.getLsbD 43 && d.getLsbD 41

def readable (d : BitVec 64) : Bool := d.getLsbD 44 && (!d.getLsbD 43 || d.getLsbD 41)

end Descriptor

structure Gdt where
  entries : Nat
  entry : Nat → BitVec 64

namespace Gdt

def find (g : Gdt) (sel : Nat) : Option (BitVec 64) :=
  if sel / 4 % 2 = 0 ∧ sel / 8 < g.entries then some (g.entry (sel / 8)) else none

/-- A code segment that a far return may go to; compatibility mode is not modelled. -/
def codeOk (g : Gdt) (sel : Nat) : Bool :=
  sel / 4 ≠ 0 && (g.find sel).any fun d =>
    Descriptor.present d && Descriptor.isCode d && Descriptor.isLong d &&
      if Descriptor.conforming d then decide (Descriptor.dpl d ≤ sel % 4) else Descriptor.dpl d = sel % 4

def stackOk (g : Gdt) (cpl sel : Nat) : Bool :=
  sel % 4 = cpl && (sel / 4 = 0 && cpl ≠ 3 || (g.find sel).any fun d =>
    Descriptor.present d && Descriptor.writable d && Descriptor.dpl d = cpl)

def dataOk (g : Gdt) (cpl sel : Nat) : Bool :=
  sel / 4 = 0 || (g.find sel).any fun d =>
    Descriptor.present d && Descriptor.readable d &&
      (Descriptor.isCode d && Descriptor.conforming d || decide (max cpl (sel % 4) ≤ Descriptor.dpl d))

/-- A 64-bit code segment of ring 0, as interrupt gates need it. -/
def kernelCode (g : Gdt) (sel : Nat) : Bool :=
  sel / 4 ≠ 0 && (g.find sel).any fun d =>
    Descriptor.present d && Descriptor.isCode d && Descriptor.isLong d && Descriptor.dpl d = 0

end Gdt

/-- `gdt_start` of `gdt.asm`, and of `improved_gdt.asm`. -/
def bootDescriptors : List (BitVec 64) := [0#64, 0x00CF9A000000FFFF#64, 0x00CF92000000FFFF#64]

def improvedDescriptors : List (BitVec 64) :=
  [0#64, 0x00CF9A000000FFFF#64, 0x00CF92000000FFFF#64, 0x00AF9A000000FFFF#64, 0x00AF92000000FFFF#64]

def gdtOf (ds : List (BitVec 64)) : Gdt := ⟨ds.length, fun i => ds.getD i 0#64⟩

/-- `setup_user_segments`, with the loaded table for `gdt_entries`; the limit stays as it is. -/
def setupUserSegments (g : Gdt) : Gdt :=
  { g with
    entry := Function.update (Function.update g.entry 3 0x0020980000000000#64) 4 0x0000920000000000#64 }

/-- The tables the bootloaders leave, before `setup_user_segments` and after it. -/
def Installed (g : Gdt) : Prop :=
  ∃ ds, (ds = bootDescriptors ∨ ds = improvedDescriptors) ∧ (g = gdtOf ds ∨ g = setupUserSegments (gdtOf ds))

/-! ## A processor that checks -/

def cpl (c : Cpu) : Nat := c.segs .cs % 4

/-- Whether the instruction passes the checks of the selectors it loads. -/
def permitted (g : Gdt) (c : Cpu) : Instr → Bool
  | .retfq =>
      let sel := c.word (c.regs .rsp + 8) % 2 ^ 16
      g.codeOk sel && (sel % 4 = cpl c || g.stackOk (sel % 4) (c.word (c.regs .rsp + 24) % 2 ^ 16))
  | .iretq =>
      let sel := c.word (c.regs .rsp + 8) % 2 ^ 16
      g.codeOk sel && g.stackOk (sel % 4) (c.word (c.regs .rsp + 32) % 2 ^ 16)
  | .movSeg .cs | .loadSeg .cs _ _ => false
  | .movSeg .ss => g.stackOk (cpl c) (c.regs .rax % 2 ^ 16)
  | .loadSeg .ss base off => g.stackOk (cpl c) (c.word (c.regs base + off) % 2 ^ 16)
  | .movSeg _ => g.dataOk (cpl c) (c.regs .rax % 2 ^ 16)
  | .loadSeg _ base off => g.dataOk (cpl c) (c.word (c.regs base + off) % 2 ^ 16)
  | _ => true

def checkedStep (g : Gdt) (code : Code) (c : Cpu) : Option Cpu :=
  (code c.rip).bind fun i => if permitted g c i.1 then exec c i.2 i.1 else none

def checkedRun (g : Gdt) (code : Code) : Nat → Cpu → Option Cpu
  | 0, c => some c
  | n + 1, c => (checkedStep g code c).bind (checkedRun g code n)

/-- An instruction, or an interrupt through a gate with selector 8. -/
inductive ProcessorEvent
  | instr
  | interrupt (vector errorCode rsp0 target : Nat)

def processorStep (g : Gdt) (code : Code) (c : Cpu) : ProcessorEvent → Option Cpu
  | .instr => checkedStep g code c
  | .interrupt vector errorCode rsp0 target =>
      if g.kernelCode 8 then some (deliver c vector errorCode rsp0 target) else none

/-! ## Ring 0 -/

def KernelSegments (g : Gdt) : Prop :=
  ∀ i, Descriptor.isCode (g.entry i) = true →
    Descriptor.dpl (g.entry i) = 0 ∧ Descriptor.conforming (g.entry i) = false

section

variable {g : Gdt} {code : Code} {c c' : Cpu}

theorem kernelSegments_gdtOf {ds : List (BitVec 64)}
    (h : ∀ d ∈ ds, Descriptor.dpl d = 0 ∧ Descriptor.conforming d = false) : KernelSegments (gdtOf ds) := by
  intro i _
  simp only [gdtOf, List.getD_eq_getElem?_getD]
  cases hi : ds[i]? with
  | none => exact ⟨by decide, by decide⟩
  | some d => exact h d (List.mem_of_getElem? hi)

/-- The tables of the bootloader have such segments only. -/
theorem boot_kernelSegments : KernelSegments (gdtOf bootDescriptors) :=
  kernelSegments_gdtOf (by simp [bootDescriptors, Descriptor.dpl, Descriptor.conforming])

theorem improved_kernelSegments : KernelSegments (gdtOf improvedDescriptors) :=
  kernelSegments_gdtOf (by simp [improvedDescriptors, Descriptor.dpl, Descriptor.conforming])

theorem KernelSegments.user (h : KernelSegments g) : KernelSegments (setupUserSegments g) := by
  intro i hcode
  unfold setupUserSegments at hcode ⊢
  dsimp only at hcode ⊢
  by_cases hfour : i = 4
  · rw [hfour, Function.update_self] at hcode
    exact absurd hcode (by decide)
  · rw [Function.update_of_ne hfour] at hcode ⊢
    by_cases hthree : i = 3
    · rw [hthree, Function.update_self]
      decide
    · rw [Function.update_of_ne hthree] at hcode ⊢
      exact h i hcode

theorem Installed.kernelSegments (h : Installed g) : KernelSegments g := by
  obtain ⟨ds, hds, hg⟩ := h
  have hloaded : KernelSegments (gdtOf ds) := by
    rcases hds with rfl | rfl
    · exact boot_kernelSegments
    · exact improved_kernelSegments
  rcases hg with rfl | rfl
  · exact hloaded
  · exact hloaded.user

/-- A far return goes to ring 0. -/
theorem KernelSegments.codeOk (h : KernelSegments g) {sel : Nat} (hok : g.codeOk sel = true) : sel % 4 = 0 := by
  simp only [Gdt.codeOk, Bool.and_eq_true, Option.any_eq_true] at hok
  obtain ⟨-, d, hfind, ⟨⟨-, hcode⟩, -⟩, hlevel⟩ := hok
  unfold Gdt.find at hfind
  split at hfind
  · cases hfind
    obtain ⟨hdpl, hconforming⟩ := h (sel / 8) hcode
    rw [hconforming] at hlevel
    simp only [Bool.false_eq_true, if_false, decide_eq_true_eq] at hlevel
    omega
  · cases hfind

theorem setSeg_cs (c : Cpu) {s : Seg} (v : Nat) (hs : s ≠ .cs) : cpl (c.setSeg s v) = cpl c := by
  simp [cpl, Cpu.setSeg, Function.update_of_ne (Ne.symm hs)]

theorem effect_cpl (g : Gdt) (c : Cpu) {i : Instr} (hok : permitted g c i = true) : cpl (effect c i) = cpl c := by
  cases i with
  | movSeg dst => cases dst <;> first | exact setSeg_cs _ _ (by decide) | cases hok
  | loadSeg dst base off => cases dst <;> first | exact setSeg_cs _ _ (by decide) | cases hok
  | _ => rfl

/-- A step with the checks stays in ring 0. -/
theorem checkedStep_cpl (h : KernelSegments g) (hc : cpl c = 0) (hstep : checkedStep g code c = some c') :
    cpl c' = 0 := by
  obtain ⟨⟨i, next⟩, -, hexec⟩ := Option.bind_eq_some_iff.mp hstep
  dsimp only at hexec
  split at hexec
  · rename_i hok
    cases i with
    | retfq =>
        simp only [permitted, Bool.and_eq_true] at hok
        have hlevel := h.codeOk hok.1
        change farReturn c = some c' at hexec
        unfold farReturn at hexec
        dsimp only at hexec
        split at hexec
        · cases hexec
        · split at hexec
          · cases hexec
            exact hlevel
          · cases hexec
            exact hlevel
    | iretq =>
        simp only [permitted, Bool.and_eq_true] at hok
        have hlevel := h.codeOk hok.1
        change interruptReturn c = some c' at hexec
        unfold interruptReturn at hexec
        dsimp only at hexec
        split at hexec
        · cases hexec
        · cases hexec
          exact hlevel
    | sysretq => cases hexec
    | call target => cases hexec; exact hc
    | ret => cases hexec; exact hc
    | jmp target => cases hexec; exact hc
    | _ =>
        cases hexec
        exact (effect_cpl g c hok).trans hc
  · cases hexec

theorem processorStep_cpl (h : KernelSegments g) {e : ProcessorEvent} (hc : cpl c = 0)
    (hstep : processorStep g code c e = some c') : cpl c' = 0 := by
  cases e with
  | instr => exact checkedStep_cpl h hc hstep
  | interrupt vector errorCode rsp0 target =>
      unfold processorStep at hstep
      dsimp only at hstep
      split at hstep
      · cases hstep
        unfold cpl
        rw [deliver_cs]
      · cases hstep

/-- Nothing that runs, and no interrupt, leaves ring 0. -/
theorem ring_zero {ts : List (Step Cpu ProcessorEvent)} (h : KernelSegments g) (hc : cpl c = 0)
    (hrun : Trace (processorStep g code) c ts c') : cpl c' = 0 :=
  @Trace.inv _ _ _ _ _ _ (fun c => cpl c = 0) hrun hc fun hs => processorStep_cpl h hs

/-! ## Straight code with the checks -/

def Permitted (g : Gdt) : Cpu → List Instr → Prop
  | _, [] => True
  | c, i :: is => permitted g c i = true ∧ Permitted g (effect c i) is

theorem permitted_rip (g : Gdt) (c : Cpu) (r : Nat) (i : Instr) :
    permitted g { c with rip := r } i = permitted g c i := by
  cases i with
  | movSeg dst => cases dst <;> rfl
  | loadSeg dst base off => cases dst <;> rfl
  | _ => rfl

theorem permitted_list_rip (g : Gdt) (c : Cpu) (r : Nat) (is : List Instr) (h : Permitted g c is) :
    Permitted g { c with rip := r } is := by
  induction is generalizing c with
  | nil => trivial
  | cons i is ih =>
      refine ⟨(permitted_rip g c r i).trans h.1, ?_⟩
      rw [effect_rip]
      exact ih _ h.2

theorem checkedRun_add (g : Gdt) (code : Code) (n k : Nat) (c : Cpu) :
    checkedRun g code (n + k) c = (checkedRun g code n c).bind (checkedRun g code k) := by
  induction n generalizing c with
  | zero => rw [Nat.zero_add, checkedRun, Option.bind_some]
  | succ n ih =>
      rw [Nat.add_right_comm, checkedRun, checkedRun]
      cases checkedStep g code c with
      | none => rfl
      | some c₁ => exact ih c₁

theorem checkedRun_placed {a b : Nat} {is : List Instr} (hp : Placed code a is b)
    (hs : ∀ i ∈ is, i.straight) (hok : Permitted g c is) (hc : c.rip = a) :
    checkedRun g code is.length c = some { is.foldl effect c with rip := b } := by
  induction is generalizing c a with
  | nil =>
      have hb : a = b := hp
      subst hb
      subst hc
      rfl
  | cons i is ih =>
      obtain ⟨a', hfetch, hrest⟩ := hp
      have hi := hs i List.mem_cons_self
      have hexec : exec c a' i = some { effect c i with rip := a' } := by
        cases i <;> first | rfl | cases hi
      rw [List.length_cons, checkedRun, checkedStep, hc, hfetch, Option.bind_some]
      dsimp only
      rw [hok.1, if_pos rfl, hexec, Option.bind_some,
        ih hrest (fun j hj => hs j (List.mem_cons_of_mem _ hj)) (permitted_list_rip g _ a' is hok.2) rfl,
        List.foldl_cons, foldl_effect_rip]

theorem placed_append {a b : Nat} {is js : List Instr} (hp : Placed code a (is ++ js) b) :
    ∃ a', Placed code a is a' ∧ Placed code a' js b := by
  induction is generalizing a with
  | nil => exact ⟨a, rfl, hp⟩
  | cons i is ih =>
      obtain ⟨a₁, hfetch, hrest⟩ := hp
      obtain ⟨a', his, hjs⟩ := ih hrest
      exact ⟨a', ⟨a₁, hfetch, his⟩, hjs⟩

/-- A selector that does not pass ends the run. -/
theorem checkedRun_blocked (is : List Instr) {a b : Nat} {js : List Instr} {i : Instr}
    (hp : Placed code a (is ++ i :: js) b) (hs : ∀ i ∈ is, i.straight) (hok : Permitted g c is) (hc : c.rip = a)
    (hblocked : permitted g (is.foldl effect c) i = false) (n : Nat) :
    checkedRun g code (is.length + (n + 1)) c = none := by
  obtain ⟨a', his, next, hfetch, -⟩ := placed_append hp
  rw [checkedRun_add, checkedRun_placed his hs hok hc, Option.bind_some, checkedRun, checkedStep]
  dsimp only
  rw [hfetch, Option.bind_some]
  dsimp only
  rw [permitted_rip, hblocked]
  rfl

/-! ## `switch_to_user_mode` -/

/-- `switch_to_user_mode`, up to its `iretq`. -/
def switchToUserMode : List Instr :=
  [.movAx 0x20, .movSeg .ds, .movSeg .es, .movSeg .fs, .movSeg .gs,
    .mov .rsp .rdi,
    .pushImm 0x20, .push .rdi, .pushImm 0x202, .pushImm 0x18, .push .rsi]

theorem userSegments_ok :
    (setupUserSegments (gdtOf improvedDescriptors)).dataOk 0 0x20 = true ∧
      (setupUserSegments (gdtOf improvedDescriptors)).codeOk 0x18 = true ∧
      (setupUserSegments (gdtOf improvedDescriptors)).stackOk 0 0x20 = true := by
  decide +kernel

theorem switchToUserMode_permitted (hc : cpl c = 0) (hg : g.dataOk 0 0x20 = true) :
    Permitted g c switchToUserMode := by
  have hax : ∀ c' : Cpu, cpl c' = 0 → c'.regs .rax % 2 ^ 16 = 0x20 →
      g.dataOk (cpl c') (c'.regs .rax % 2 ^ 16) = true := by
    intro c' hlevel hrax
    rw [hlevel, hrax]
    exact hg
  have hrax : (c.regs .rax / 2 ^ 16 * 2 ^ 16 + 0x20) % 2 ^ 16 = 0x20 := by omega
  refine ⟨rfl, hax _ hc ?_, hax _ hc ?_, hax _ hc ?_, hax _ hc ?_, rfl, rfl, rfl, rfl, rfl, rfl, trivial⟩ <;>
    exact hrax

theorem switchToUserMode_stacked (hregs : ∀ r, c.regs r < 2 ^ 64) :
    Stacked (switchToUserMode.foldl effect c) [c.regs .rsi, 0x18, 0x202, c.regs .rdi, 0x20] := by
  have hrax := hregs .rax
  have hdepth : View.depth = 1024 := rfl
  obtain ⟨c₁, hc₁, hregs₁, hrsi, hrdi⟩ : ∃ c₁, (switchToUserMode.take 6).foldl effect c = c₁ ∧
      (∀ r, c₁.regs r < 2 ^ 64) ∧ c₁.regs .rsi = c.regs .rsi ∧ c₁.regs .rdi = c.regs .rdi := by
    refine ⟨_, rfl, ?_, rfl, rfl⟩
    intro r
    cases r <;> first | exact hregs _ | (show c.regs .rax / 2 ^ 16 * 2 ^ 16 + 0x20 < 2 ^ 64; omega)
  have hpush : switchToUserMode.foldl effect c =
      [0x20, c.regs .rdi, 0x202, 0x18, c.regs .rsi].foldl Cpu.push c₁ := by
    rw [← List.take_append_drop 6 switchToUserMode, List.foldl_append, hc₁]
    have hdi : (c₁.push 0x20).regs .rdi = c.regs .rdi := (push_regs _ _ (by decide)).trans hrdi
    have hsi : ((((c₁.push 0x20).push (c.regs .rdi)).push 0x202).push 0x18).regs .rsi = c.regs .rsi := by
      rw [push_regs _ _ (by decide), push_regs _ _ (by decide), push_regs _ _ (by decide),
        push_regs _ _ (by decide), hrsi]
    show effect (((effect (c₁.push 0x20) (.push .rdi)).push 0x202).push 0x18) (.push .rsi) = _
    rw [effect, effect, hdi, hsi]
    rfl
  have hwords : ∀ v ∈ [0x20, c.regs .rdi, 0x202, 0x18, c.regs .rsi], v < 2 ^ 64 := by
    have hdi := hregs .rdi
    have hsi := hregs .rsi
    simp only [List.mem_cons, List.not_mem_nil, or_false]
    rintro v (rfl | rfl | rfl | rfl | rfl) <;> omega
  have hshows := (Shows.start hregs₁).pushes hwords (by rw [hdepth]; simp)
  rw [hpush]
  exact hshows.stacked

/-- `iretq` goes on in ring 0, at the function and on the stack it was given. -/
theorem user_function_entered {a b next : Nat} (hp : Placed code a switchToUserMode b)
    (hiret : code b = some (.iretq, next)) (hrip : c.rip = a) (hc : cpl c = 0) (hregs : ∀ r, c.regs r < 2 ^ 64) :
    ∃ n c', checkedRun (setupUserSegments (gdtOf improvedDescriptors)) code n c = some c' ∧
      c'.rip = c.regs .rsi ∧ c'.regs .rsp = c.regs .rdi ∧ c'.rflags = 0x202 ∧ cpl c' = 0 := by
  obtain ⟨hdata, hcode, hstackOk⟩ := userSegments_ok
  have hstraight : ∀ i ∈ switchToUserMode, i.straight := by decide
  have hrun := checkedRun_placed hp hstraight (switchToUserMode_permitted hc hdata) hrip
  have hstacked := switchToUserMode_stacked hregs
  have hcs : (switchToUserMode.foldl effect c).segs .cs = c.segs .cs := rfl
  generalize switchToUserMode.foldl effect c = c₁ at hrun hstacked hcs
  have hsel : c₁.word (c₁.regs .rsp + 8) = 0x18 := hstacked 1 _ rfl
  have hss : c₁.word (c₁.regs .rsp + 32) = 0x20 := hstacked 4 _ rfl
  have hallowed : permitted (setupUserSegments (gdtOf improvedDescriptors)) c₁ .iretq = true := by
    simp only [permitted, hsel, hss]
    rw [show 0x18 % 2 ^ 16 = 0x18 from rfl, show 0x20 % 2 ^ 16 = 0x20 from rfl, hcode,
      show 0x18 % 4 = 0 from rfl, hstackOk]
    rfl
  have hring : c₁.segs .cs % 4 = 0 := by
    rw [hcs]
    exact hc
  have hreturn : Stacked { c₁ with rip := b } [c.regs .rsi, 0x18, 0x202, c.regs .rdi, 0x20] :=
    hstacked.congr rfl rfl
  obtain ⟨c', hexec, hrip', hrsp', hflags', hcs', -⟩ :=
    interruptReturn_stacked hreturn (by decide) (by decide) (hring.trans_le (Nat.zero_le _))
  have hlevel' : cpl c' = 0 := by
    unfold cpl
    rw [hcs']
  refine ⟨switchToUserMode.length + 1, c', ?_, hrip', hrsp', hflags'.trans (by decide), hlevel'⟩
  have hstep : checkedStep (setupUserSegments (gdtOf improvedDescriptors)) code { c₁ with rip := b } = some c' := by
    unfold checkedStep
    dsimp only
    rw [hiret, Option.bind_some]
    dsimp only
    rw [permitted_rip, hallowed, if_pos rfl]
    exact hexec
  rw [checkedRun_add, hrun, Option.bind_some, checkedRun, hstep]
  rfl

/-- In the table the makefile's bootloader loads, there is no room for the new segments. -/
theorem user_function_refused {a b : Nat} (hp : Placed code a switchToUserMode b) (hrip : c.rip = a) (n : Nat) :
    checkedRun (setupUserSegments (gdtOf bootDescriptors)) code (n + 2) c = none := by
  have hblocked : permitted (setupUserSegments (gdtOf bootDescriptors))
      ([Instr.movAx 0x20].foldl effect c) (.movSeg .ds) = false := by
    have hrax : (([Instr.movAx 0x20].foldl effect c).regs .rax) % 2 ^ 16 = 0x20 := by
      show (c.regs .rax / 2 ^ 16 * 2 ^ 16 + 0x20) % 2 ^ 16 = 0x20
      omega
    have hfind : (setupUserSegments (gdtOf bootDescriptors)).find 0x20 = none := by decide
    simp only [permitted, hrax, Gdt.dataOk, hfind]
    rfl
  rw [show n + 2 = [Instr.movAx 0x20].length + (n + 1) by rw [List.length_singleton]; omega]
  exact checkedRun_blocked [.movAx 0x20] hp (by decide) ⟨rfl, trivial⟩ hrip hblocked n

/-- With the bootloaders' tables, as long as they are not written to, no instruction of the fragment and no
interrupt ever leaves ring 0. With the segments that were to be for user mode, `switch_to_user_mode` enters
the user's function in ring 0, on the user's stack and with interrupts on, or faults at its second instruction
where the table has no room for them. -/
theorem user_mode_unreachable (code : Code) :
    (∀ g, Installed g → ∀ c ts c', cpl c = 0 → Trace (processorStep g code) c ts c' → cpl c' = 0) ∧
      ∀ a b next c, Placed code a switchToUserMode b → code b = some (.iretq, next) → c.rip = a →
        cpl c = 0 → (∀ r, c.regs r < 2 ^ 64) →
        (∃ n c', checkedRun (setupUserSegments (gdtOf improvedDescriptors)) code n c = some c' ∧
          c'.rip = c.regs .rsi ∧ c'.regs .rsp = c.regs .rdi ∧ c'.rflags = 0x202 ∧ cpl c' = 0) ∧
        ∀ n, checkedRun (setupUserSegments (gdtOf bootDescriptors)) code (n + 2) c = none := by
  refine ⟨?_, ?_⟩
  · intro g hg c ts c' hc hrun
    exact ring_zero hg.kernelSegments hc hrun
  · intro a b next c hp hiret hrip hc hregs
    exact ⟨user_function_entered hp hiret hrip hc hregs, user_function_refused hp hrip⟩

end

/-- The kernel calls `switch_to_user_mode(0x100002000, 0x400000)`. -/
def callingUser : Cpu where
  regs r := if r = .rdi then 0x100002000 else if r = .rsi then 0x400000 else 0
  segs s := if s = .cs then 0x18 else 0x20
  rip := 0x100000
  rflags := 0x2
  mem _ := 0

theorem user_mode_unreachable_called :
    ∃ n c', checkedRun (setupUserSegments (gdtOf improvedDescriptors))
        (assemble 0x100000 (switchToUserMode ++ [.iretq])) n callingUser = some c' ∧
      c'.rip = 0x400000 ∧ c'.regs .rsp = 0x100002000 ∧ c'.rflags = 0x202 ∧ cpl c' = 0 := by
  have hplaced := placed_assemble 0x100000 [] switchToUserMode [.iretq]
  rw [List.nil_append, List.length_nil, Nat.add_zero, show switchToUserMode.length = 11 from rfl] at hplaced
  have hiret := assemble_at 0x100000 (switchToUserMode ++ [.iretq]) 11
  rw [show (switchToUserMode ++ [.iretq])[11]? = some .iretq from rfl, Option.map_some] at hiret
  have hregs : ∀ r, callingUser.regs r < 2 ^ 64 := by
    intro r
    simp only [callingUser]
    split
    · decide
    · split <;> decide
  have hcalled := (user_mode_unreachable (assemble 0x100000 (switchToUserMode ++ [.iretq]))).2
  have hentered := hcalled 0x100000 (0x100000 + 11) (0x100000 + 11 + 1) callingUser hplaced hiret rfl rfl hregs
  exact hentered.1

/-! ## Gates and segments -/

def checkedInterrupt (g : Gdt) (c : Cpu) (t : Idtr) (vector errorCode rsp0 : Nat) : Option Cpu :=
  (t.gate c.mem vector).bind fun gate =>
    if g.kernelCode gate.selector ∧ gate.ist = 0 then some (deliver c vector errorCode rsp0 gate.offset) else none

/-- In the bootloaders' tables selector 8 is 32-bit code, which no gate may lead to in long mode. -/
theorem Installed.kernelCode {g : Gdt} (h : Installed g) : g.kernelCode 8 = false := by
  obtain ⟨ds, rfl | rfl, rfl | rfl⟩ := h <;> decide

section

variable {c : Cpu} {idt idtp : Nat} {m : Mem} {isr : Nat → Nat}

/-- All gates of `setup_idt` stand or fall with selector 8. -/
theorem checkedInterrupt_setupIdt (g : Gdt) (hidt : idt < 2 ^ 64)
    (hsep : idtp + 10 ≤ idt ∨ idt + 4096 ≤ idtp) (hisr : ∀ i, i < 48 → isr i < 2 ^ 64)
    (htable : ∀ x, idt ≤ x → x < idt + 4096 → c.mem x = (setupIdt idt idtp isr m).1 x)
    (vector errorCode rsp0 : Nat) :
    checkedInterrupt g c (setupIdt idt idtp isr m).2 vector errorCode rsp0 =
      if g.kernelCode 8 then interrupt c (setupIdt idt idtp isr m).2 vector errorCode rsp0 else none := by
  rw [checkedInterrupt, interrupt, gate_setupIdt isr hidt hsep hisr htable]
  by_cases hset : vector < 48
  · by_cases hsel : g.kernelCode 8 <;> simp [hset, hsel]
  · simp [hset]

/-- Where selector 8 is 64-bit code of ring 0, the gates of `setup_idt` pass the check; with the tables of the
bootloaders there is no vector through which an interrupt or an exception is taken. -/
theorem interrupts_refused (hidt : idt < 2 ^ 64) (hsep : idtp + 10 ≤ idt ∨ idt + 4096 ≤ idtp)
    (hisr : ∀ i, i < 48 → isr i < 2 ^ 64)
    (htable : ∀ x, idt ≤ x → x < idt + 4096 → c.mem x = (setupIdt idt idtp isr m).1 x) (g : Gdt) :
    (g.kernelCode 8 = true → ∀ vector errorCode rsp0,
      checkedInterrupt g c (setupIdt idt idtp isr m).2 vector errorCode rsp0 =
        interrupt c (setupIdt idt idtp isr m).2 vector errorCode rsp0) ∧
      (Installed g → ∀ vector errorCode rsp0,
        checkedInterrupt g c (setupIdt idt idtp isr m).2 vector errorCode rsp0 = none) := by
  refine ⟨?_, ?_⟩
  · intro hsel vector errorCode rsp0
    rw [checkedInterrupt_setupIdt g hidt hsep hisr htable, if_pos hsel]
  · intro hg vector errorCode rsp0
    rw [checkedInterrupt_setupIdt g hidt hsep hisr htable, hg.kernelCode, if_neg (by decide)]

end

theorem interrupts_refused_timer :
    checkedInterrupt (gdtOf improvedDescriptors) interruptedWithIdt (setupIdt 0x20000 0x21000
      (assembledInterrupts 0x100000 (by decide) (by decide)).isr fun _ => 0xCC).2 32 0 0 = none :=
  (@interrupts_refused interruptedWithIdt 0x20000 0x21000 (fun _ => 0xCC)
    (assembledInterrupts 0x100000 (by decide) (by decide)).isr (by decide) (Or.inr (by decide))
    (fun i hi => by show 0x100000 + 64 * i < 2 ^ 64; omega) (fun _ _ _ => rfl)
    (gdtOf improvedDescriptors)).2 ⟨improvedDescriptors, Or.inr rfl, Or.inl rfl⟩ 32 0 0

end Kaviz.Entry
