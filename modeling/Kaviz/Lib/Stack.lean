import Kaviz.Lib.X86

/-! # The stack as a list of words

What code leaves on its stack is described from the top downwards, without
addresses: the stack may wrap around the address space and need not be aligned.
A called function is known by its calling convention only.
-/

namespace Kaviz.X86

open Bytes

/-- The words from the stack pointer on. -/
def Stacked (c : Cpu) (vs : List Nat) : Prop :=
  ∀ i v, vs[i]? = some v → c.word (c.regs .rsp + 8 * i) = v

variable {c c' : Cpu} {vs : List Nat} {v : Nat}

theorem Stacked.congr (h : Stacked c vs) (hmem : c'.mem = c.mem)
    (hrsp : c'.regs .rsp = c.regs .rsp) : Stacked c' vs := by
  intro i v hv
  rw [hrsp, Cpu.word, hmem]
  exact h i v hv

theorem stacked_nil (c : Cpu) : Stacked c [] := by
  intro i v hv
  cases hv

theorem Stacked.top (h : Stacked c (v :: vs)) : c.word (c.regs .rsp) = v := h 0 v rfl

theorem set_self (c : Cpu) (r : Reg) (v : Nat) : (c.set r v).regs r = v := Function.update_self ..

theorem set_other (c : Cpu) (v : Nat) {r r' : Reg} (hr : r' ≠ r) : (c.set r v).regs r' = c.regs r' :=
  Function.update_of_ne hr ..

theorem push_rsp (c : Cpu) (v : Nat) :
    (c.push v).regs .rsp = (c.regs .rsp + 2 ^ 64 - 8) % 2 ^ 64 := by
  simp only [Cpu.push, Cpu.set, Function.update_self]

theorem push_regs (c : Cpu) (v : Nat) {r : Reg} (hr : r ≠ .rsp) : (c.push v).regs r = c.regs r := by
  simp only [Cpu.push, Cpu.set, Cpu.write, Function.update_of_ne hr]

theorem Stacked.push (h : Stacked c vs) (hv : v < 2 ^ 64) (hlen : 8 * (vs.length + 1) ≤ 2 ^ 64) :
    Stacked (c.push v) (v :: vs) := by
  intro i w hw
  have hmem : (c.push v).mem = writeLE c.mem ((c.regs .rsp + 2 ^ 64 - 8) % 2 ^ 64 % 2 ^ 64) 8 v := by
    simp only [Cpu.push, Cpu.set, Cpu.write]
  rw [push_rsp, Cpu.word, hmem]
  cases i with
  | zero =>
      have hw' : v = w := Option.some.inj hw
      have haddr : ((c.regs .rsp + 2 ^ 64 - 8) % 2 ^ 64 + 8 * 0) % 2 ^ 64 =
          (c.regs .rsp + 2 ^ 64 - 8) % 2 ^ 64 % 2 ^ 64 := by omega
      rw [← hw', haddr, readLE8_writeLE8_same _ _ hv]
  | succ i =>
      have hw' : vs[i]? = some w := hw
      have hi : i < vs.length := (List.getElem?_eq_some_iff.mp hw').choose
      rw [readLE_writeLE_disjoint _ _ (by omega)]
      have haddr : ((c.regs .rsp + 2 ^ 64 - 8) % 2 ^ 64 + 8 * (i + 1)) % 2 ^ 64 =
          (c.regs .rsp + 8 * i) % 2 ^ 64 := by omega
      rw [haddr]
      exact h i w hw

theorem drop_rsp (c : Cpu) (n : Nat) : (c.drop n).regs .rsp = (c.regs .rsp + n) % 2 ^ 64 := by
  simp only [Cpu.drop, Cpu.set, Function.update_self]

theorem drop_regs (c : Cpu) (n : Nat) {r : Reg} (hr : r ≠ .rsp) : (c.drop n).regs r = c.regs r := by
  simp only [Cpu.drop, Cpu.set, Function.update_of_ne hr]

/-- Moving the stack pointer over words that are not needed. -/
theorem Stacked.dropped {ws : List Nat} (h : Stacked c (ws ++ vs)) (hmem : c'.mem = c.mem)
    (hrsp : c'.regs .rsp = (c.regs .rsp + 8 * ws.length) % 2 ^ 64) : Stacked c' vs := by
  intro i v hv
  have hfound : (ws ++ vs)[ws.length + i]? = some v := by
    rw [List.getElem?_append_right (by omega), Nat.add_sub_cancel_left]
    exact hv
  have haddr : ((c.regs .rsp + 8 * ws.length) % 2 ^ 64 + 8 * i) % 2 ^ 64 =
      (c.regs .rsp + 8 * (ws.length + i)) % 2 ^ 64 := by omega
  rw [hrsp, Cpu.word, hmem, haddr]
  exact h _ v hfound

/-! ## Views

A view is what straight code knows of the processor: the registers, and the words
it has put on the stack since the stack pointer was `base`. Instructions act on
views, so that a routine is executed by evaluating it on one. -/

structure View where
  regs : Reg → Nat
  segs : Seg → Nat
  base : Nat
  stack : List Nat

namespace View

def rsp (s : View) : Nat := (s.base + 2 ^ 64 - 8 * s.stack.length) % 2 ^ 64

def get (s : View) (r : Reg) : Nat := if r = .rsp then s.rsp else s.regs r

def set (s : View) (r : Reg) (v : Nat) : View := { s with regs := Function.update s.regs r v }

/-- The words views keep are fewer than this. -/
def depth : Nat := 1024

def effect (s : View) : Instr → Option View
  | .mov dst src => if dst = .rsp then none else some (s.set dst (s.get src))
  | .push src => if s.stack.length < depth then some { s with stack := s.get src :: s.stack } else none
  | .pushImm v =>
      if s.stack.length < depth ∧ v < 2 ^ 64 then some { s with stack := v :: s.stack } else none
  | .pop dst =>
      match s.stack with
      | [] => none
      | v :: vs => if dst = .rsp then none else some ({ s with stack := vs }.set dst v)
  | .addImm dst v =>
      if dst = .rsp ∧ v % 8 = 0 ∧ v / 8 ≤ s.stack.length then
        some { s with stack := s.stack.drop (v / 8) }
      else none
  | .movAx v => if v < 2 ^ 16 then some (s.set .rax (s.regs .rax / 2 ^ 16 * 2 ^ 16 + v)) else none
  | .movSeg dst => some { s with segs := Function.update s.segs dst (s.regs .rax % 2 ^ 16) }
  | .cli => some s
  | _ => none

def run (s : View) : List Instr → Option View
  | [] => some s
  | i :: is => (s.effect i).bind fun s' => s'.run is

theorem run_append (s : View) (is js : List Instr) :
    s.run (is ++ js) = (s.run is).bind fun s' => s'.run js := by
  induction is generalizing s with
  | nil => rfl
  | cons i is ih =>
      rw [List.cons_append, run, run]
      cases s.effect i with
      | none => rfl
      | some s₁ => exact ih s₁

theorem run_push (s : View) {rs : List Reg} (hrs : .rsp ∉ rs) (hlen : s.stack.length + rs.length ≤ depth) :
    s.run (rs.map .push) = some { s with stack := rs.reverse.map s.regs ++ s.stack } := by
  induction rs generalizing s with
  | nil => rfl
  | cons r rs ih =>
      obtain ⟨hr, hrest⟩ := not_or.mp (mt List.mem_cons.mpr hrs)
      rw [List.length_cons] at hlen
      have hpush : s.effect (.push r) = some { s with stack := s.regs r :: s.stack } := by
        rw [effect, if_pos (by omega), get, if_neg (Ne.symm hr)]
      rw [List.map_cons, run, hpush, Option.bind_some, ih _ hrest (by rw [List.length_cons]; omega),
        List.reverse_cons, List.map_append, List.append_assoc]
      rfl

theorem run_pop (s : View) {rs : List Reg} (hrs : .rsp ∉ rs) (f : Reg → Nat) {vs : List Nat}
    (hstack : s.stack = rs.map f ++ vs) :
    s.run (rs.map .pop) =
      some { s with regs := fun r => if r ∈ rs then f r else s.regs r, stack := vs } := by
  induction rs generalizing s with
  | nil =>
      have hsame : s.stack = vs := hstack
      rw [List.map_nil, run, ← hsame]
      simp only [List.not_mem_nil, if_false]
  | cons r rs ih =>
      obtain ⟨hr, hrest⟩ := not_or.mp (mt List.mem_cons.mpr hrs)
      have hpop : s.effect (.pop r) = some ({ s with stack := rs.map f ++ vs }.set r (f r)) := by
        rw [effect, hstack, List.map_cons, List.cons_append]
        exact if_neg (Ne.symm hr)
      rw [List.map_cons, run, hpop, Option.bind_some, ih _ hrest rfl]
      simp only [set, Option.some.injEq, mk.injEq, and_true]
      funext r'
      by_cases hin : r' ∈ rs
      · rw [if_pos hin, if_pos (List.mem_cons_of_mem r hin)]
      · rw [if_neg hin]
        by_cases hsame : r' = r
        · rw [hsame, Function.update_self, if_pos List.mem_cons_self]
        · rw [Function.update_of_ne hsame, if_neg (fun h => (List.mem_cons.mp h).elim hsame hin)]

end View

/-- The processor is as the view says. -/
structure Shows (c : Cpu) (s : View) : Prop where
  regs_eq : ∀ r, r ≠ .rsp → c.regs r = s.regs r
  regs_lt : ∀ r, s.regs r < 2 ^ 64
  rsp_eq : c.regs .rsp = s.rsp
  segs_eq : c.segs = s.segs
  stacked : Stacked c s.stack
  length_le : s.stack.length ≤ View.depth

namespace Shows

variable {s s' : View}

/-- A processor with nothing on the stack yet. -/
theorem start (hregs : ∀ r, c.regs r < 2 ^ 64) : Shows c ⟨c.regs, c.segs, c.regs .rsp, []⟩ := by
  have hrsp := hregs .rsp
  refine ⟨fun _ _ => rfl, hregs, ?_, rfl, stacked_nil c, Nat.zero_le _⟩
  simp only [View.rsp, List.length_nil]
  omega

theorem get_eq (h : Shows c s) (r : Reg) : c.regs r = s.get r := by
  rw [View.get]
  split
  · rename_i hr
    rw [hr, h.rsp_eq]
  · rename_i hr
    exact h.regs_eq r hr

theorem get_lt (h : Shows c s) (r : Reg) : s.get r < 2 ^ 64 := by
  rw [View.get]
  split
  · exact Nat.mod_lt _ (by decide)
  · exact h.regs_lt r

/-- A state whose registers other than the stack pointer have been changed alike. -/
theorem set (h : Shows c s) {r : Reg} (hr : r ≠ .rsp) (hv : v < 2 ^ 64) :
    Shows (c.set r v) (s.set r v) := by
  refine ⟨?_, ?_, ?_, h.segs_eq, h.stacked.congr rfl ?_, h.length_le⟩
  · intro r' hr'
    simp only [Cpu.set, View.set]
    by_cases hsame : r' = r
    · rw [hsame, Function.update_self, Function.update_self]
    · rw [Function.update_of_ne hsame, Function.update_of_ne hsame, h.regs_eq r' hr']
  · intro r'
    simp only [View.set]
    by_cases hsame : r' = r
    · rw [hsame, Function.update_self]
      exact hv
    · rw [Function.update_of_ne hsame]
      exact h.regs_lt r'
  · simp only [Cpu.set, Function.update_of_ne (Ne.symm hr)]
    exact h.rsp_eq
  · simp only [Cpu.set, Function.update_of_ne (Ne.symm hr)]

theorem push (h : Shows c s) (hv : v < 2 ^ 64) (hlen : s.stack.length < View.depth) :
    Shows (c.push v) { s with stack := v :: s.stack } := by
  have hdepth : View.depth = 1024 := rfl
  refine ⟨?_, h.regs_lt, ?_, h.segs_eq, h.stacked.push hv (by omega), hlen⟩
  · intro r hr
    rw [push_regs c v hr]
    exact h.regs_eq r hr
  · rw [push_rsp, h.rsp_eq]
    simp only [View.rsp, List.length_cons]
    omega

theorem drop (h : Shows c s) {k n : Nat} (hn : n = 8 * k) (hk : k ≤ s.stack.length) :
    Shows (c.drop n) { s with stack := s.stack.drop k } := by
  have hlen := h.length_le
  have hdepth : View.depth = 1024 := rfl
  have hrsp := drop_rsp c n
  have htake : (s.stack.take k).length = k := by rw [List.length_take, Nat.min_eq_left hk]
  refine ⟨?_, h.regs_lt, ?_, h.segs_eq, ?_, ?_⟩
  · intro r hr
    rw [drop_regs c n hr]
    exact h.regs_eq r hr
  · rw [hrsp, h.rsp_eq]
    simp only [View.rsp, List.length_drop]
    omega
  · have hall := h.stacked
    rw [← List.take_append_drop k s.stack] at hall
    have hmem : (c.drop n).mem = c.mem := rfl
    apply hall.dropped hmem
    rw [hrsp, htake, hn]
  · show (s.stack.drop k).length ≤ View.depth
    rw [List.length_drop]
    omega

theorem pop (h : Shows c s) {vs : List Nat} (hs : s.stack = v :: vs) {r : Reg} (hr : r ≠ .rsp) :
    Shows (X86.effect c (.pop r)) ({ s with stack := vs }.set r v) := by
  have hstack := h.stacked
  rw [hs] at hstack
  have hv : v < 2 ^ 64 := by
    rw [← hstack.top]
    exact readLE8_lt _ _
  have hdrop := h.drop (k := 1) (n := 8) rfl (by rw [hs, List.length_cons]; omega)
  rw [hs, List.drop_one, List.tail_cons] at hdrop
  have heffect : X86.effect c (.pop r) = (c.drop 8).set r v := by rw [X86.effect, hstack.top]
  rw [heffect]
  exact hdrop.set hr hv

theorem effect (h : Shows c s) {i : Instr} (hi : s.effect i = some s') :
    i.straight = true ∧ Shows (X86.effect c i) s' := by
  cases i with
  | mov dst src =>
      rw [View.effect] at hi
      split at hi
      · cases hi
      · rename_i hdst
        cases hi
        refine ⟨rfl, ?_⟩
        rw [X86.effect, h.get_eq src]
        exact h.set hdst (h.get_lt src)
  | push src =>
      rw [View.effect] at hi
      split at hi
      · rename_i hlen
        cases hi
        refine ⟨rfl, ?_⟩
        rw [X86.effect, h.get_eq src]
        exact h.push (h.get_lt src) hlen
      · cases hi
  | pushImm v =>
      rw [View.effect] at hi
      split at hi
      · rename_i hlen
        cases hi
        exact ⟨rfl, h.push hlen.2 hlen.1⟩
      · cases hi
  | pop dst =>
      rw [View.effect] at hi
      split at hi
      · cases hi
      · rename_i v vs hs
        split at hi
        · cases hi
        · rename_i hdst
          cases hi
          exact ⟨rfl, h.pop hs hdst⟩
  | addImm dst v =>
      rw [View.effect] at hi
      split at hi
      · rename_i hdrop
        cases hi
        refine ⟨rfl, ?_⟩
        rw [hdrop.1]
        exact h.drop (by omega) hdrop.2.2
      · cases hi
  | movAx v =>
      rw [View.effect] at hi
      split at hi
      · rename_i hv
        cases hi
        have hrax := h.regs_lt .rax
        refine ⟨rfl, ?_⟩
        rw [X86.effect, h.regs_eq .rax (by decide)]
        exact h.set (by decide) (by omega)
      · cases hi
  | movSeg dst =>
      cases hi
      refine ⟨rfl, h.regs_eq, h.regs_lt, h.rsp_eq, ?_, h.stacked.congr rfl rfl, h.length_le⟩
      show Function.update c.segs dst (c.regs .rax % 2 ^ 16) = _
      rw [h.segs_eq, h.regs_eq .rax (by decide)]
  | cli =>
      cases hi
      exact ⟨rfl, h.regs_eq, h.regs_lt, h.rsp_eq, h.segs_eq, h.stacked.congr rfl rfl, h.length_le⟩
  | _ => cases hi

theorem withRip (h : Shows c s) (a : Nat) : Shows { c with rip := a } s :=
  ⟨h.regs_eq, h.regs_lt, h.rsp_eq, h.segs_eq, h.stacked.congr rfl rfl, h.length_le⟩

theorem withSegs (h : Shows c s) (hregs : c'.regs = c.regs) (hmem : c'.mem = c.mem) :
    Shows c' { s with segs := c'.segs } := by
  refine ⟨?_, h.regs_lt, ?_, rfl, h.stacked.congr hmem (congrFun hregs .rsp), h.length_le⟩
  · rw [hregs]
    exact h.regs_eq
  · rw [hregs]
    exact h.rsp_eq

theorem run {code : Code} {a b : Nat} {is : List Instr} (h : Shows c s) (hp : Placed code a is b)
    (hc : c.rip = a) (hs : s.run is = some s') :
    ∃ n c', X86.run code n c = some c' ∧ c'.rip = b ∧ Shows c' s' := by
  induction is generalizing c s a with
  | nil =>
      cases hs
      exact ⟨0, c, rfl, hc.trans hp, h⟩
  | cons i is ih =>
      obtain ⟨a', hfetch, hrest⟩ := hp
      obtain ⟨s₁, hi, hs⟩ := Option.bind_eq_some_iff.mp hs
      obtain ⟨hstraight, hnext⟩ := h.effect hi
      have hexec : exec c a' i = some { X86.effect c i with rip := a' } := by
        cases i <;> first | rfl | cases hstraight
      obtain ⟨n, c', hrun, hrip, hend⟩ := ih (hnext.withRip a') hrest rfl hs
      refine ⟨n + 1, c', ?_, hrip, hend⟩
      rw [X86.run, step, hc, hfetch, Option.bind_some, hexec, Option.bind_some]
      exact hrun

theorem pushes (h : Shows c s) {vs : List Nat} (hvs : ∀ v ∈ vs, v < 2 ^ 64)
    (hlen : s.stack.length + vs.length ≤ View.depth) :
    Shows (vs.foldl Cpu.push c) { s with stack := vs.reverse ++ s.stack } := by
  induction vs generalizing c s with
  | nil => exact h
  | cons v vs ih =>
      rw [List.length_cons] at hlen
      obtain ⟨hv, hrest⟩ := List.forall_mem_cons.mp hvs
      have hnext := ih (h.push hv (by omega)) hrest (by rw [List.length_cons]; omega)
      rw [List.reverse_cons, List.append_assoc]
      exact hnext

theorem jmp {code : Code} {next target : Nat} (h : Shows c s)
    (hjmp : code c.rip = some (.jmp target, next)) :
    ∃ c', X86.run code 1 c = some c' ∧ c'.rip = target ∧ Shows c' s := by
  refine ⟨{ c with rip := target }, ?_, rfl, h.withRip target⟩
  rw [run_one, step, hjmp]
  rfl

theorem call {code : Code} {next target : Nat} (h : Shows c s)
    (hcall : code c.rip = some (.call target, next)) (hnext : next < 2 ^ 64)
    (hlen : s.stack.length < View.depth) :
    ∃ c', X86.run code 1 c = some c' ∧ c'.rip = target ∧ Shows c' { s with stack := next :: s.stack } := by
  refine ⟨{ c.push next with rip := target }, ?_, rfl, (h.push hnext hlen).withRip target⟩
  rw [run_one, step, hcall]
  rfl

end Shows

/-! ## Called functions -/

/-- A function that was entered in state `c` has returned in state `c'`, with so
many words of its caller's stack as they were. -/
structure Returned (c c' : Cpu) (frame : Nat) : Prop where
  rip : c'.rip = c.word (c.regs .rsp)
  rsp : c'.regs .rsp = (c.regs .rsp + 8) % 2 ^ 64
  saved : ∀ r ∈ calleeSaved, c'.regs r = c.regs r
  regs_lt : ∀ r, c'.regs r < 2 ^ 64
  cs : c'.segs .cs = c.segs .cs
  frame_eq : ∀ i, i < frame → c'.word (c'.regs .rsp + 8 * i) = c.word (c'.regs .rsp + 8 * i)

/-- The caller finds its words again and the registers as the function left them. -/
theorem Returned.shows {frame : Nat} {s : View} (h : Returned c c' frame) (hs : Shows c s)
    (hstack : s.stack = v :: vs) (hlen : vs.length ≤ frame) :
    c'.rip = v ∧ Shows c' { s with regs := c'.regs, segs := c'.segs, stack := vs } := by
  have hbound := hs.length_le
  have hdepth : View.depth = 1024 := rfl
  have hold := hs.stacked
  have hrsp := h.rsp
  rw [hs.rsp_eq] at hrsp
  rw [hstack] at hold hbound
  rw [List.length_cons] at hbound
  refine ⟨by rw [h.rip, hold.top], fun _ _ => rfl, h.regs_lt, ?_, rfl, ?_, by dsimp only; omega⟩
  · rw [hrsp]
    simp only [View.rsp, hstack, List.length_cons]
    omega
  · intro i w hw
    have hw' : vs[i]? = some w := hw
    have hi : i < vs.length := (List.getElem?_eq_some_iff.mp hw').choose
    have hin : (v :: vs)[i + 1]? = some w := hw'
    have haddr : ((c.regs .rsp + 8) % 2 ^ 64 + 8 * i) % 2 ^ 64 =
        (c.regs .rsp + 8 * (i + 1)) % 2 ^ 64 := by omega
    rw [h.frame_eq i (by omega), h.rsp, Cpu.word, haddr]
    exact hold (i + 1) w hin

/-- `iretq` goes to where the five words on the stack say. -/
theorem interruptReturn_stacked {rip sel flags rsp ss : Nat} (h : Stacked c [rip, sel, flags, rsp, ss])
    (hsel : sel < 2 ^ 16) (hne : sel / 4 ≠ 0) (hlevel : c.segs .cs % 4 ≤ sel % 4) :
    ∃ c', interruptReturn c = some c' ∧ c'.rip = rip ∧ c'.regs .rsp = rsp ∧
      c'.rflags = returnedFlags flags ∧ c'.segs .cs = sel ∧ ∀ r, r ≠ .rsp → c'.regs r = c.regs r := by
  have hword : c.word (c.regs .rsp + 8) = sel := h 1 sel rfl
  have hflags : c.word (c.regs .rsp + 16) = flags := h 2 flags rfl
  have hrsp : c.word (c.regs .rsp + 24) = rsp := h 3 rsp rfl
  have hvalid : ¬ (sel / 4 = 0 ∨ sel % 4 < c.segs .cs % 4) := by omega
  rw [interruptReturn]
  dsimp only
  rw [hword, Nat.mod_eq_of_lt hsel, if_neg hvalid]
  refine ⟨_, rfl, ?_, ?_, ?_, rfl, ?_⟩
  · exact h.top
  · dsimp only
    rw [set_self, hrsp]
  · rw [hflags]
  · intro r hr
    dsimp only
    rw [set_other _ _ hr]
    rfl

/-- Two runs that came to an address without an instruction are the same. -/
theorem run_end_unique {code : Code} {n k : Nat} {c₁ c₂ : Cpu} (hn : run code n c = some c₁)
    (hk : run code k c = some c₂) (hn' : code c₁.rip = none) (hk' : code c₂.rip = none) : c₁ = c₂ := by
  obtain ⟨j, -, hj⟩ := run_to_end hn hn' hk
  cases j with
  | zero => exact (Option.some.inj hj).symm
  | succ j =>
      rw [run, step, hk'] at hj
      cases hj

end Kaviz.X86
