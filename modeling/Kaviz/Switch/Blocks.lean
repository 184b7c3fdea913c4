import Kaviz.Switch.Routines

/-! # Saving and restoring a control block

What the three routines do to registers and memory, executed instruction by
instruction. Restoring a block leaves through its saved `rip`, with the stack
pointer it holds, and touches the sixteen bytes below that pointer. Saving fills
the block and touches the sixteen bytes below the caller's stack pointer.
-/

namespace Kaviz.Switch

open Bytes X86

variable {code : Code} {c d : Cpu} {m : Mem} {t r : Nat}

theorem field_lt (m : Mem) (t off : Nat) : field m t off < 2 ^ 64 := readLE8_lt m _

theorem field_congr {m' : Mem} {off : Nat} (h : ∀ a, t ≤ a → a < t + blockSize → m' a = m a)
    (hoff : off + 8 ≤ blockSize) : field m' t off = field m t off :=
  readLE_congr fun a hlo hhi => h a (by omega) (by omega)

theorem field_writeLE {b n off v : Nat} (h : Apart b n t blockSize) (hoff : off + 8 ≤ blockSize) :
    field (writeLE m b n v) t off = field m t off := by
  unfold Apart at h
  exact readLE_writeLE_disjoint m v (by omega)

/-! ## Restoring -/

/-- A block that `restore_context` can load: it and the stack it names are apart,
and its code segment has the current level. -/
structure Restorable (m : Mem) (t level : Nat) : Prop where
  bound : t + blockSize ≤ 2 ^ 64
  deep : 16 ≤ field m t 0
  apart : Apart (field m t 0 - 16) 16 t blockSize
  selector : field m t 0x80 % 2 ^ 16 / 4 ≠ 0
  level_eq : field m t 0x80 % 2 ^ 16 % 4 = level

/-- The processor runs on what the block at `t` holds. -/
structure Loaded (m : Mem) (t : Nat) (d : Cpu) : Prop where
  rip : d.rip = field m t 0xB8
  regs : ∀ x off, slot x = some off → d.regs x = field m t off
  rflags : d.rflags = poppedFlags (field m t 0xB0)
  cs : d.segs .cs = field m t 0x80 % 2 ^ 16

theorem restore_straight (i : Instr) (h : i ∈ restoreContext) : i.straight := by
  revert i
  decide

theorem restore_loads (c : Cpu) (x : Reg) : ((restoreContext.take 19).foldl effect c).regs x =
    ((slot x).map fun off => c.word (c.regs .rdi + off)).getD (c.regs .rdi) := by
  cases x <;> rfl

theorem pushMem_eq {off : Nat} (hdi : c.regs .rdi = t) (hsp : c.regs .rsp = r)
    (hbound : t + blockSize ≤ 2 ^ 64) (hoff : off < blockSize) (hlo : 8 ≤ r) (hhi : r < 2 ^ 64) :
    effect c (.pushMem .rdi off) = { c with
      regs := Function.update c.regs .rsp (r - 8)
      mem := writeLE c.mem (r - 8) 8 (field c.mem t off) } := by
  rw [effect, hdi, word_eq (by omega), push_eq hsp hlo hhi]
  rfl

theorem popfq_eq (hsp : c.regs .rsp = r) (hlo : 8 ≤ r) (hhi : r < 2 ^ 64) {v : Nat} (hv : v < 2 ^ 64) :
    effect { c with
      regs := Function.update c.regs .rsp (r - 8)
      mem := writeLE c.mem (r - 8) 8 v } .popfq = { c with
      rflags := poppedFlags v
      mem := writeLE c.mem (r - 8) 8 v } := by
  have htop : Function.update c.regs .rsp r = c.regs := by
    rw [← hsp]
    exact Function.update_eq_self _ _
  have hdrop : r - 8 + 8 = r := Nat.sub_add_cancel hlo
  have hmod : r % 2 ^ 64 = r := Nat.mod_eq_of_lt hhi
  have hread : (r - 8) % 2 ^ 64 = r - 8 := Nat.mod_eq_of_lt (by omega)
  simp only [effect, Cpu.drop, Cpu.set, Cpu.word, Function.update_self, Function.update_idem, hdrop,
    hmod, htop, hread, readLE8_writeLE8_same _ _ hv]

theorem slot_lt {x : Reg} {off : Nat} (h : slot x = some off) : off + 8 ≤ 0x80 := by
  cases x <;> cases h <;> decide

theorem restore_tail (hdi : c.regs .rdi = t) (hsp : c.regs .rsp = r) (hbound : t + blockSize ≤ 2 ^ 64)
    (hlo : 16 ≤ r) (hhi : r < 2 ^ 64) (hapart : Apart (r - 16) 16 t blockSize) :
    (restoreContext.drop 19).foldl effect c = { c with
      regs := Function.update c.regs .rsp (r - 16)
      rflags := poppedFlags (field c.mem t 0xB0)
      mem := writeLE (writeLE (writeLE c.mem (r - 8) 8 (field c.mem t 0xB0)) (r - 8) 8
        (field c.mem t 0x80)) (r - 16) 8 (field c.mem t 0xB8) } := by
  have htop : Apart (r - 8) 8 t blockSize := by
    unfold Apart at hapart ⊢
    omega
  have hsub : r - 8 - 8 = r - 16 := by omega
  have hrdi : Function.update c.regs .rsp (r - 8) .rdi = t := by
    rw [Function.update_of_ne (by decide), hdi]
  have hrsp : Function.update c.regs .rsp (r - 8) .rsp = r - 8 := Function.update_self _ _ _
  have hcs : effect { c with
      rflags := poppedFlags (field c.mem t 0xB0)
      mem := writeLE c.mem (r - 8) 8 (field c.mem t 0xB0) } (.pushMem .rdi 0x80) = _ :=
    pushMem_eq hdi hsp hbound (by decide) (by omega) hhi
  have hrip : effect { c with
      regs := Function.update c.regs .rsp (r - 8)
      rflags := poppedFlags (field c.mem t 0xB0)
      mem := writeLE (writeLE c.mem (r - 8) 8 (field c.mem t 0xB0)) (r - 8) 8
        (field (writeLE c.mem (r - 8) 8 (field c.mem t 0xB0)) t 0x80) } (.pushMem .rdi 0xB8) = _ :=
    pushMem_eq hrdi hrsp hbound (by decide) (by omega) (by omega)
  show effect (effect (effect (effect c (.pushMem .rdi 0xB0)) .popfq) (.pushMem .rdi 0x80))
    (.pushMem .rdi 0xB8) = _
  rw [pushMem_eq hdi hsp hbound (by decide) (by omega) hhi,
    popfq_eq hsp (by omega) hhi (field_lt c.mem t 0xB0), hcs, hrip]
  simp only [Function.update_idem, hsub, field_writeLE htop (show 0x80 + 8 ≤ blockSize by decide),
    field_writeLE htop (show 0xB8 + 8 ≤ blockSize by decide)]

/-- A far return to the same level, with the target on top of the stack. -/
theorem farReturn_same {a v w : Nat} (hsp : c.regs .rsp = a) (hbound : a + 16 < 2 ^ 64)
    (hrip : readLE c.mem a 8 = v) (hcs : readLE c.mem (a + 8) 8 = w) (hsel : w % 2 ^ 16 / 4 ≠ 0)
    (hlevel : w % 2 ^ 16 % 4 = c.segs .cs % 4) :
    farReturn c = some { c with
      regs := Function.update c.regs .rsp (a + 16)
      segs := Function.update c.segs .cs (w % 2 ^ 16)
      rip := v } := by
  have hlow : ¬ (w % 2 ^ 16 / 4 = 0 ∨ w % 2 ^ 16 % 4 < c.segs .cs % 4) := by omega
  unfold farReturn
  simp only [hsp, word_eq (show a < 2 ^ 64 by omega), word_eq (show a + 8 < 2 ^ 64 by omega), hrip,
    hcs, if_neg hlow, if_pos hlevel, Cpu.drop, Cpu.set, Cpu.setSeg, Nat.mod_eq_of_lt hbound]

theorem restore_run (R : Routines code) (hrip : c.rip = R.restoreContext) (hdi : c.regs .rdi = t)
    (h : Restorable c.mem t (c.segs .cs % 4)) :
    ∃ d, run code 24 c = some d ∧ Loaded c.mem t d ∧
      ∀ a, a + 16 < field c.mem t 0 ∨ field c.mem t 0 ≤ a → d.mem a = c.mem a := by
  have hsize : blockSize = 0xC0 := rfl
  have hbound := h.bound
  have hdeep := h.deep
  have hapart := h.apart
  have htop := field_lt c.mem t 0
  have hsame : ((restoreContext.take 19).foldl effect c).mem = c.mem := rfl
  have hcs : ((restoreContext.take 19).foldl effect c).segs .cs = c.segs .cs := rfl
  have hregs : ∀ x off, slot x = some off →
      ((restoreContext.take 19).foldl effect c).regs x = field c.mem t off := by
    intro x off hx
    have hoff := slot_lt hx
    rw [restore_loads, hx, Option.map_some, Option.getD_some, hdi, word_eq (by omega)]
    rfl
  have hdi₁ : ((restoreContext.take 19).foldl effect c).regs .rdi = t := (restore_loads c .rdi).trans hdi
  have hfold : restoreContext.foldl effect c =
      (restoreContext.drop 19).foldl effect ((restoreContext.take 19).foldl effect c) := by
    rw [← List.foldl_append, List.take_append_drop]
  generalize (restoreContext.take 19).foldl effect c = c₁ at hsame hcs hregs hdi₁ hfold
  have hsp₁ := hregs .rsp 0 rfl
  rw [← hsame] at hregs hsp₁ h hdeep hapart htop ⊢
  generalize hr : field c₁.mem t 0 = r at hsp₁ hdeep hapart htop
  rw [restore_tail hdi₁ hsp₁ hbound hdeep htop hapart] at hfold
  have hstraight := run_placed R.restore_placed restore_straight hrip
  rw [hfold] at hstraight
  obtain ⟨after, hret⟩ := R.restore_ret
  have hsub : r - 16 + 16 = r := Nat.sub_add_cancel hdeep
  have hsub' : r - 16 + 8 = r - 8 := by omega
  generalize hm : writeLE (writeLE (writeLE c₁.mem (r - 8) 8 (field c₁.mem t 0xB0)) (r - 8) 8
    (field c₁.mem t 0x80)) (r - 16) 8 (field c₁.mem t 0xB8) = m' at hstraight
  have htarget : readLE m' (r - 16) 8 = field c₁.mem t 0xB8 := by
    rw [← hm, readLE8_writeLE8_same _ _ (field_lt c₁.mem t 0xB8)]
  have hcode : readLE m' (r - 16 + 8) 8 = field c₁.mem t 0x80 := by
    rw [hsub', ← hm, readLE_writeLE_disjoint _ _ (Or.inr (by omega)),
      readLE8_writeLE8_same _ _ (field_lt c₁.mem t 0x80)]
  have hrsp : Function.update c₁.regs .rsp (r - 16) .rsp = r - 16 := Function.update_self _ _ _
  have hreturn : farReturn ⟨Function.update c₁.regs .rsp (r - 16), c₁.segs, R.restoreRet,
      poppedFlags (field c₁.mem t 0xB0), m'⟩ = _ :=
    farReturn_same hrsp (by omega) htarget hcode h.selector
      (by rw [h.level_eq, ← hcs])
  have hrun : run code 24 c = farReturn ⟨Function.update c₁.regs .rsp (r - 16), c₁.segs,
      R.restoreRet, poppedFlags (field c₁.mem t 0xB0), m'⟩ := by
    rw [show 24 = restoreContext.length + 1 from rfl, run_add, hstraight, Option.bind_some, run_one,
      step, hret, Option.bind_some, exec]
  rw [hreturn] at hrun
  refine ⟨_, hrun, ?_, ?_⟩
  · constructor
    · rfl
    · intro x off hx
      dsimp only
      rw [Function.update_idem, hsub]
      by_cases hx' : x = .rsp
      · subst hx'
        obtain rfl : 0 = off := Option.some.inj hx
        rw [Function.update_self, hr]
      · rw [Function.update_of_ne hx']
        exact hregs x off hx
    · rfl
    · exact Function.update_self Seg.cs (field c₁.mem t 0x80 % 2 ^ 16) c₁.segs
  · intro a ha
    dsimp only
    rw [← hm, writeLE_outside _ _ (by omega), writeLE_outside _ _ (by omega),
      writeLE_outside _ _ (by omega)]

/-! ## Saving -/

/-- Stores into the block at `t`, one after the other: offset, length and value. -/
def storeAll (m : Mem) (t : Nat) (l : List (Nat × Nat × Nat)) : Mem :=
  l.foldl (fun m s => writeLE m ((t + s.1) % 2 ^ 64) s.2.1 s.2.2) m

theorem storeAll_outside {l : List (Nat × Nat × Nat)} {a : Nat} (hbound : t + blockSize ≤ 2 ^ 64)
    (hfit : ∀ s ∈ l, s.1 < blockSize) (h : ∀ s ∈ l, a < t + s.1 ∨ t + s.1 + s.2.1 ≤ a) :
    storeAll m t l a = m a := by
  induction l generalizing m with
  | nil => rfl
  | cons s l ih =>
      have hs := hfit s List.mem_cons_self
      have hapart := h s List.mem_cons_self
      have hmod : (t + s.1) % 2 ^ 64 = t + s.1 := Nat.mod_eq_of_lt (by omega)
      rw [storeAll, List.foldl_cons, ← storeAll,
        ih (fun u hu => hfit u (List.mem_cons_of_mem _ hu))
          (fun u hu => h u (List.mem_cons_of_mem _ hu)), hmod, writeLE_outside _ _ hapart]

/-- With ascending offsets every store is read back. -/
theorem storeAll_mem {l : List (Nat × Nat × Nat)} {s : Nat × Nat × Nat}
    (hbound : t + blockSize ≤ 2 ^ 64) (hfit : ∀ s ∈ l, s.1 < blockSize)
    (hsorted : l.Pairwise fun s u => s.1 + s.2.1 ≤ u.1) (hs : s ∈ l) :
    readLE (storeAll m t l) (t + s.1) s.2.1 = s.2.2 % 256 ^ s.2.1 := by
  obtain ⟨l₁, l₂, rfl⟩ := List.append_of_mem hs
  have hmod : (t + s.1) % 2 ^ 64 = t + s.1 := Nat.mod_eq_of_lt (by have := hfit s hs; omega)
  have hlater := (List.pairwise_cons.1 (List.pairwise_append.1 hsorted).2.1).1
  have hlast : storeAll m t (l₁ ++ s :: l₂) =
      storeAll (writeLE (storeAll m t l₁) (t + s.1) s.2.1 s.2.2) t l₂ := by
    rw [storeAll, List.foldl_append, List.foldl_cons, hmod]
    rfl
  rw [hlast, ← readLE_writeLE_same (storeAll m t l₁) (t + s.1)]
  apply readLE_congr
  intro a hlo hhi
  apply storeAll_outside hbound
  · intro u hu
    exact hfit u (List.mem_append_right _ (List.mem_cons_of_mem _ hu))
  · intro u hu
    have := hlater u hu
    omega

def stored (c : Cpu) : Instr → Option (Nat × Nat × Nat)
  | .store .rdi off src => some (off, 8, c.regs src)
  | .storeSeg .rdi off src => some (off, 2, c.segs src)
  | _ => none

theorem effect_stored {i : Instr} {s : Nat × Nat × Nat} (h : stored c i = some s) :
    effect c i = { c with mem := writeLE c.mem ((c.regs .rdi + s.1) % 2 ^ 64) s.2.1 s.2.2 } := by
  unfold stored at h
  split at h
  · obtain rfl := Option.some.inj h
    rfl
  · obtain rfl := Option.some.inj h
    rfl
  · cases h

theorem foldl_stored {is : List Instr} (h : ∀ i ∈ is, (stored c i).isSome) :
    is.foldl effect c =
      { c with mem := storeAll c.mem (c.regs .rdi) (is.filterMap (stored c)) } := by
  induction is generalizing c with
  | nil => rfl
  | cons i is ih =>
      obtain ⟨s, hs⟩ := Option.isSome_iff_exists.1 (h i List.mem_cons_self)
      rw [List.foldl_cons, effect_stored hs, List.filterMap_cons_some hs]
      -- the instruction changes the memory only, so the rest stores what it did before
      apply ih
      intro j hj
      exact h j (List.mem_cons_of_mem _ hj)

def image (c : Cpu) : List (Nat × Nat × Nat) :=
  [(0x00, 8, c.regs .rsp), (0x08, 8, c.regs .r15), (0x10, 8, c.regs .r14), (0x18, 8, c.regs .r13),
    (0x20, 8, c.regs .r12), (0x28, 8, c.regs .r11), (0x30, 8, c.regs .r10), (0x38, 8, c.regs .r9),
    (0x40, 8, c.regs .r8), (0x48, 8, c.regs .rbp), (0x50, 8, c.regs .rdi), (0x58, 8, c.regs .rsi),
    (0x60, 8, c.regs .rdx), (0x68, 8, c.regs .rcx), (0x70, 8, c.regs .rbx), (0x78, 8, c.regs .rax),
    (0x80, 2, c.segs .cs), (0x88, 2, c.segs .ds), (0x90, 2, c.segs .es), (0x98, 2, c.segs .fs),
    (0xA0, 2, c.segs .gs), (0xA8, 2, c.segs .ss)]

theorem save_stores (c : Cpu) : (saveContext.take 22).foldl effect c =
    { c with mem := storeAll c.mem (c.regs .rdi) (image c) } := by
  have hstore : (saveContext.take 22).all (fun i => (stored c i).isSome) = true := rfl
  rw [foldl_stored (List.all_eq_true.mp hstore)]
  rfl

/-- Sixteen registers and six selectors, each at the low end of a word. -/
theorem image_places (c : Cpu) : (image c).map (fun s => (s.1, s.2.1)) =
    (List.range 16).map (fun k => (8 * k, 8)) ++ (List.range 6).map fun k => (0x80 + 8 * k, 2) := rfl

theorem image_sorted (c : Cpu) : (image c).Pairwise fun s u => s.1 + s.2.1 ≤ u.1 := by
  have hplaces : ((image c).map fun s => (s.1, s.2.1)).Pairwise fun s u => s.1 + s.2 ≤ u.1 := by
    rw [image_places]
    decide
  exact List.pairwise_map.mp hplaces

theorem image_words (c : Cpu) {s : Nat × Nat × Nat} (hs : s ∈ image c) :
    s.1 % 8 = 0 ∧ s.1 < 0xB0 ∧ s.2.1 ≤ 8 ∧ (0x80 ≤ s.1 → s.2.1 = 2) := by
  have hall : ∀ p ∈ (List.range 16).map (fun k => (8 * k, 8)) ++
      (List.range 6).map fun k => (0x80 + 8 * k, 2),
      p.1 % 8 = 0 ∧ p.1 < 0xB0 ∧ p.2 ≤ 8 ∧ (0x80 ≤ p.1 → p.2 = 2) := by decide
  rw [← image_places c] at hall
  exact hall _ (List.mem_map_of_mem hs)

theorem image_fits (c : Cpu) : ∀ s ∈ image c, s.1 + s.2.1 ≤ 0xB0 := by
  intro s hs
  have hword := image_words c hs
  omega

theorem image_slot (c : Cpu) {x : Reg} {off : Nat} (h : slot x = some off) :
    (off, 8, c.regs x) ∈ image c := by
  have hat : (image c)[off / 8]? = some (off, 8, c.regs x) := by
    cases x <;> cases h <;> rfl
  exact List.mem_of_getElem? hat

theorem pushedFlags_lt (f : Nat) : pushedFlags f < 2 ^ 64 :=
  Nat.lt_of_le_of_lt Nat.and_le_right (by decide)

theorem pushfq_pop_eq (hsp : c.regs .rsp = r) (hlo : 8 ≤ r) (hhi : r < 2 ^ 64) :
    effect (effect c .pushfq) (.pop .rax) = { c with
      regs := Function.update c.regs .rax (pushedFlags c.rflags)
      mem := writeLE c.mem (r - 8) 8 (pushedFlags c.rflags) } := by
  have htop : Function.update c.regs .rsp r = c.regs := by
    rw [← hsp]
    exact Function.update_eq_self _ _
  have hdrop : r - 8 + 8 = r := Nat.sub_add_cancel hlo
  have hmod : r % 2 ^ 64 = r := Nat.mod_eq_of_lt hhi
  have hread : (r - 8) % 2 ^ 64 = r - 8 := Nat.mod_eq_of_lt (by omega)
  have hpush : effect c .pushfq = _ := push_eq hsp hlo hhi (pushedFlags c.rflags)
  rw [hpush]
  simp only [effect, Cpu.drop, Cpu.set, Cpu.word, Function.update_self, Function.update_idem, hdrop,
    hmod, htop, hread, readLE8_writeLE8_same _ _ (pushedFlags_lt c.rflags)]

theorem save_tail (hdi : c.regs .rdi = t) (hsp : c.regs .rsp = r) (hbound : t + blockSize ≤ 2 ^ 64)
    (hlo : 8 ≤ r) (hhi : r < 2 ^ 64) (hapart : Apart r 8 t blockSize) :
    (saveContext.drop 22).foldl effect c = { c with
      regs := Function.update c.regs .rax (readLE c.mem r 8)
      mem := writeLE (writeLE (writeLE c.mem (r - 8) 8 (pushedFlags c.rflags)) (t + 0xB0) 8
        (pushedFlags c.rflags)) (t + 0xB8) 8 (readLE c.mem r 8) } := by
  have hsize : blockSize = 0xC0 := rfl
  have hflags : (t + 0xB0) % 2 ^ 64 = t + 0xB0 := Nat.mod_eq_of_lt (by omega)
  have hrip : (t + 0xB8) % 2 ^ 64 = t + 0xB8 := Nat.mod_eq_of_lt (by omega)
  have hmod : r % 2 ^ 64 = r := Nat.mod_eq_of_lt hhi
  have hdi' : ∀ v, Function.update c.regs .rax v .rdi = t := fun v => by
    rw [Function.update_of_ne (by decide), hdi]
  have hsp' : ∀ v, Function.update c.regs .rax v .rsp = r := fun v => by
    rw [Function.update_of_ne (by decide), hsp]
  have hret : readLE (writeLE (writeLE c.mem (r - 8) 8 (pushedFlags c.rflags)) (t + 0xB0) 8
      (pushedFlags c.rflags)) r 8 = readLE c.mem r 8 := by
    unfold Apart at hapart
    rw [readLE_writeLE_disjoint _ _ (by omega), readLE_writeLE_disjoint _ _ (by omega)]
  show effect (effect (effect (effect (effect c .pushfq) (.pop .rax)) (.store .rdi 0xB0 .rax))
    (.load .rax .rsp 0)) (.store .rdi 0xB8 .rax) = _
  rw [pushfq_pop_eq hsp hlo hhi]
  simp only [effect, Cpu.write, Cpu.set, Cpu.word, Function.update_self, Function.update_idem, hdi',
    hsp', hflags, hrip, Nat.add_zero, hmod, hret]

/-- The block at `t` holds the state `c`, as `save_context` finds it: `rip` is the
return address on the stack. -/
structure Stored (c : Cpu) (m : Mem) (t : Nat) : Prop where
  rip : field m t 0xB8 = c.word (c.regs .rsp)
  regs : ∀ x off, slot x = some off → field m t off = c.regs x % 2 ^ 64
  rflags : field m t 0xB0 = pushedFlags c.rflags
  cs : field m t 0x80 % 2 ^ 16 = c.segs .cs % 2 ^ 16

theorem storeAll_selector {off v : Nat} (hbound : t + blockSize ≤ 2 ^ 64) (hs : (off, 2, v) ∈ image c)
    (hoff : 0x80 ≤ off) :
    field (storeAll m t (image c)) t off = v % 2 ^ 16 + 2 ^ 16 * readLE m (t + off + 2) 6 := by
  have hsize : blockSize = 0xC0 := rfl
  have hfit : ∀ s ∈ image c, s.1 < blockSize := by
    intro s hs
    have := image_fits c s hs
    omega
  have hlow : readLE (storeAll m t (image c)) (t + off) 2 = v % 256 ^ 2 :=
    storeAll_mem hbound hfit (image_sorted c) hs
  have hhigh : readLE (storeAll m t (image c)) (t + off + 2) 6 = readLE m (t + off + 2) 6 := by
    apply readLE_congr
    intro a hlo hhi
    apply storeAll_outside hbound hfit
    intro s' hs'
    have hword := image_words c hs
    have hword' := image_words c hs'
    dsimp only at hword
    omega
  have hsplit := readLE_add (storeAll m t (image c)) (t + off) 2 6
  rw [hlow, hhigh] at hsplit
  exact hsplit

/-- What `save_context` leaves of the words it puts `gs` and `ss` into. -/
structure SelectorsStored (c : Cpu) (m₀ m : Mem) (t : Nat) : Prop where
  gs : field m t 0xA0 = c.segs .gs % 2 ^ 16 + 2 ^ 16 * readLE m₀ (t + 0xA0 + 2) 6
  ss : field m t 0xA8 = c.segs .ss % 2 ^ 16 + 2 ^ 16 * readLE m₀ (t + 0xA8 + 2) 6

theorem save_straight (i : Instr) (h : i ∈ saveContext) : i.straight := by
  revert i
  decide

theorem save_memory (hdi : c.regs .rdi = t) (hsp : c.regs .rsp = r)
    (hbound : t + blockSize ≤ 2 ^ 64) (hlo : 8 ≤ r) (hhi : r < 2 ^ 64)
    (hapart : Apart (r - 8) 16 t blockSize) :
    ∃ m, saveContext.foldl effect c =
        { c with regs := Function.update c.regs .rax (readLE c.mem r 8), mem := m } ∧
      Stored c m t ∧ SelectorsStored c c.mem m t ∧ readLE m r 8 = readLE c.mem r 8 ∧
      ∀ a, a < t ∨ t + blockSize ≤ a → a + 8 < r ∨ r ≤ a → m a = c.mem a := by
  have hsize : blockSize = 0xC0 := rfl
  unfold Apart at hapart
  have hfit : ∀ s ∈ image c, s.1 < blockSize := by
    intro s hs
    have := image_fits c s hs
    omega
  have hfold : saveContext.foldl effect c =
      (saveContext.drop 22).foldl effect ((saveContext.take 22).foldl effect c) := by
    rw [← List.foldl_append, List.take_append_drop]
  have hout : ∀ a, a < t ∨ t + blockSize ≤ a → storeAll c.mem t (image c) a = c.mem a := by
    intro a ha
    apply storeAll_outside hbound hfit
    intro s hs
    have := image_fits c s hs
    omega
  have hword : readLE (storeAll c.mem t (image c)) r 8 = readLE c.mem r 8 :=
    readLE_congr fun a hlo hhi => hout a (by omega)
  have hkept : ∀ s ∈ image c, readLE (storeAll c.mem t (image c)) (t + s.1) s.2.1 =
      s.2.2 % 256 ^ s.2.1 := fun s hs => storeAll_mem hbound hfit (image_sorted c) hs
  have hgs := storeAll_selector (m := c.mem) hbound
    (show (0xA0, 2, c.segs .gs) ∈ image c from List.mem_of_getElem? (i := 20) rfl) (by decide)
  have hss := storeAll_selector (m := c.mem) hbound
    (show (0xA8, 2, c.segs .ss) ∈ image c from List.mem_of_getElem? (i := 21) rfl) (by decide)
  rw [save_stores, hdi] at hfold
  generalize storeAll c.mem t (image c) = m₁ at hfold hout hword hkept hgs hss
  rw [save_tail (c := { c with mem := m₁ }) hdi hsp hbound hlo hhi (by unfold Apart; omega)] at hfold
  dsimp only at hfold
  rw [hword] at hfold
  have hbehind : ∀ off, off + 8 ≤ 0xB0 → field (writeLE (writeLE (writeLE m₁ (r - 8) 8
      (pushedFlags c.rflags)) (t + 0xB0) 8 (pushedFlags c.rflags)) (t + 0xB8) 8 (readLE c.mem r 8)) t off =
      field m₁ t off := by
    intro off hoff
    unfold field
    rw [readLE_writeLE_disjoint _ _ (by omega), readLE_writeLE_disjoint _ _ (by omega),
      readLE_writeLE_disjoint _ _ (by omega)]
  refine ⟨_, hfold, ⟨?_, fun x off hx => ?_, ?_, ?_⟩, ⟨?_, ?_⟩, ?_, fun a ha ha' => ?_⟩
  · rw [hsp, word_eq hhi]
    exact readLE8_writeLE8_same _ _ (readLE8_lt _ _)
  · have hoff := slot_lt hx
    have hreg : readLE m₁ (t + off) 8 = c.regs x % 256 ^ 8 := hkept (off, 8, c.regs x) (image_slot c hx)
    have hbits : (256 : Nat) ^ 8 = 2 ^ 64 := by decide
    rw [hbehind off (by omega), field, hreg, hbits]
  · unfold field
    rw [readLE_writeLE_disjoint _ _ (by omega)]
    exact readLE8_writeLE8_same _ _ (pushedFlags_lt _)
  · have hcs : readLE m₁ (t + 0x80) 2 = c.segs .cs % 256 ^ 2 :=
      hkept (0x80, 2, c.segs .cs) (List.mem_of_getElem? (i := 16) rfl)
    rw [hbehind 0x80 (by decide)]
    exact (readLE_mod m₁ (t + 0x80) 2 6).trans hcs
  · rw [hbehind 0xA0 (by decide)]
    exact hgs
  · rw [hbehind 0xA8 (by decide)]
    exact hss
  · rw [readLE_writeLE_disjoint _ _ (by omega), readLE_writeLE_disjoint _ _ (by omega),
      readLE_writeLE_disjoint _ _ (by omega), hword]
  · rw [writeLE_outside _ _ (by omega), writeLE_outside _ _ (by omega),
      writeLE_outside _ _ (by omega), hout a ha]

theorem save_run (R : Routines code) (hrip : c.rip = R.saveContext) (hdi : c.regs .rdi = t)
    (hsp : c.regs .rsp = r) (hbound : t + blockSize ≤ 2 ^ 64) (hlo : 8 ≤ r) (hhi : r + 8 < 2 ^ 64)
    (hapart : Apart (r - 8) 16 t blockSize) :
    ∃ d, run code 28 c = some d ∧ d.rip = readLE c.mem r 8 ∧ d.segs = c.segs ∧
      d.regs = Function.update (Function.update c.regs .rax (readLE c.mem r 8)) .rsp (r + 8) ∧
      Stored c d.mem t ∧ SelectorsStored c c.mem d.mem t ∧
      ∀ a, a < t ∨ t + blockSize ≤ a → a + 8 < r ∨ r ≤ a → d.mem a = c.mem a := by
  obtain ⟨m, hfold, hstored, hselectors, hword, hframe⟩ :=
    save_memory hdi hsp hbound hlo (by omega) hapart
  have hstraight := run_placed R.save_placed save_straight hrip
  obtain ⟨after, hret⟩ := R.save_ret
  have hsp' : Function.update c.regs .rax (readLE c.mem r 8) .rsp = r := by
    rw [Function.update_of_ne (by decide), hsp]
  rw [hfold] at hstraight
  have hrun : run code 28 c = some ⟨Function.update (Function.update c.regs .rax (readLE c.mem r 8))
      .rsp (r + 8), c.segs, readLE c.mem r 8, c.rflags, m⟩ := by
    rw [show 28 = saveContext.length + 1 from rfl, run_add, hstraight, Option.bind_some, run_one,
      step, hret, Option.bind_some, exec]
    simp only [Cpu.drop, Cpu.set, Cpu.word, hsp', Nat.mod_eq_of_lt hhi,
      Nat.mod_eq_of_lt (show r < 2 ^ 64 by omega), hword]
  exact ⟨_, hrun, rfl, rfl, rfl, hstored, hselectors, hframe⟩

/-- `context_switch` up to the return of `save_context`: the block gets the stack
pointer and the return address inside the call, not those of the caller. -/
theorem switch_run (R : Routines code) (hrip : c.rip = R.contextSwitch) (hdi : c.regs .rdi = t)
    (hsp : c.regs .rsp = r) (hbound : t + blockSize ≤ 2 ^ 64) (hlo : 16 ≤ r) (hhi : r < 2 ^ 64)
    (hapart : Apart (r - 16) 16 t blockSize) :
    ∃ d, run code 29 c = some d ∧ d.rip = R.saved ∧ d.segs = c.segs ∧
      d.regs .rsi = c.regs .rsi ∧ d.regs .rsp = r ∧ field d.mem t 0xB8 = R.saved ∧
      field d.mem t 0 = r - 8 ∧ field d.mem t 0x58 = c.regs .rsi % 2 ^ 64 ∧
      field d.mem t 0x80 % 2 ^ 16 = c.segs .cs % 2 ^ 16 ∧ field d.mem t 0xB0 = pushedFlags c.rflags ∧
      SelectorsStored c c.mem d.mem t ∧
      ∀ a, a < t ∨ t + blockSize ≤ a → a + 16 < r ∨ r ≤ a → d.mem a = c.mem a := by
  have hcall : run code 1 c = some ⟨Function.update c.regs .rsp (r - 8), c.segs, R.saveContext,
      c.rflags, writeLE c.mem (r - 8) 8 R.saved⟩ := by
    rw [run_one, step, hrip, R.switch_save, Option.bind_some, exec, push_eq hsp (by omega) hhi]
  obtain ⟨c₁, hrun₁, hrip₁, hsegs₁, hregs₁, hflags₁, hmem₁⟩ : ∃ c₁, run code 1 c = some c₁ ∧
      c₁.rip = R.saveContext ∧ c₁.segs = c.segs ∧ c₁.regs = Function.update c.regs .rsp (r - 8) ∧
      c₁.rflags = c.rflags ∧ c₁.mem = writeLE c.mem (r - 8) 8 R.saved :=
    ⟨_, hcall, rfl, rfl, rfl, rfl, rfl⟩
  have hrsp : c₁.regs .rsp = r - 8 := by rw [hregs₁, Function.update_self]
  have hrdi : c₁.regs .rdi = t := by rw [hregs₁, Function.update_of_ne (by decide), hdi]
  have hrsi : c₁.regs .rsi = c.regs .rsi := by rw [hregs₁, Function.update_of_ne (by decide)]
  have hword : readLE c₁.mem (r - 8) 8 = R.saved := by
    rw [hmem₁, readLE8_writeLE8_same _ _ R.saved_lt]
  have hsize : blockSize = 0xC0 := rfl
  have hbelow : ∀ off, off + 6 ≤ blockSize → readLE c₁.mem (t + off) 6 = readLE c.mem (t + off) 6 := by
    intro off hoff
    unfold Apart at hapart
    rw [hmem₁, readLE_writeLE_disjoint _ _ (by omega)]
  obtain ⟨d, hrun, hret, hsegs, hregs, hstored, hselectors, hframe⟩ :=
    save_run R hrip₁ hrdi hrsp hbound (by omega) (by omega) (by unfold Apart at hapart ⊢; omega)
  have hsub : r - 8 + 8 = r := by omega
  have hmod : (r - 8) % 2 ^ 64 = r - 8 := Nat.mod_eq_of_lt (by omega)
  refine ⟨d, ?_, hret.trans hword, hsegs.trans hsegs₁, ?_, ?_, ?_, ?_, ?_, ?_, ?_, ⟨?_, ?_⟩,
    fun a ha ha' => ?_⟩
  · rw [show 29 = 1 + 28 from rfl, run_add, hrun₁, Option.bind_some, hrun]
  · rw [hregs, Function.update_of_ne (by decide), Function.update_of_ne (by decide), hrsi]
  · rw [hregs, Function.update_self, hsub]
  · rw [hstored.rip, hrsp, word_eq (by omega), hword]
  · rw [hstored.regs .rsp 0 rfl, hrsp, hmod]
  · rw [hstored.regs .rsi 0x58 rfl, hrsi]
  · rw [hstored.cs, hsegs₁]
  · rw [hstored.rflags, hflags₁]
  · rw [hselectors.gs, hsegs₁, Nat.add_assoc, hbelow _ (by decide)]
  · rw [hselectors.ss, hsegs₁, Nat.add_assoc, hbelow _ (by decide)]
  · rw [hframe a ha (by omega), hmem₁]
    exact writeLE_outside _ _ (by omega)

/-- `context_switch` behind the return of `save_context`: the block `rsi` names is
restored next. -/
theorem switch_next (R : Routines code) (hrip : c.rip = R.saved) (hsp : c.regs .rsp = r)
    (hlo : 8 ≤ r) (hhi : r < 2 ^ 64) :
    ∃ d, run code 2 c = some d ∧ d.rip = R.restoreContext ∧ d.regs .rdi = c.regs .rsi ∧
      d.segs = c.segs ∧ ∀ a, a + 8 < r ∨ r ≤ a → d.mem a = c.mem a := by
  obtain ⟨c₁, hmov, hrip₁, hregs₁, hsegs₁, hmem₁⟩ : ∃ c₁, step code c = some c₁ ∧ c₁.rip = R.next ∧
      c₁.regs = Function.update c.regs .rdi (c.regs .rsi) ∧ c₁.segs = c.segs ∧ c₁.mem = c.mem := by
    rw [step, hrip, R.switch_mov, Option.bind_some]
    exact ⟨_, rfl, rfl, rfl, rfl, rfl⟩
  have hsp₁ : c₁.regs .rsp = r := by rw [hregs₁, Function.update_of_ne (by decide), hsp]
  have hcall : step code c₁ = some ⟨Function.update c₁.regs .rsp (r - 8), c₁.segs,
      R.restoreContext, c₁.rflags, writeLE c₁.mem (r - 8) 8 R.back⟩ := by
    rw [step, hrip₁, R.switch_restore, Option.bind_some, exec, push_eq hsp₁ hlo hhi]
  have hrun : run code 2 c = step code c₁ := by rw [run, hmov, Option.bind_some, run_one]
  refine ⟨_, hrun.trans hcall, rfl, ?_, hsegs₁, fun a ha => ?_⟩
  · have hrdi : Function.update c₁.regs .rsp (r - 8) .rdi = c₁.regs .rdi :=
      Function.update_of_ne (by decide) _ _
    exact hrdi.trans (by rw [hregs₁, Function.update_self])
  · rw [← hmem₁]
    exact writeLE_outside _ _ (by omega)

end Kaviz.Switch
