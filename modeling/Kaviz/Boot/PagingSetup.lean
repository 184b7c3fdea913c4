import Kaviz.Memory.Machine
import Kaviz.Paging.Tables

/-! # The page tables of the bootloader

`setup_paging` of `boot/stage2/paging_setup.asm`, and the walk a processor in long mode
makes through what it leaves. The entries of the page directory are stored eight bytes
apart, those of the page table four, although a processor takes both as eight bytes.
-/

namespace Kaviz.Boot

open Bytes Memory Paging

/-! ## The routine -/

/-- `PAGE_SIZE`, and the addresses of the four tables. -/
def pageSize : Nat := 4096
def pml4Addr : Nat := 0x100000
def pdptAddr : Nat := 0x101000
def pdAddr : Nat := 0x102000
def ptAddr : Nat := 0x103000

/-- `PRESENT | WRITABLE`; the addresses have no bits of them. -/
def entryFlags : Nat := 3

/-- `rep stosd` of a zero, with `n` in `ecx`. -/
def repStosd (m : Mem) (edi : Nat) : Nat → Mem
  | 0 => m
  | n + 1 => repStosd (writeLE m edi 4 0) (edi + 4) n

def clearPagingStructures (m : Mem) : Mem :=
  let m := repStosd m pml4Addr (pageSize / 4)
  let m := repStosd m pdptAddr (pageSize / 4)
  let m := repStosd m pdAddr (pageSize / 4)
  repStosd m ptAddr (pageSize / 4)

def setupPml4 (m : Mem) : Mem := writeLE m pml4Addr 4 (pdptAddr + entryFlags)

def setupPdpt (m : Mem) : Mem := writeLE m pdptAddr 4 (pdAddr + entryFlags)

/-- The loops that fill a table: one page further for `eax` and `stride` bytes for `edi`. -/
def fillLoop (stride : Nat) (m : Mem) (edi eax : Nat) : Nat → Mem
  | 0 => m
  | n + 1 => fillLoop stride (writeLE m edi 4 eax) (edi + stride) ((eax + pageSize) % 2 ^ 32) n

def setupPd (m : Mem) : Mem := fillLoop 8 m pdAddr (ptAddr + entryFlags) 512

def setupPt (m : Mem) : Mem := fillLoop 4 m ptAddr entryFlags 512

def setupPaging (m : Mem) : Mem := setupPt (setupPd (setupPdpt (setupPml4 (clearPagingStructures m))))

/-! ## The walk -/

structure Mapping where
  address : Nat
  writable : Bool
  deriving DecidableEq

def entryAt (m : Mem) (table i : Nat) : Nat := readLE m (table + 8 * i) 8

/-- The flags of an entry: bits 0, 1 and 7. -/
def EntryPresent (e : Nat) : Prop := e % 2 = 1

def EntryWritable (e : Nat) : Prop := e / 2 % 2 = 1

def EntryHuge (e : Nat) : Prop := e / 128 % 2 = 1

instance (e : Nat) : Decidable (EntryPresent e) := inferInstanceAs (Decidable (_ = _))
instance (e : Nat) : Decidable (EntryWritable e) := inferInstanceAs (Decidable (_ = _))
instance (e : Nat) : Decidable (EntryHuge e) := inferInstanceAs (Decidable (_ = _))

/-- The address in an entry, for what has `2 ^ k` bytes: up to bit 51. -/
def frameOf (k e : Nat) : Nat := e / 2 ^ k % 2 ^ (52 - k) * 2 ^ k

/-- The end of a walk: the entries on the way, and the page of `2 ^ k` bytes in the last of them. -/
def mapped (k e va : Nat) (path : List Nat) : Mapping :=
  ⟨frameOf k e + va % 2 ^ k, decide (∀ x ∈ path, EntryWritable x)⟩

def pageWalk (m : Mem) (cr3 va : Nat) : Option Mapping :=
  if ¬ Canonical va then none
  else
    let pml4e := entryAt m cr3 (pml4Index va)
    if ¬ EntryPresent pml4e then none
    else
      let pdpte := entryAt m (frameOf 12 pml4e) (pdptIndex va)
      if ¬ EntryPresent pdpte then none
      else if EntryHuge pdpte then some (mapped 30 pdpte va [pml4e, pdpte])
      else
        let pde := entryAt m (frameOf 12 pdpte) (pdIndex va)
        if ¬ EntryPresent pde then none
        else if EntryHuge pde then some (mapped 21 pde va [pml4e, pdpte, pde])
        else
          let pte := entryAt m (frameOf 12 pde) (ptIndex va)
          if ¬ EntryPresent pte then none else some (mapped 12 pte va [pml4e, pdpte, pde, pte])

/-- The first two megabytes are translated to themselves, and nothing else is translated. -/
def IdentityMapped (m : Mem) : Prop :=
  (∀ va, va < 2 ^ 21 → pageWalk m pml4Addr va = some ⟨va, true⟩) ∧
    ∀ va, 2 ^ 21 ≤ va → pageWalk m pml4Addr va = none

/-! ## What the loops store -/

section

variable {m : Mem} {edi eax n x stride : Nat}

theorem writeLE_zero_inside (m : Mem) {a n : Nat} (hlo : a ≤ x) (hhi : x < a + n) :
    writeLE m a n 0 x = 0 := by
  induction n generalizing m a with
  | zero => omega
  | succ n ih =>
      rw [writeLE]
      rcases Nat.lt_or_eq_of_le hlo with hlt | rfl
      · exact ih _ hlt (by omega)
      · rw [writeLE_outside _ _ (Or.inl (Nat.lt_succ_self a)), setByte_same]
        rfl

theorem repStosd_outside (h : x < edi ∨ edi + 4 * n ≤ x) : repStosd m edi n x = m x := by
  induction n generalizing m edi with
  | zero => rfl
  | succ n ih =>
      rw [repStosd, ih (by omega)]
      exact writeLE_outside m 0 (by omega)

theorem repStosd_inside (hlo : edi ≤ x) (hhi : x < edi + 4 * n) : repStosd m edi n x = 0 := by
  induction n generalizing m edi with
  | zero => omega
  | succ n ih =>
      rw [repStosd]
      rcases Nat.lt_or_ge x (edi + 4) with hfirst | hrest
      · rw [repStosd_outside (Or.inl hfirst)]
        exact writeLE_zero_inside m hlo hfirst
      · exact ih hrest (by omega)

theorem fillLoop_outside (h : ∀ i, i < n → x < edi + stride * i ∨ edi + stride * i + 4 ≤ x) :
    fillLoop stride m edi eax n x = m x := by
  induction n generalizing m edi eax with
  | zero => rfl
  | succ n ih =>
      have hfirst := h 0 (Nat.succ_pos n)
      rw [fillLoop, ih]
      · exact writeLE_outside m eax (by omega)
      · intro i hi
        have hnext := h (i + 1) (Nat.succ_lt_succ hi)
        rw [Nat.mul_succ] at hnext
        omega

/-- Each store of a loop is still there at its end. -/
theorem fillLoop_word (hstride : 4 ≤ stride) (heax : eax + pageSize * n ≤ 2 ^ 32) {i : Nat} (hi : i < n) :
    readLE (fillLoop stride m edi eax n) (edi + stride * i) 4 = eax + pageSize * i := by
  induction n generalizing m edi eax i with
  | zero => omega
  | succ n ih =>
      have hwidth : 256 ^ 4 = 2 ^ 32 := by decide
      rw [pageSize] at heax ih ⊢
      rw [fillLoop]
      cases i with
      | zero =>
          have hkept : ∀ x, edi ≤ x → x < edi + 4 →
              fillLoop stride (writeLE m edi 4 eax) (edi + stride) ((eax + pageSize) % 2 ^ 32) n x =
                writeLE m edi 4 eax x :=
            fun x _ hx => fillLoop_outside fun j _ => Or.inl (by omega)
          rw [Nat.mul_zero, Nat.mul_zero, Nat.add_zero, Nat.add_zero, readLE_congr hkept,
            readLE_writeLE_same, hwidth]
          exact Nat.mod_eq_of_lt (by omega)
      | succ i =>
          have hnext : (eax + pageSize) % 2 ^ 32 = eax + 4096 := Nat.mod_eq_of_lt (by
            rw [pageSize]
            omega)
          have hrest := @ih (writeLE m edi 4 eax) (edi + stride) (eax + 4096) (by omega) i
            (Nat.lt_of_succ_lt_succ hi)
          rw [hnext, Nat.mul_succ, ← Nat.add_assoc, Nat.add_right_comm, hrest]
          omega

end

/-! ## What the tables hold -/

section

variable {m : Mem} {x i : Nat}

theorem setupPt_outside (h : x < 0x103000 ∨ 0x103800 ≤ x) : setupPt m x = m x := by
  apply fillLoop_outside
  intro i hi
  rw [ptAddr]
  omega

theorem setupPd_outside (h : ∀ i, i < 512 → x < 0x102000 + 8 * i ∨ 0x102000 + 8 * i + 4 ≤ x) :
    setupPd m x = m x := fillLoop_outside h

theorem setupPdpt_outside (h : x < 0x101000 ∨ 0x101004 ≤ x) : setupPdpt m x = m x :=
  writeLE_outside m _ h

theorem setupPml4_outside (h : x < 0x100000 ∨ 0x100004 ≤ x) : setupPml4 m x = m x :=
  writeLE_outside m _ h

theorem clear_outside (h : x < 0x100000 ∨ 0x104000 ≤ x) : clearPagingStructures m x = m x := by
  unfold clearPagingStructures
  rw [repStosd_outside (by rw [ptAddr, pageSize]; omega), repStosd_outside (by rw [pdAddr, pageSize]; omega),
    repStosd_outside (by rw [pdptAddr, pageSize]; omega), repStosd_outside (by rw [pml4Addr, pageSize]; omega)]

theorem clear_inside (hlo : 0x100000 ≤ x) (hhi : x < 0x104000) : clearPagingStructures m x = 0 := by
  unfold clearPagingStructures
  rcases Nat.lt_or_ge x 0x103000 with hpt | hpt
  · rw [repStosd_outside (by rw [ptAddr]; omega)]
    rcases Nat.lt_or_ge x 0x102000 with hpd | hpd
    · rw [repStosd_outside (by rw [pdAddr]; omega)]
      rcases Nat.lt_or_ge x 0x101000 with hpdpt | hpdpt
      · rw [repStosd_outside (by rw [pdptAddr]; omega)]
        exact repStosd_inside hlo (by rw [pml4Addr, pageSize]; omega)
      · exact repStosd_inside hpdpt (by rw [pdptAddr, pageSize]; omega)
    · exact repStosd_inside hpd (by rw [pdAddr, pageSize]; omega)
  · exact repStosd_inside hpt (by rw [ptAddr, pageSize]; omega)

theorem setupPaging_outside (h : x < 0x100000 ∨ 0x104000 ≤ x) : setupPaging m x = m x := by
  rw [setupPaging, setupPt_outside (by omega), setupPd_outside (fun i hi => by omega),
    setupPdpt_outside (by omega), setupPml4_outside (by omega), clear_outside h]

theorem setupPaging_cleared (hlo : 0x100000 ≤ x) (hhi : x < 0x104000)
    (hpml4 : 0x100004 ≤ x) (hpdpt : x < 0x101000 ∨ 0x101004 ≤ x)
    (hpd : ∀ i, i < 512 → x < 0x102000 + 8 * i ∨ 0x102000 + 8 * i + 4 ≤ x)
    (hpt : x < 0x103000 ∨ 0x103800 ≤ x) : setupPaging m x = 0 := by
  rw [setupPaging, setupPt_outside hpt, setupPd_outside hpd, setupPdpt_outside hpdpt,
    setupPml4_outside (Or.inr hpml4), clear_inside hlo hhi]

theorem readLE_zero {a n : Nat} (h : ∀ x, a ≤ x → x < a + n → m x = 0) : readLE m a n = 0 := by
  induction n generalizing a with
  | zero => rfl
  | succ n ih =>
      rw [readLE, h a (Nat.le_refl a) (by omega), ih fun x hlo hhi => h x (by omega) (by omega)]
      rfl

theorem entryAt_words (m : Mem) (table i : Nat) :
    entryAt m table i = readLE m (table + 8 * i) 4 + 2 ^ 32 * readLE m (table + 8 * i + 4) 4 := by
  have hwidth : 256 ^ 4 = 2 ^ 32 := by decide
  rw [entryAt, ← hwidth, ← readLE_add]

/-- A table with nothing behind its first word. -/
theorem entryAt_single {m : Mem} {table word : Nat} (hword : readLE m table 4 = word)
    (hzero : ∀ x, table + 4 ≤ x → x < table + 4096 → m x = 0) (hi : i < 512) :
    entryAt m table i = if i = 0 then word else 0 := by
  by_cases hfirst : i = 0
  · have hhigh : readLE m (table + 4) 4 = 0 :=
      readLE_zero fun x hlo hhi => hzero x hlo (by omega)
    rw [hfirst, if_pos rfl, entryAt_words, Nat.mul_zero, Nat.add_zero, hword, hhigh, Nat.mul_zero,
      Nat.add_zero]
  · rw [if_neg hfirst]
    exact readLE_zero fun x hlo hhi => hzero x (by omega) (by omega)

theorem pml4_entry (m : Mem) (hi : i < 512) :
    entryAt (setupPaging m) pml4Addr i = if i = 0 then 0x101003 else 0 := by
  rw [pml4Addr]
  have hword : readLE (setupPaging m) 0x100000 4 = readLE (setupPml4 (clearPagingStructures m)) 0x100000 4 :=
    readLE_congr fun x hlo hhi => by
      rw [setupPaging, setupPt_outside (by omega), setupPd_outside (fun i hi => by omega),
        setupPdpt_outside (by omega)]
  have hstored : readLE (setupPml4 (clearPagingStructures m)) 0x100000 4 = 0x101003 :=
    readLE_writeLE_same _ 0x100000 4 0x101003
  exact entryAt_single (hword.trans hstored) (fun x hlo hhi => setupPaging_cleared (by omega) (by omega)
    (by omega) (by omega) (fun i hi => by omega) (by omega)) hi

theorem pdpt_entry (m : Mem) (hi : i < 512) :
    entryAt (setupPaging m) pdptAddr i = if i = 0 then 0x102003 else 0 := by
  rw [pdptAddr]
  have hword : readLE (setupPaging m) 0x101000 4 =
      readLE (setupPdpt (setupPml4 (clearPagingStructures m))) 0x101000 4 :=
    readLE_congr fun x hlo hhi => by
      rw [setupPaging, setupPt_outside (by omega), setupPd_outside (fun i hi => by omega)]
  have hstored : readLE (setupPdpt (setupPml4 (clearPagingStructures m))) 0x101000 4 = 0x102003 :=
    readLE_writeLE_same _ 0x101000 4 0x102003
  exact entryAt_single (hword.trans hstored) (fun x hlo hhi => setupPaging_cleared (by omega) (by omega)
    (by omega) (by omega) (fun i hi => by omega) (by omega)) hi

/-- All 512 entries point at page tables, behind the only one there is. -/
theorem pd_entry (m : Mem) (hi : i < 512) :
    entryAt (setupPaging m) pdAddr i = 0x103003 + 4096 * i := by
  rw [pdAddr]
  have hword : readLE (setupPaging m) (0x102000 + 8 * i) 4 =
      readLE (setupPd (setupPdpt (setupPml4 (clearPagingStructures m)))) (0x102000 + 8 * i) 4 :=
    readLE_congr fun x hlo hhi => by rw [setupPaging, setupPt_outside (by omega)]
  have hstored : readLE (setupPd (setupPdpt (setupPml4 (clearPagingStructures m)))) (0x102000 + 8 * i) 4 =
      0x103003 + 4096 * i := fillLoop_word (by decide) (by decide) hi
  have hhigh : readLE (setupPaging m) (0x102000 + 8 * i + 4) 4 = 0 :=
    readLE_zero fun x hlo hhi => setupPaging_cleared (by omega) (by omega) (by omega) (by omega)
      (fun j hj => by omega) (by omega)
  rw [entryAt_words, hword, hstored, hhigh, Nat.mul_zero, Nat.add_zero]

/-- An entry of the page table is made of two that were stored, as far as they go. -/
theorem pt_entry (m : Mem) (hi : i < 512) :
    entryAt (setupPaging m) ptAddr i =
      if i < 256 then 8192 * i + 3 + 2 ^ 32 * (8192 * i + 4099) else 0 := by
  rw [ptAddr]
  by_cases hhalf : i < 256
  · have hstored : ∀ j, j < 512 → readLE (setupPaging m) (0x103000 + 4 * j) 4 = 3 + 4096 * j :=
      fun j hj => fillLoop_word (by decide) (by decide) hj
    have hlow := hstored (2 * i) (by omega)
    have hhigh := hstored (2 * i + 1) (by omega)
    have hat : 0x103000 + 4 * (2 * i) = 0x103000 + 8 * i := by omega
    have hnext : 0x103000 + 4 * (2 * i + 1) = 0x103000 + 8 * i + 4 := by omega
    rw [hat] at hlow
    rw [hnext] at hhigh
    rw [entryAt_words, if_pos hhalf, hlow, hhigh]
    omega
  · rw [if_neg hhalf]
    exact readLE_zero fun x hlo hhi => setupPaging_cleared (by omega) (by omega) (by omega) (by omega)
      (fun j hj => by omega) (by omega)

end

/-! ## What is translated -/

section

variable {m : Mem} {va : Nat}

/-- The entry a walk below one gigabyte ends with. -/
def leafEntry (m : Mem) (va : Nat) : Nat := entryAt m (ptAddr + pageSize * pdIndex va) (ptIndex va)

theorem pd_pointer {j : Nat} (hj : j < 512) :
    EntryPresent (0x103003 + 4096 * j) ∧ EntryWritable (0x103003 + 4096 * j) ∧
      ¬ EntryHuge (0x103003 + 4096 * j) ∧
      frameOf 12 (0x103003 + 4096 * j) = ptAddr + pageSize * j := by
  rw [EntryPresent, EntryWritable, EntryHuge, frameOf, ptAddr, pageSize]
  omega

/-- Below one gigabyte the walk gets through to a page table. -/
theorem pageWalk_low (m : Mem) (h : va < 2 ^ 30) : pageWalk (setupPaging m) pml4Addr va =
    if EntryPresent (leafEntry (setupPaging m) va) then
      some ⟨frameOf 12 (leafEntry (setupPaging m) va) + va % 4096,
        decide (EntryWritable (leafEntry (setupPaging m) va))⟩
    else none := by
  have hcanonical : Canonical va := Or.inl (by omega)
  have hpml4 : pml4Index va = 0 := by
    rw [pml4Index]
    omega
  have hpdpt : pdptIndex va = 0 := by
    rw [pdptIndex]
    omega
  have hpd : pdIndex va < 512 := Nat.mod_lt _ (by decide)
  have hpde := pd_entry m hpd
  obtain ⟨hpresent, hwritable, hsmall, hframe⟩ := pd_pointer hpd
  have hroot : frameOf 12 0x101003 = pdptAddr := by decide
  have hdir : frameOf 12 0x102003 = pdAddr := by decide
  unfold pageWalk
  rw [if_neg (not_not.mpr hcanonical), hpml4, pml4_entry m (by decide), if_pos rfl]
  dsimp only
  rw [if_neg (by decide), hroot, hpdpt, pdpt_entry m (by decide), if_pos rfl, if_neg (by decide),
    if_neg (by decide), hdir, hpde, if_neg (not_not.mpr hpresent), if_neg hsmall, hframe]
  show (if ¬ EntryPresent (leafEntry (setupPaging m) va) then none else _) = _
  rw [ite_not]
  have hall : (∀ x ∈ [0x101003, 0x102003, 0x103003 + 4096 * pdIndex va, leafEntry (setupPaging m) va],
      EntryWritable x) ↔ EntryWritable (leafEntry (setupPaging m) va) := by
    constructor
    · intro hpath
      exact hpath _ (by simp)
    · intro hleaf
      simp only [List.forall_mem_cons]
      exact ⟨by decide, by decide, hwritable, hleaf, List.forall_mem_nil _⟩
  rw [← decide_eq_decide.mpr hall]
  rfl

/-- From there on nothing is translated. -/
theorem pageWalk_high (m : Mem) (h : 2 ^ 30 ≤ va) : pageWalk (setupPaging m) pml4Addr va = none := by
  unfold pageWalk
  by_cases hcanonical : Canonical va
  · have hpml4 : pml4Index va < 512 := Nat.mod_lt _ (by decide)
    have hpdpt : pdptIndex va < 512 := Nat.mod_lt _ (by decide)
    have hroot : frameOf 12 0x101003 = pdptAddr := by decide
    rw [if_neg (not_not.mpr hcanonical), pml4_entry m hpml4]
    dsimp only
    by_cases hzero : pml4Index va = 0
    · have hindex : pdptIndex va ≠ 0 := by
        rw [Canonical] at hcanonical
        rw [pml4Index] at hzero
        rw [pdptIndex]
        omega
      rw [if_pos hzero, if_neg (by decide), hroot, pdpt_entry m hpdpt, if_neg hindex, if_pos (by decide)]
    · rw [if_neg hzero, if_pos (by decide)]
  · rw [if_pos hcanonical]

/-- The frame of an entry made of two lies above 12 gigabytes. -/
theorem frameOf_pair {j : Nat} (hj : j < 256) :
    3 * 2 ^ 32 ≤ frameOf 12 (8192 * j + 3 + 2 ^ 32 * (8192 * j + 4099)) := by
  have hpage : (8192 * j + 3 + 2 ^ 32 * (8192 * j + 4099)) / 2 ^ 12 =
      2 * j + 3 * 2 ^ 20 + 2 ^ 32 * (2 * j + 1) := by omega
  have hlow : (2 * j + 3 * 2 ^ 20 + 2 ^ 32 * (2 * j + 1)) % 2 ^ 40 % 2 ^ 32 = 2 * j + 3 * 2 ^ 20 := by
    rw [Nat.mod_mod_of_dvd _ (by decide), Nat.add_mul_mod_self_left]
    exact Nat.mod_eq_of_lt (by omega)
  have hle := Nat.mod_le ((2 * j + 3 * 2 ^ 20 + 2 ^ 32 * (2 * j + 1)) % 2 ^ 40) (2 ^ 32)
  rw [hlow] at hle
  rw [frameOf, hpage]
  omega

/-- No page below two megabytes is translated to itself. -/
theorem pageWalk_never (m : Mem) (h : va < 2 ^ 21) :
    pageWalk (setupPaging m) pml4Addr va ≠ some ⟨va, true⟩ := by
  have hpd : pdIndex va = 0 := by
    rw [pdIndex]
    omega
  have hpt : ptIndex va < 512 := Nat.mod_lt _ (by decide)
  have hleaf : leafEntry (setupPaging m) va = entryAt (setupPaging m) ptAddr (ptIndex va) := by
    rw [leafEntry, hpd]
    rfl
  rw [pageWalk_low m (by omega), hleaf, pt_entry m hpt]
  by_cases hhalf : ptIndex va < 256
  · rw [if_pos hhalf]
    intro heq
    split at heq
    · -- the entry for the next page is the upper half of this one
      have haddress := congrArg Mapping.address (Option.some.inj heq)
      dsimp only at haddress
      have hfar := frameOf_pair hhalf
      omega
    · cases heq
  · rw [if_neg hhalf, if_neg (by decide)]
    exact (Option.some_ne_none _).symm

/-- Page tables that were never set up are taken as they are. -/
theorem leafEntry_uninitialised (m : Mem) (hlo : 2 ^ 21 ≤ va) (hhi : va < 2 ^ 30) :
    leafEntry (setupPaging m) va = leafEntry m va := by
  have hpd : 1 ≤ pdIndex va := by
    rw [pdIndex]
    omega
  apply readLE_congr
  intro x hx _
  apply setupPaging_outside
  right
  rw [ptAddr, pageSize] at hx
  omega

/-- Whatever memory held, the boot tables are not an identity map: no page of the first two
megabytes is translated to itself, and the rest of the first gigabyte by what happened to be in
memory behind the tables. -/
theorem boot_paging_never (m : Mem) : ¬ IdentityMapped (setupPaging m) ∧
    (∀ va, va < 2 ^ 21 → pageWalk (setupPaging m) pml4Addr va ≠ some ⟨va, true⟩) ∧
    ((∀ va, 2 ^ 21 ≤ va → pageWalk (setupPaging m) pml4Addr va = none) ↔
      ∀ va, 2 ^ 21 ≤ va → va < 2 ^ 30 → ¬ EntryPresent (leafEntry m va)) := by
  refine ⟨fun h => pageWalk_never m (by decide) (h.1 0 (by decide)), fun va hva => pageWalk_never m hva, ?_⟩
  constructor
  · intro hnone va hlo hhi hpresent
    have hwalk := hnone va hlo
    rw [pageWalk_low m hhi, leafEntry_uninitialised m hlo hhi, if_pos hpresent] at hwalk
    cases hwalk
  · intro habsent va hlo
    rcases Nat.lt_or_ge va (2 ^ 30) with hhi | hhi
    · rw [pageWalk_low m hhi, leafEntry_uninitialised m hlo hhi, if_neg (habsent va hlo hhi)]
    · exact pageWalk_high m hhi

end

/-- In blank memory address 0 is translated to 0x100300000000. -/
theorem boot_paging_blank : ¬ IdentityMapped (setupPaging fun _ => 0) ∧
    pageWalk (setupPaging fun _ => 0) pml4Addr 0 = some ⟨0x100300000000, true⟩ := by
  have hleaf : leafEntry (setupPaging fun _ => 0) 0 = 0x100300000003 := pt_entry _ (by decide)
  have hwalk : pageWalk (setupPaging fun _ => 0) pml4Addr 0 = some ⟨0x100300000000, true⟩ := by
    rw [pageWalk_low _ (by decide), hleaf]
    decide
  refine ⟨fun h => ?_, hwalk⟩
  have hidentity := h.1 0 (by decide)
  rw [hwalk] at hidentity
  exact absurd hidentity (by decide)

end Kaviz.Boot
