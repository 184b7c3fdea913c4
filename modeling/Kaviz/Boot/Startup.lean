import Kaviz.Boot.MemoryDetection
import Kaviz.Boot.PagingSetup

/-! # From the firmware's map to the memory manager

`zero_bss` of `kernel/kernel_loader.c`, and the way from `detect_memory` over the handover and
the start of `kernel_main` to `init_pmm`. The stack of the kernel is a part of `.bss`.
-/

namespace Kaviz.Boot

open Bytes Memory

/-! ## `zero_bss` -/

/-- The loop of `zero_bss`, with `bss_start` at `p`. -/
def zeroWords (bssEnd p : Nat) (m : Mem) : Mem :=
  if p < bssEnd then zeroWords bssEnd (p + 4) (writeLE m p 4 0) else m
termination_by bssEnd - p

def zeroBss (L : Link) (m : Mem) : Mem := zeroWords L.bssEnd L.bssStart m

/-- The link with the stack of `kernel_entry.asm` in `.bss`. -/
structure KernelLink extends Link where
  stackBottom_le : bssStart + 16384 ≤ stackTop
  stackTop_le : stackTop ≤ bssEnd

/-- `kernel_main` has been called; `halt` is the address behind the call. -/
def callKernelMain (L : Link) (s : BootState) (halt : Nat) : BootState :=
  let s := kernelEntry L s
  { s with
    rsp := s.rsp - 8
    mem := writeLE s.mem (s.rsp - 8) 8 halt }

/-- The memory after `zero_bss`; up to `init_pmm` only the screen and data of the kernel change. -/
def kernelMemory (L : Link) (s : BootState) (halt : Nat) : Mem := zeroBss L (callKernelMain L s halt).mem

/-! ## What the loop clears -/

theorem zeroWords_spec (bssEnd p : Nat) (m : Mem) (x : Nat) : zeroWords bssEnd p m x =
    if p ≤ x ∧ x < p + 4 * ((bssEnd - p + 3) / 4) then 0 else m x := by
  induction p, m using zeroWords.induct bssEnd with
  | case1 p m hp ih =>
      rw [zeroWords, if_pos hp, ih]
      by_cases hrest : p + 4 ≤ x ∧ x < p + 4 + 4 * ((bssEnd - (p + 4) + 3) / 4)
      · rw [if_pos hrest, if_pos (by omega)]
      · rw [if_neg hrest]
        by_cases hword : p ≤ x ∧ x < p + 4
        · rw [if_pos (by omega), writeLE_zero_inside m hword.1 hword.2]
        · rw [if_neg (by omega), writeLE_outside _ _ (by omega)]
  | case2 p m hp =>
      rw [zeroWords, if_neg hp, if_neg (by omega)]

theorem zeroBss_outside (L : Link) (m : Mem) {x : Nat} (h : x < L.bssStart ∨ L.bssEnd + 3 ≤ x) :
    zeroBss L m x = m x := by
  have hle := L.bss_le
  rw [zeroBss, zeroWords_spec, if_neg (by omega)]

theorem zeroBss_inside (L : Link) (m : Mem) {x : Nat} (h : L.bssStart ≤ x ∧ x < L.bssEnd) :
    zeroBss L m x = 0 := by
  rw [zeroBss, zeroWords_spec, if_pos (by omega)]

/-! ## The stack -/

section

variable (L : KernelLink) (s : BootState) {halt : Nat}

theorem callKernelMain_rsp (halt : Nat) : (callKernelMain L.toLink s halt).rsp = L.stackTop / 16 * 16 - 8 := rfl

/-- `zero_bss` clears the stack it runs on: the address `kernel_main` is to return to is in its place when
`zero_bss` starts, and is zero when it is done. -/
theorem stack_wiped (hhalt : halt < 2 ^ 64) :
    readLE (callKernelMain L.toLink s halt).mem (callKernelMain L.toLink s halt).rsp 8 = halt ∧
      readLE (kernelMemory L.toLink s halt) (callKernelMain L.toLink s halt).rsp 8 = 0 ∧
      (∀ x, L.bssStart ≤ x → x < L.bssEnd → kernelMemory L.toLink s halt x = 0) ∧
      ∀ x, x < L.bssStart ∨ L.bssEnd + 3 ≤ x →
        kernelMemory L.toLink s halt x = (callKernelMain L.toLink s halt).mem x := by
  have hbottom := L.stackBottom_le
  have htop := L.stackTop_le
  have hcleared : ∀ x, L.bssStart ≤ x → x < L.bssEnd → kernelMemory L.toLink s halt x = 0 :=
    fun x hlo hhi => zeroBss_inside L.toLink _ ⟨hlo, hhi⟩
  refine ⟨readLE8_writeLE8_same _ _ hhalt, ?_, hcleared, fun x hx => zeroBss_outside L.toLink _ hx⟩
  rw [callKernelMain_rsp]
  exact readLE_zero fun x hlo hhi => hcleared x (by omega) (by omega)

end

def stackedKernel : KernelLink := ⟨smallKernel, by decide, by decide⟩

theorem stack_wiped_small :
    readLE (callKernelMain smallKernel fiveEntries 0x100050).mem 0x11FFF8 8 = 0x100050 ∧
      readLE (kernelMemory smallKernel fiveEntries 0x100050) 0x11FFF8 8 = 0 := by
  have hwiped := @stack_wiped stackedKernel fiveEntries 0x100050 (by decide)
  have hrsp : (callKernelMain stackedKernel.toLink fiveEntries 0x100050).rsp = 0x11FFF8 :=
    callKernelMain_rsp stackedKernel fiveEntries 0x100050
  rw [hrsp] at hwiped
  exact ⟨hwiped.1, hwiped.2.1⟩

section

variable (L : KernelLink) (s : BootState)

/-! ## The memory below the kernel -/

theorem e820Loop_below {answers : List BiosAnswer} {c c' : E820Scan}
    (hfits : c.edi + entrySize * answers.length ≤ 2 ^ 32) (h : e820Loop answers c = some c') {x : Nat}
    (hx : x < c.edi) : c'.mem x = c.mem x := by
  induction answers generalizing c with
  | nil => cases h
  | cons a answers ih =>
      have hstored : (c.int15 a).mem x = c.mem x := by
        unfold E820Scan.int15
        dsimp only
        split
        · rfl
        · exact storeEntry_outside _ _ _ hx
      rw [List.length_cons, Nat.mul_succ] at hfits
      -- while another answer is to come, the address has not wrapped
      have hnext : ∀ c₁ : E820Scan, e820Loop answers c₁ = some c' →
          c₁.edi = (c.edi + entrySize) % 2 ^ 32 → c₁.mem = (c.int15 a).mem → c'.mem x = c.mem x := by
        intro c₁ hloop hedi hmem
        have hmore : 0 < answers.length := by
          cases answers with
          | nil => cases hloop
          | cons b answers => exact Nat.succ_pos _
        have hsize : entrySize ≤ entrySize * answers.length := Nat.le_mul_of_pos_right _ hmore
        have hpos : entrySize = 24 := rfl
        have hedi' : c₁.edi = c.edi + entrySize := by omega
        rw [ih (by omega) hloop (by omega), hmem, hstored]
      unfold e820Loop at h
      dsimp only at h
      split at h
      · cases h
        exact hstored
      · split at h
        · cases h
          exact hstored
        · split at h
          · split at h
            · exact hnext _ h rfl rfl
            · cases h
              exact hstored
          · split at h
            · exact hnext _ h rfl rfl
            · cases h
              exact hstored

theorem storeRam_below (m : Mem) {a x : Nat} (base length : Nat) (hx : x < a) :
    storeRam m a base length x = m x := by
  unfold storeRam
  rw [writeLE_outside _ _ (Or.inl (by omega)), writeLE_outside _ _ (Or.inl (by omega)),
    writeLE_outside _ _ (Or.inl (by omega)), writeLE_outside _ _ (Or.inl (by omega)), writeLE_outside _ _ (Or.inl hx)]

/-- `detect_memory` leaves everything below the map as it was. -/
theorem detectMemory_below {answers : List BiosAnswer} {m m' : Mem}
    (hfits : mapAddress + entrySize * answers.length ≤ 2 ^ 32) (h : detectMemory answers m = some m') {x : Nat}
    (hx : x < mapAddress) : m' x = m x := by
  have hmap : mapAddress = 0x8000 := rfl
  obtain ⟨m₁, hscan, hdone⟩ := Option.map_eq_some_iff.mp h
  obtain ⟨c, hloop, hstored⟩ := Option.map_eq_some_iff.mp hscan
  have hbelow : m₁ x = m x := by
    rw [← hstored, storeMap_below _ _ (by omega)]
    exact e820Loop_below hfits hloop hx
  split at hdone
  · rw [← hdone, hbelow]
  · rw [← hdone, simpleMemoryDetection, storeMap_below _ _ (by omega), storeRam_below _ _ _ (by omega),
      storeRam_below _ _ _ hx, hbelow]

theorem prepareBootInfo_below {x : Nat} (hx : x < 0x9000) : s.prepareBootInfo.mem x = s.mem x := by
  rw [prepareBootInfo_eq, setField_below _ rfl _ _ hx]
  unfold cleared
  rw [setField_below _ rfl _ _ hx, setField_below _ rfl _ _ hx, setField_below _ rfl _ _ hx,
    setField_below _ rfl _ _ hx, setField_below _ rfl _ _ hx, setField_below _ rfl _ _ hx]

theorem printBootInfo_mem : s.printBootInfo.mem = s.mem := by
  unfold BootState.printBootInfo
  dsimp only
  split <;> rfl

theorem mainInit_below {x : Nat} (hx : x < 0x9000) : s.mainInit.mem x = s.mem x := by
  show s.prepareBootInfo.printBootInfo.prepareBootInfo.mem x = s.mem x
  rw [prepareBootInfo_below _ hx, printBootInfo_mem, prepareBootInfo_below _ hx]

theorem kernelMemory_below (halt : Nat) {x : Nat} (hx : x < kernelLoad) :
    kernelMemory L.toLink s halt x = s.mem x := by
  have hload := L.load_le
  have hbottom := L.stackBottom_le
  have hrsp : (kernelEntry L.toLink s).rsp = L.stackTop / 16 * 16 := rfl
  rw [kernelMemory, zeroBss_outside _ _ (Or.inl (by omega)), callKernelMain]
  dsimp only
  rw [writeLE_outside _ _ (Or.inl (by omega)), (kernelEntry_spec s L.toLink).2.2 x hx]

/-- What `init_pmm` takes for the memory map: as many entries as the number of the boot drive, from address zero. -/
def mapAtZero (m : Mem) : List E820Entry :=
  (List.range (m bootDriveAddress).toNat).map fun i => E820Entry.ofBytes m (24 * i)

theorem ofBytes_below {m m' : Mem} {a : Nat} (h : ∀ x, x < mapAddress → m' x = m x)
    (ha : a + entrySize ≤ mapAddress) : E820Entry.ofBytes m' a = .ofBytes m a := by
  have hleft := @ofBytes_eq m' (fun k => m (a + k)) a fun k hk => h _ (by omega)
  have hright := @ofBytes_eq m (fun k => m (a + k)) a fun _ _ => rfl
  exact hleft.trans hright.symm

theorem e820Map_startup {m : Mem} (hlow : ∀ x, x < mapAddress → s.mem x = m x) (halt : Nat) :
    (bootParams (kernelMemory L.toLink s.mainInit halt)).signature = bootInfoSignature ∧
      e820Map (kernelMemory L.toLink s.mainInit halt) = mapAtZero m := by
  have hmap : mapAddress = 0x8000 := rfl
  have hsize : entrySize = 24 := rfl
  have hload : kernelLoad = 0x100000 := rfl
  have hdrive : bootDriveAddress = 0x7DF0 := rfl
  obtain ⟨hsig, haddr, hentries⟩ :=
    bootParams_fields s.mainInit fun x hx => kernelMemory_below L s.mainInit halt hx
  rw [mainInit_field] at hsig haddr hentries
  rw [mainInit_field] at haddr
  refine ⟨hsig, ?_⟩
  have hbelow : ∀ x, x < mapAddress → kernelMemory L.toLink s.mainInit halt x = m x := by
    intro x hx
    rw [kernelMemory_below L s.mainInit halt (by omega), mainInit_below s (by omega), hlow x hx]
  rw [e820Map, hentries, haddr, hlow _ (by omega), mapAtZero]
  apply List.map_congr_left
  intro i hi
  have hbyte : (m bootDriveAddress).toNat < 256 := UInt8.toNat_lt _
  have hcount : i < (m bootDriveAddress).toNat := List.mem_range.mp hi
  show E820Entry.ofBytes _ (0 + 24 * i) = _
  rw [Nat.zero_add, ofBytes_below hbelow (by omega)]

end

/-- Nothing of what was detected reaches the memory manager. Whatever the firmware answers, `init_pmm` sets up its
regions from the bytes that were at address zero, and reads as many entries there as the number of the drive says. -/
theorem detected_map_unused (L : KernelLink) {answers : List BiosAnswer}
    (hfits : mapAddress + entrySize * answers.length ≤ 2 ^ 32) (m : Mem) (s : BootState)
    (hdetect : detectMemory answers m = some s.mem) (halt : Nat) (p : PmmInfo) :
    initPmm (kernelMemory L.toLink s.mainInit halt) p =
      (ramBelow4G ((mapAtZero m).take maxMemoryMapEntries)).foldl PmmInfo.record ⟨[], 0, 0⟩ := by
  obtain ⟨hsig, hmap⟩ := e820Map_startup L s (fun x hx => detectMemory_below hfits hdetect hx) halt
  rw [initPmm_eq p hsig, recorded, hmap]

/-- A memory whose first bytes pass for an entry, with the number of the first hard disk. -/
def strayEntry : Mem := fun x =>
  if x = bootDriveAddress then 0x80 else if x = 2 then 0x10 else if x = 10 then 0x20 else if x = 16 then 1 else 0

/-- Booted from the hard disk, the kernel takes these bytes for its map, and not the firmware's answer. -/
theorem detected_map_unused_disk : ∃ m', detectMemory [onlyAnswer] strayEntry = some m' ∧
    initPmm (kernelMemory smallKernel (BootState.mainInit ⟨0, 0, 0, 0, 0, m'⟩) 0x100050) ⟨[], 0, 0⟩ =
      ⟨[⟨0x100000, 0x200000, 1⟩], 0x200000, 0x200000⟩ := by
  obtain ⟨m', hdetect⟩ : ∃ m', detectMemory [onlyAnswer] strayEntry = some m' := ⟨_, rfl⟩
  have htaken : ramBelow4G ((mapAtZero strayEntry).take maxMemoryMapEntries) =
      [⟨0x100000, 0, 0x200000, 0, 1, 0⟩] := by
    decide +kernel
  refine ⟨m', hdetect, ?_⟩
  have hunused := detected_map_unused stackedKernel (by decide) strayEntry ⟨0, 0, 0, 0, 0, m'⟩ hdetect
    0x100050 ⟨[], 0, 0⟩
  rw [htaken] at hunused
  exact hunused

end Kaviz.Boot
