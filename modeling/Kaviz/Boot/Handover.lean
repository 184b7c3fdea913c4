import Kaviz.Lib.Bytes

/-! # The handover from the bootloader

`main_init` of `boot/stage2/bootloader_init.asm` from the return of
`detect_memory` on, `handover_to_kernel`, and `_start` of the kernel up to the
call of `kernel_main`. The bootloader writes the boot information as six words
of four bytes; the kernel reads a packed structure with an eight-byte field in
it. Return addresses and the output to the screen are left out.
-/

namespace Kaviz.Boot

open Bytes

structure BootState where
  rax : Nat
  rcx : Nat
  rdi : Nat
  rsi : Nat
  rsp : Nat
  mem : Mem

/-- `BOOT_INFO_SIGNATURE`, also the magic number for `kernel_main`. -/
def bootInfoSignature : Nat := 0x1BADB002

def bootDriveAddress : Nat := 0x7DF0

def kernelLoad : Nat := 0x100000

/-! ## The bootloader -/

/-- The offsets of `struc boot_info`. -/
inductive BootField
  | signature
  | memoryMap
  | memoryEntries
  | bootDevice
  | cmdline
  | cmdlineSize
  deriving DecidableEq

def BootField.offset : BootField → Nat
  | .signature => 0
  | .memoryMap => 4
  | .memoryEntries => 8
  | .bootDevice => 12
  | .cmdline => 16
  | .cmdlineSize => 20

namespace BootState

/-- `dword [0x9000 + field]`. -/
def bootField (s : BootState) (f : BootField) : Nat := readLE s.mem (0x9000 + f.offset) 4

/-- `mov dword [edi + field], v` -/
def setField (s : BootState) (f : BootField) (v : Nat) : BootState :=
  { s with mem := writeLE s.mem (s.rdi + f.offset) 4 v }

def prepareBootInfo (s : BootState) : BootState :=
  let s := { s with rdi := 0x9000 }
  let s := s.setField .signature bootInfoSignature
  let s := s.setField .memoryMap 0
  let s := s.setField .memoryEntries 0
  let s := s.setField .bootDevice 0
  let s := s.setField .cmdline 0
  let s := s.setField .cmdlineSize 0
  -- `mov al, [BOOT_DRIVE_ADDRESS]` keeps the upper bits of `eax`
  let s := { s with rax := s.rax / 256 * 256 + (s.mem bootDriveAddress).toNat }
  s.setField .bootDevice s.rax

/-- The registers `print_boot_info` leaves. Its loop takes the same entry again and
again, and ends with the type of that entry in `eax`. -/
def printBootInfo (s : BootState) : BootState :=
  let entries := s.bootField .memoryEntries
  if entries = 0 then { s with rax := 0 }
  else { s with rax := readLE s.mem (0x8000 + 16) 4, rcx := 0, rdi := 0x8000 }

/-- `handover_to_kernel`, up to the jump. -/
def handoverToKernel (s : BootState) : BootState :=
  { s.prepareBootInfo with rdi := 0x9000, rsi := bootInfoSignature }

/-- `main_init` behind the return of `detect_memory`. -/
def mainInit (s : BootState) : BootState := s.prepareBootInfo.printBootInfo.handoverToKernel

/-! ## The kernel -/

/-- `rep stosb` with `n` in `rcx`. -/
def repStosb (s : BootState) : Nat → BootState
  | 0 => { s with rcx := 0 }
  | n + 1 => repStosb { s with
      rdi := s.rdi + 1
      mem := setByte s.mem s.rdi (UInt8.ofNat s.rax) } n

end BootState

/-- The symbols the linker puts behind the code of the kernel. -/
structure Link where
  bssStart : Nat
  bssEnd : Nat
  stackTop : Nat
  load_le : kernelLoad ≤ bssStart
  bss_le : bssStart ≤ bssEnd
  bound : bssEnd < 2 ^ 64

/-- `_start`, up to the call of `kernel_main`. -/
def kernelEntry (L : Link) (s : BootState) : BootState :=
  let s := { s with rdi := L.bssStart, rcx := L.bssEnd - L.bssStart, rax := 0 }
  let s := s.repStosb s.rcx
  { s with rsp := L.stackTop / 16 * 16 }

/-- `struct boot_info` of the kernel. -/
structure BootInfo where
  signature : Nat
  memoryMap : Nat
  memoryEntries : Nat
  bootDevice : Nat
  cmdline : Nat
  cmdlineSize : Nat
  deriving DecidableEq

/-- `*boot_params`, a packed structure. -/
def bootParams (m : Mem) : BootInfo where
  signature := readLE m 0x9000 4
  memoryMap := readLE m 0x9004 8
  memoryEntries := readLE m 0x900C 4
  bootDevice := readLE m 0x9010 4
  cmdline := readLE m 0x9014 4
  cmdlineSize := readLE m 0x9018 4

/-- The kernel sees what was detected, and `kernel_main` gets its two arguments. -/
structure Survives (map entries : Nat) (s : BootState) : Prop where
  signature : (bootParams s.mem).signature = bootInfoSignature
  memoryMap : (bootParams s.mem).memoryMap = map
  memoryEntries : (bootParams s.mem).memoryEntries = entries
  rdi : s.rdi = 0x9000
  rsi : s.rsi = bootInfoSignature

/-! ## What is left of the boot information -/

section Handover

variable (s : BootState)

theorem repStosb_spec (n : Nat) : (s.repStosb n).rdi = s.rdi + n ∧ (s.repStosb n).rsi = s.rsi ∧
    ∀ a, a < s.rdi → (s.repStosb n).mem a = s.mem a := by
  induction n generalizing s with
  | zero => exact ⟨rfl, rfl, fun _ _ => rfl⟩
  | succ n ih =>
      obtain ⟨hrdi, hrsi, hmem⟩ := ih { s with
        rdi := s.rdi + 1
        mem := setByte s.mem s.rdi (UInt8.ofNat s.rax) }
      rw [BootState.repStosb]
      refine ⟨?_, hrsi, ?_⟩
      · rw [hrdi]
        dsimp only
        omega
      · intro a ha
        rw [hmem a (Nat.lt_succ_of_lt ha)]
        exact setByte_other _ _ (Nat.ne_of_lt ha)

/-- The entry code clears memory above the kernel and puts its end into `rdi`. -/
theorem kernelEntry_spec (L : Link) : (kernelEntry L s).rdi = L.bssEnd ∧
    (kernelEntry L s).rsi = s.rsi ∧ ∀ a, a < kernelLoad → (kernelEntry L s).mem a = s.mem a := by
  obtain ⟨hrdi, hrsi, hmem⟩ := repStosb_spec
    { s with rdi := L.bssStart, rcx := L.bssEnd - L.bssStart, rax := 0 } (L.bssEnd - L.bssStart)
  refine ⟨hrdi.trans (Nat.add_sub_cancel' L.bss_le), hrsi, ?_⟩
  intro a ha
  exact hmem a (Nat.lt_of_lt_of_le ha L.load_le)

/-- Fields of the bootloader's structure do not overlap. -/
theorem setField_bootField (hrdi : s.rdi = 0x9000) (f g : BootField) (v : Nat) :
    (s.setField f v).bootField g = if g = f then v % 2 ^ 32 else s.bootField g := by
  unfold BootState.setField BootState.bootField
  rw [hrdi]
  split
  next hsame =>
    subst hsame
    exact readLE_writeLE_same _ _ _ _
  next hne =>
    apply readLE_writeLE_disjoint
    cases f <;> cases g <;> first | exact absurd rfl hne | decide

theorem setField_below (hrdi : s.rdi = 0x9000) (f : BootField) (v : Nat) {a : Nat} (ha : a < 0x9000) :
    (s.setField f v).mem a = s.mem a := by
  unfold BootState.setField
  rw [hrdi]
  exact writeLE_outside _ _ (Or.inl (by omega))

def preparedField (s : BootState) : BootField → Nat
  | .signature => bootInfoSignature
  | .bootDevice => (s.rax / 256 * 256 + (s.mem bootDriveAddress).toNat) % 2 ^ 32
  | _ => 0

/-- The state of `prepare_boot_info` before it comes to the boot device. -/
def cleared (s : BootState) : BootState :=
  (((((({ s with rdi := 0x9000 }.setField .signature bootInfoSignature).setField .memoryMap 0).setField
    .memoryEntries 0).setField .bootDevice 0).setField .cmdline 0).setField .cmdlineSize 0)

theorem prepareBootInfo_eq : s.prepareBootInfo = { cleared s with
    rax := s.rax / 256 * 256 + ((cleared s).mem bootDriveAddress).toNat }.setField .bootDevice
      (s.rax / 256 * 256 + ((cleared s).mem bootDriveAddress).toNat) := rfl

theorem cleared_field (f : BootField) :
    (cleared s).bootField f = if f = .signature then bootInfoSignature else 0 := by
  unfold cleared
  rw [setField_bootField _ rfl, setField_bootField _ rfl, setField_bootField _ rfl,
    setField_bootField _ rfl, setField_bootField _ rfl, setField_bootField _ rfl]
  cases f <;> rfl

theorem cleared_drive : (cleared s).mem bootDriveAddress = s.mem bootDriveAddress := by
  have hbelow : bootDriveAddress < 0x9000 := by decide
  unfold cleared
  rw [setField_below _ rfl _ _ hbelow, setField_below _ rfl _ _ hbelow,
    setField_below _ rfl _ _ hbelow, setField_below _ rfl _ _ hbelow,
    setField_below _ rfl _ _ hbelow, setField_below _ rfl _ _ hbelow]

theorem prepareBootInfo_field (f : BootField) :
    s.prepareBootInfo.bootField f = preparedField s f := by
  rw [prepareBootInfo_eq, setField_bootField _ rfl, cleared_drive]
  have hrest := cleared_field s f
  unfold BootState.bootField at hrest ⊢
  dsimp only
  rw [hrest]
  cases f <;> rfl

theorem prepareBootInfo_drive :
    s.prepareBootInfo.mem bootDriveAddress = s.mem bootDriveAddress := by
  rw [prepareBootInfo_eq, setField_below _ rfl _ _ (by decide)]
  dsimp only
  exact cleared_drive s

theorem printBootInfo_none (h : s.bootField .memoryEntries = 0) :
    s.printBootInfo = { s with rax := 0 } := by
  unfold BootState.printBootInfo
  rw [h]
  exact if_pos rfl

theorem handoverToKernel_field (f : BootField) :
    s.handoverToKernel.bootField f = preparedField s f := prepareBootInfo_field s f

/-- After `main_init` the map is gone, and the drive number is the only value left. -/
theorem mainInit_field (f : BootField) : s.mainInit.bootField f =
    match f with
    | .signature => bootInfoSignature
    | .bootDevice => (s.mem bootDriveAddress).toNat
    | _ => 0 := by
  have hnone : s.prepareBootInfo.bootField .memoryEntries = 0 := by
    rw [prepareBootInfo_field]
    rfl
  rw [BootState.mainInit, handoverToKernel_field, printBootInfo_none _ hnone]
  cases f with
  | bootDevice =>
      have hbyte : (s.mem bootDriveAddress).toNat < 256 := UInt8.toNat_lt _
      unfold preparedField
      dsimp only
      rw [prepareBootInfo_drive]
      omega
  | signature => rfl
  | memoryMap => rfl
  | memoryEntries => rfl
  | cmdline => rfl
  | cmdlineSize => rfl

theorem bootParams_fields {m : Mem} (hmem : ∀ a, a < kernelLoad → m a = s.mem a) :
    (bootParams m).signature = s.bootField .signature ∧
      (bootParams m).memoryMap =
        s.bootField .memoryMap + 2 ^ 32 * s.bootField .memoryEntries ∧
      (bootParams m).memoryEntries = s.bootField .bootDevice := by
  have hsame : ∀ a n, a + n ≤ kernelLoad → readLE m a n = readLE s.mem a n := fun a n hle =>
    readLE_congr fun x _ hhi => hmem x (by omega)
  refine ⟨hsame _ _ (by decide), ?_, hsame _ _ (by decide)⟩
  show readLE m 0x9004 (4 + 4) = _
  rw [hsame _ _ (by decide), readLE_add]
  rfl

/-- What `kernel_main` finds, whatever was detected. -/
theorem kernel_sees (L : Link) :
    (bootParams (kernelEntry L s.mainInit).mem).signature = bootInfoSignature ∧
      (bootParams (kernelEntry L s.mainInit).mem).memoryMap = 0 ∧
      (bootParams (kernelEntry L s.mainInit).mem).memoryEntries = (s.mem bootDriveAddress).toNat ∧
      (kernelEntry L s.mainInit).rdi = L.bssEnd ∧
      (kernelEntry L s.mainInit).rsi = bootInfoSignature := by
  obtain ⟨hrdi, hrsi, hmem⟩ := kernelEntry_spec s.mainInit L
  obtain ⟨hsig, hmap, hentries⟩ := bootParams_fields s.mainInit hmem
  rw [mainInit_field] at hsig hmap hentries
  rw [mainInit_field] at hmap
  exact ⟨hsig, hmap, hentries, hrdi, hrsi⟩

/-- The boot information never survives the handover: neither the map nor the
address in `rdi` reaches `kernel_main`. -/
theorem boot_info_never_survives (L : Link) :
    ¬ Survives (s.bootField .memoryMap) (s.bootField .memoryEntries) (kernelEntry L s.mainInit) := by
  intro hsurvives
  obtain ⟨-, -, -, hrdi, -⟩ := kernel_sees s L
  have hload := L.load_le
  have hend := L.bss_le
  have hlost := hsurvives.rdi
  unfold kernelLoad at hload
  omega

end Handover

/-! ### A map of five entries -/

/-- `detect_memory` has found five entries, and the machine was booted from drive `0x80`. -/
def fiveEntries : BootState where
  rax := 0
  rcx := 0
  rdi := 0
  rsi := 0
  rsp := 0x8FFF8
  mem := writeLE (writeLE (writeLE (fun _ => 0) 0x9004 4 0x8000) 0x9008 4 5) 0x7DF0 1 0x80

/-- A kernel of 64 KiB with 64 KiB of cleared memory behind it. -/
def smallKernel : Link where
  bssStart := 0x110000
  bssEnd := 0x120000
  stackTop := 0x120000
  load_le := by decide
  bss_le := by decide
  bound := by decide

theorem five_entries_lost : fiveEntries.bootField .memoryMap = 0x8000 ∧
    fiveEntries.bootField .memoryEntries = 5 ∧
    ¬ Survives 0x8000 5 (kernelEntry smallKernel fiveEntries.mainInit) := by
  refine ⟨by decide, by decide, fun hsurvives => ?_⟩
  obtain ⟨-, hmap, -⟩ := kernel_sees fiveEntries smallKernel
  have hlost := hsurvives.memoryMap
  rw [hmap] at hlost
  cases hlost

end Kaviz.Boot
