import Kaviz.Fat.Volume

/-! # The disk driver

`ata_read_sector` and `ata_write_sector` of `kernel/drivers/ata.c`, access by access,
in front of a drive that makes no errors: two units of 2^28 sectors of 512 bytes, the
registers that address them, and a data register that passes a sector word by word.
-/

namespace Kaviz.Drivers

open Bytes Fat

/-! ## The drive -/

/-- What the data register is for, with unit, sector and number of the next word. -/
inductive Transfer
  | idle
  | reading (unit : Bool) (address word : Nat)
  | writing (unit : Bool) (address word : Nat)

structure Ata where
  /-- `ATA_REG_SECCOUNT0`. -/
  seccount0 : UInt8
  /-- `ATA_REG_LBA0`, `ATA_REG_LBA1` and `ATA_REG_LBA2`. -/
  lba0 : UInt8
  lba1 : UInt8
  lba2 : UInt8
  /-- `ATA_REG_HDDEVSEL`. -/
  hddevsel : UInt8
  transfer : Transfer
  /-- Bytes of a sector, for a unit and an address. -/
  sectors : Bool → Nat → Mem

/-- The ports of the primary channel that the driver writes bytes to. -/
def regSeccount0 : Nat := 0x1F2
def regLba0 : Nat := 0x1F3
def regLba1 : Nat := 0x1F4
def regLba2 : Nat := 0x1F5
def regHddevsel : Nat := 0x1F6
def regCommand : Nat := 0x1F7

def cmdReadPio : UInt8 := 0x20
def cmdWritePio : UInt8 := 0x30

def srBsy : UInt8 := 0x80
def srDrdy : UInt8 := 0x40
def srDrq : UInt8 := 0x08
def srErr : UInt8 := 0x01

namespace Ata

/-- The drive bit of the device register. -/
def unit (a : Ata) : Bool := decide (a.hddevsel &&& 0x10 ≠ 0)

def address (a : Ata) : Nat :=
  (a.hddevsel &&& 0x0F).toNat * 2 ^ 24 + a.lba2.toNat * 2 ^ 16 + a.lba1.toNat * 2 ^ 8 + a.lba0.toNat

def command (a : Ata) (c : UInt8) : Ata :=
  if a.seccount0 ≠ 1 then a
  else if c = cmdReadPio then { a with transfer := .reading a.unit a.address 0 }
  else if c = cmdWritePio then { a with transfer := .writing a.unit a.address 0 }
  else a

def outb (a : Ata) (port : Nat) (b : UInt8) : Ata :=
  if port = regSeccount0 then { a with seccount0 := b }
  else if port = regLba0 then { a with lba0 := b }
  else if port = regLba1 then { a with lba1 := b }
  else if port = regLba2 then { a with lba2 := b }
  else if port = regHddevsel then { a with hddevsel := b }
  else if port = regCommand then a.command b
  else a

/-- What `ATA_REG_STATUS` reads. -/
def status (a : Ata) : UInt8 :=
  match a.transfer with
  | .idle => srDrdy
  | .reading _ _ _ => srDrdy ||| srDrq
  | .writing _ _ _ => srDrdy ||| srDrq

/-- `inw(ATA_REG_DATA)`: the words of a sector are little-endian, and the last one ends
the transfer. -/
def inw (a : Ata) : UInt16 × Ata :=
  match a.transfer with
  | .reading unit address word =>
      (UInt16.ofNat (readLE (a.sectors unit address) (2 * word) 2),
        { a with transfer := if word + 1 < 256 then .reading unit address (word + 1) else .idle })
  | _ => (0, a)

def store (a : Ata) (unit : Bool) (address : Nat) (m : Mem) : Ata :=
  { a with sectors := fun u x => if u = unit ∧ x = address then m else a.sectors u x }

def outw (a : Ata) (data : UInt16) : Ata :=
  match a.transfer with
  | .writing unit address word =>
      { a.store unit address (writeLE (a.sectors unit address) (2 * word) 2 data.toNat) with
        transfer := if word + 1 < 256 then .writing unit address (word + 1) else .idle }
  | _ => a

end Ata

/-! ## The driver -/

/-- `ata_wait_busy`. Only accesses change the status, so a loop ends at its first poll or,
`none`, never. -/
def ataWaitBusy (a : Ata) : Option Unit := if a.status &&& srBsy = 0 then some () else none

def ataWaitReady (a : Ata) : Option Unit :=
  if a.status &&& srBsy = 0 ∧ a.status &&& srDrdy ≠ 0 then some () else none

/-- The loop until there is data, or room for it. -/
def ataWaitRequest (a : Ata) : Option Unit := if a.status &&& srDrq ≠ 0 then some () else none

/-- Both functions up to the command, and the wait behind it. -/
def ataIssue (c : UInt8) (a : Ata) (drive : UInt8) (lba : UInt32) : Option Ata := do
  ataWaitBusy a
  let a := a.outb regHddevsel (drive ||| ((lba >>> 24) &&& 0x0F).toUInt8)
  ataWaitReady a
  let a := a.outb regSeccount0 1
  let a := a.outb regLba0 lba.toUInt8
  let a := a.outb regLba1 (lba >>> 8).toUInt8
  let a := a.outb regLba2 (lba >>> 16).toUInt8
  let a := a.outb regCommand c
  ataWaitReady a
  return a

/-- The loop of `ata_read_sector` over words `i`, `i + 1`, … (`n` of them). -/
def readWords : Nat → Nat → Mem → Ata → Mem × Ata
  | _, 0, buffer, a => (buffer, a)
  | i, n + 1, buffer, a =>
      let (data, a) := a.inw
      readWords (i + 1) n (setByte (setByte buffer (i * 2) data.toUInt8) (i * 2 + 1) (data >>> 8).toUInt8) a

def writeWords (buffer : Mem) : Nat → Nat → Ata → Ata
  | _, 0, a => a
  | i, n + 1, a =>
      let data := (buffer (i * 2)).toUInt16 ||| ((buffer (i * 2 + 1)).toUInt16 <<< 8)
      writeWords buffer (i + 1) n (a.outw data)

/-- `ata_read_sector`: its result, the buffer and the drive. -/
def ataReadSector (a : Ata) (drive : UInt8) (lba : UInt32) (buffer : Mem) : Option (Nat × Mem × Ata) := do
  let a ← ataIssue cmdReadPio a drive lba
  if a.status &&& srErr ≠ 0 then return (0, buffer, a)
  ataWaitRequest a
  let (buffer, a) := readWords 0 256 buffer a
  return (1, buffer, a)

def ataWriteSector (a : Ata) (drive : UInt8) (lba : UInt32) (buffer : Mem) : Option (Nat × Ata) := do
  let a ← ataIssue cmdWritePio a drive lba
  if a.status &&& srErr ≠ 0 then return (0, a)
  ataWaitRequest a
  let a := writeWords buffer 0 256 a
  ataWaitReady a
  return (1, a)

/-! ## Words -/

theorem word_low (m : Mem) (a : Nat) : (UInt16.ofNat (readLE m a 2)).toUInt8 = m a := by
  have hbyte : (m a).toNat < 256 := (m a).toNat_lt
  apply UInt8.toNat_inj.mp
  rw [UInt16.toNat_toUInt8, UInt16.toNat_ofNat', readLE]
  omega

theorem word_high (m : Mem) (a : Nat) : (UInt16.ofNat (readLE m a 2) >>> 8).toUInt8 = m (a + 1) := by
  have hlow : (m a).toNat < 256 := (m a).toNat_lt
  have hhigh : (m (a + 1)).toNat < 256 := (m (a + 1)).toNat_lt
  apply UInt8.toNat_inj.mp
  rw [UInt16.toNat_toUInt8, UInt16.toNat_shiftRight, UInt16.toNat_ofNat', Nat.shiftRight_eq_div_pow,
    readLE, readLE, readLE]
  show _ / 2 ^ 8 % 2 ^ 8 = _
  omega

/-- The word the driver builds from two bytes is the one they are in memory. -/
theorem word_eq (m : Mem) (a : Nat) :
    ((m a).toUInt16 ||| ((m (a + 1)).toUInt16 <<< 8)).toNat = readLE m a 2 := by
  have hlow : (m a).toNat < 2 ^ 8 := (m a).toNat_lt
  have hhigh : (m (a + 1)).toNat < 2 ^ 8 := (m (a + 1)).toNat_lt
  rw [UInt16.toNat_or, UInt16.toNat_shiftLeft, UInt8.toNat_toUInt16, UInt8.toNat_toUInt16]
  show (m a).toNat ||| ((m (a + 1)).toNat <<< 8) % 2 ^ 16 = _
  rw [Nat.shiftLeft_eq, Nat.mod_eq_of_lt (by omega), Nat.or_comm, Nat.mul_comm,
    ← Nat.two_pow_add_eq_or_of_lt hlow, readLE, readLE, readLE]
  omega

/-! ## Transfers -/

def deviceByte (drive : UInt8) (lba : UInt32) : UInt8 := drive ||| ((lba >>> 24) &&& 0x0F).toUInt8

/-- The unit that a drive byte selects, and the address its registers hold. -/
def sectorUnit (drive : UInt8) (lba : UInt32) : Bool := decide (deviceByte drive lba &&& 0x10 ≠ 0)

def sectorAddress (drive : UInt8) (lba : UInt32) : Nat :=
  (deviceByte drive lba &&& 0x0F).toNat * 2 ^ 24 + (lba >>> 16).toUInt8.toNat * 2 ^ 16 +
    (lba >>> 8).toUInt8.toNat * 2 ^ 8 + lba.toUInt8.toNat

def Ata.addressed (a : Ata) (drive : UInt8) (lba : UInt32) : Ata :=
  { a with
    seccount0 := 1, lba0 := lba.toUInt8, lba1 := (lba >>> 8).toUInt8, lba2 := (lba >>> 16).toUInt8
    hddevsel := deviceByte drive lba }

theorem status_eq (a : Ata) : a.status = srDrdy ∨ a.status = srDrdy ||| srDrq := by
  unfold Ata.status
  cases a.transfer with
  | idle => exact Or.inl rfl
  | reading => exact Or.inr rfl
  | writing => exact Or.inr rfl

theorem ataWaitBusy_eq (a : Ata) : ataWaitBusy a = some () := by
  apply if_pos
  rcases status_eq a with h | h
  · rw [h]
    decide
  · rw [h]
    decide

theorem ataWaitReady_eq (a : Ata) : ataWaitReady a = some () := by
  apply if_pos
  rcases status_eq a with h | h
  · rw [h]
    decide
  · rw [h]
    decide

theorem status_err (a : Ata) : a.status &&& srErr = 0 := by
  rcases status_eq a with h | h
  · rw [h]
    decide
  · rw [h]
    decide

theorem ataWaitRequest_eq {a : Ata} (h : a.transfer ≠ .idle) : ataWaitRequest a = some () := by
  apply if_pos
  unfold Ata.status
  cases htransfer : a.transfer with
  | idle => exact absurd htransfer h
  | reading =>
      show (srDrdy ||| srDrq) &&& srDrq ≠ 0
      decide
  | writing =>
      show (srDrdy ||| srDrq) &&& srDrq ≠ 0
      decide

section

variable (drive : UInt8) (lba : UInt32)

theorem ataIssue_eq (c : UInt8) (a : Ata) :
    ataIssue c a drive lba = some ((a.addressed drive lba).command c) := by
  rw [ataIssue, ataWaitBusy_eq]
  simp only [ataWaitReady_eq, Option.bind_eq_bind, Option.bind_some]
  rfl

theorem ataIssue_read (a : Ata) : ataIssue cmdReadPio a drive lba =
    some { a.addressed drive lba with
      transfer := .reading (sectorUnit drive lba) (sectorAddress drive lba) 0 } :=
  ataIssue_eq drive lba cmdReadPio a

theorem ataIssue_write (a : Ata) : ataIssue cmdWritePio a drive lba =
    some { a.addressed drive lba with
      transfer := .writing (sectorUnit drive lba) (sectorAddress drive lba) 0 } :=
  ataIssue_eq drive lba cmdWritePio a

end

theorem copyBytes_two (m src : Mem) (a : Nat) :
    setByte (setByte m a (src a)) (a + 1) (src (a + 1)) = copyBytes m a src a 2 := by
  funext x
  rw [copyBytes]
  by_cases hin : a ≤ x ∧ x < a + 2
  · rw [if_pos hin, Nat.add_sub_cancel' hin.1]
    rcases Nat.lt_or_eq_of_le hin.1 with hlt | rfl
    · have hsecond : x = a + 1 := by omega
      rw [hsecond, setByte_same]
    · rw [setByte_other _ _ (by omega), setByte_same]
  · rw [if_neg hin, setByte_other _ _ (by omega), setByte_other _ _ (by omega)]

theorem copyBytes_append (m src : Mem) (a n k : Nat) :
    copyBytes (copyBytes m a src a n) (a + n) src (a + n) k = copyBytes m a src a (n + k) := by
  funext x
  unfold copyBytes
  by_cases hsecond : a + n ≤ x ∧ x < a + n + k
  · rw [if_pos hsecond, if_pos (by omega), Nat.add_sub_cancel' hsecond.1, Nat.add_sub_cancel' (by omega)]
  · rw [if_neg hsecond]
    by_cases hfirst : a ≤ x ∧ x < a + n
    · rw [if_pos hfirst, if_pos (by omega)]
    · rw [if_neg hfirst, if_neg (by omega)]

theorem writeLE_readLE_two (m src : Mem) (a : Nat) :
    writeLE m a 2 (readLE src a 2) = copyBytes m a src a 2 := by
  have hlow : UInt8.ofNat (readLE src a 2) = src a := by
    apply UInt8.toNat_inj.mp
    have hbyte : (src a).toNat < 256 := (src a).toNat_lt
    rw [UInt8.toNat_ofNat', readLE]
    omega
  have hhigh : UInt8.ofNat (readLE src a 2 / 256) = src (a + 1) := by
    apply UInt8.toNat_inj.mp
    have hbyte : (src a).toNat < 256 := (src a).toNat_lt
    have hnext : (src (a + 1)).toNat < 256 := (src (a + 1)).toNat_lt
    rw [UInt8.toNat_ofNat', readLE, readLE, readLE]
    omega
  rw [← copyBytes_two, writeLE, writeLE, writeLE, hlow, hhigh]

namespace Ata

theorem store_sectors (a : Ata) (unit : Bool) (address : Nat) (m : Mem) :
    (a.store unit address m).sectors unit address = m := if_pos ⟨rfl, rfl⟩

theorem store_other (a : Ata) {unit u : Bool} {address x : Nat} (m : Mem) (h : x ≠ address) :
    (a.store unit address m).sectors u x = a.sectors u x := if_neg fun hsame => h hsame.2

theorem store_store (a : Ata) (unit : Bool) (address : Nat) (m m' : Mem) :
    (a.store unit address m).store unit address m' = a.store unit address m' := by
  have hsectors : ((a.store unit address m).store unit address m').sectors =
      (a.store unit address m').sectors := by
    funext u x
    show (if u = unit ∧ x = address then m' else if u = unit ∧ x = address then m else a.sectors u x) =
      if u = unit ∧ x = address then m' else a.sectors u x
    by_cases hsame : u = unit ∧ x = address
    · rw [if_pos hsame, if_pos hsame]
    · rw [if_neg hsame, if_neg hsame, if_neg hsame]
  exact congrArg (fun sectors => { a with sectors }) hsectors

end Ata

section

variable {a : Ata} {unit : Bool} {address i n : Nat}

/-- The words from `i` on bring the rest of the sector, and the transfer ends with them. -/
theorem readWords_eq (buffer : Mem) (h : a.transfer = .reading unit address i) (hn : i + n = 256)
    (hi : i < 256) : readWords i n buffer a =
      (copyBytes buffer (2 * i) (a.sectors unit address) (2 * i) (2 * n), { a with transfer := .idle }) := by
  induction n generalizing a i buffer with
  | zero => omega
  | succ n ih =>
      rw [readWords, Ata.inw, h]
      dsimp only
      rw [word_low, word_high, Nat.mul_comm i 2, copyBytes_two]
      rcases Nat.eq_zero_or_pos n with rfl | hpos
      · rw [if_neg (by omega)]
        rfl
      · rw [if_pos (by omega), ih _ rfl (by omega) (by omega), Nat.mul_succ, copyBytes_append,
          Nat.add_comm 2 (2 * n), Nat.mul_succ]

/-- The words from `i` on replace the rest of the sector. -/
theorem writeWords_eq (buffer : Mem) (h : a.transfer = .writing unit address i) (hn : i + n = 256)
    (hi : i < 256) : writeWords buffer i n a =
      { a.store unit address (copyBytes (a.sectors unit address) (2 * i) buffer (2 * i) (2 * n)) with
        transfer := .idle } := by
  induction n generalizing a i with
  | zero => omega
  | succ n ih =>
      rw [writeWords, Ata.outw, h]
      dsimp only
      rw [Nat.mul_comm i 2, word_eq, writeLE_readLE_two]
      rcases Nat.eq_zero_or_pos n with rfl | hpos
      · rw [if_neg (by omega)]
        rfl
      · rw [if_pos (by omega), ih rfl (by omega) (by omega)]
        show { (a.store unit address (copyBytes (a.sectors unit address) (2 * i) buffer (2 * i) 2)).store
            unit address (copyBytes
              ((a.store unit address (copyBytes (a.sectors unit address) (2 * i) buffer (2 * i) 2)).sectors
                unit address) (2 * (i + 1)) buffer (2 * (i + 1)) (2 * n)) with transfer := .idle } = _
        rw [Ata.store_sectors, Ata.store_store, Nat.mul_succ, copyBytes_append, Nat.add_comm 2 (2 * n),
          Nat.mul_succ]

end

/-! ## Sectors -/

section

variable (a : Ata) (drive : UInt8) (lba : UInt32) (buffer : Mem)

theorem ataReadSector_eq : ataReadSector a drive lba buffer =
    some (1, copyBytes buffer 0 (a.sectors (sectorUnit drive lba) (sectorAddress drive lba)) 0 512,
      { a.addressed drive lba with transfer := .idle }) := by
  rw [ataReadSector, ataIssue_read, Option.bind_eq_bind, Option.bind_some,
    if_neg (not_not.mpr (status_err _)), ataWaitRequest_eq fun h => Transfer.noConfusion h,
    Option.bind_eq_bind, Option.bind_some, readWords_eq buffer rfl rfl (by decide)]
  rfl

theorem ataWriteSector_eq : ataWriteSector a drive lba buffer =
    some (1, { (a.addressed drive lba).store (sectorUnit drive lba) (sectorAddress drive lba)
      (copyBytes (a.sectors (sectorUnit drive lba) (sectorAddress drive lba)) 0 buffer 0 512) with
        transfer := .idle }) := by
  rw [ataWriteSector, ataIssue_write, Option.bind_eq_bind, Option.bind_some,
    if_neg (not_not.mpr (status_err _)), ataWaitRequest_eq fun h => Transfer.noConfusion h,
    Option.bind_eq_bind, Option.bind_some, writeWords_eq buffer rfl rfl (by decide)]
  show (ataWaitReady _).bind _ = _
  rw [ataWaitReady_eq]
  rfl

end

/-! ## Addresses -/

theorem lowNibble (b : UInt8) : (b &&& 0x0F).toNat = b.toNat % 16 := by
  rw [UInt8.toNat_and]
  exact Nat.and_two_pow_sub_one_eq_mod b.toNat 4

theorem highNibble (lba : UInt32) : ((lba >>> 24) &&& 0x0F).toUInt8.toNat = lba.toNat / 2 ^ 24 % 16 := by
  have hand : (lba.toNat / 2 ^ 24) &&& 15 = lba.toNat / 2 ^ 24 % 16 :=
    Nat.and_two_pow_sub_one_eq_mod _ 4
  rw [UInt32.toNat_toUInt8, UInt32.toNat_and, UInt32.toNat_shiftRight, Nat.shiftRight_eq_div_pow]
  show (lba.toNat / 2 ^ 24 &&& 15) % 2 ^ 8 = _
  rw [hand]
  omega

theorem lbaBytes (lba : UInt32) : (lba >>> 16).toUInt8.toNat * 2 ^ 16 +
    (lba >>> 8).toUInt8.toNat * 2 ^ 8 + lba.toUInt8.toNat = lba.toNat % 2 ^ 24 := by
  rw [UInt32.toNat_toUInt8, UInt32.toNat_toUInt8, UInt32.toNat_toUInt8, UInt32.toNat_shiftRight,
    UInt32.toNat_shiftRight, Nat.shiftRight_eq_div_pow, Nat.shiftRight_eq_div_pow]
  show lba.toNat / 2 ^ 16 % 2 ^ 8 * 2 ^ 16 + lba.toNat / 2 ^ 8 % 2 ^ 8 * 2 ^ 8 + lba.toNat % 2 ^ 8 = _
  omega

/-- Bits of the drive byte go over those of the address. -/
theorem sectorAddress_eq (drive : UInt8) (lba : UInt32) : sectorAddress drive lba =
    (drive.toNat % 16 ||| lba.toNat / 2 ^ 24 % 16) * 2 ^ 24 + lba.toNat % 2 ^ 24 := by
  have hdevice : (deviceByte drive lba &&& 0x0F).toNat = drive.toNat % 16 ||| lba.toNat / 2 ^ 24 % 16 := by
    rw [lowNibble, deviceByte, UInt8.toNat_or, highNibble]
    show (_ ||| _) % 2 ^ 4 = _
    rw [Nat.or_mod_two_pow]
    show drive.toNat % 16 ||| lba.toNat / 2 ^ 24 % 16 % 16 = _
    rw [Nat.mod_mod]
  rw [← lbaBytes, ← hdevice, sectorAddress]
  omega

/-- With none of them in the way the address is the sector number, up to 2^28. -/
theorem sectorAddress_clear {drive : UInt8} (h : drive &&& 0x0F = 0) (lba : UInt32) :
    sectorAddress drive lba = lba.toNat % 2 ^ 28 := by
  have hdrive : drive.toNat % 16 = 0 := by
    rw [← lowNibble, h]
    rfl
  rw [sectorAddress_eq, hdrive, Nat.zero_or]
  omega

theorem sectorUnit_congr {lba lba' : UInt32} (drive : UInt8)
    (h : lba'.toNat % 2 ^ 28 = lba.toNat % 2 ^ 28) : sectorUnit drive lba' = sectorUnit drive lba := by
  have hdevice : deviceByte drive lba' = deviceByte drive lba := by
    have hnibble : ((lba' >>> 24) &&& 0x0F).toUInt8 = ((lba >>> 24) &&& 0x0F).toUInt8 := by
      apply UInt8.toNat_inj.mp
      rw [highNibble, highNibble]
      omega
    rw [deviceByte, hnibble, deviceByte]
  rw [sectorUnit, hdevice, sectorUnit]

theorem sectorAddress_congr {lba lba' : UInt32} (drive : UInt8)
    (h : lba'.toNat % 2 ^ 28 = lba.toNat % 2 ^ 28) : sectorAddress drive lba' = sectorAddress drive lba := by
  have hhigh : lba'.toNat / 2 ^ 24 % 16 = lba.toNat / 2 ^ 24 % 16 := by omega
  have hlow : lba'.toNat % 2 ^ 24 = lba.toNat % 2 ^ 24 := by omega
  rw [sectorAddress_eq, sectorAddress_eq, hhigh, hlow]

/-! ## Reading behind a write -/

/-- What a caller of `ata_read_sector` sees: the result and its buffer. -/
def readAnswer (a : Ata) (drive : UInt8) (lba : UInt32) (buffer : Mem) : Option (Nat × Mem) :=
  (ataReadSector a drive lba buffer).map fun r => (r.1, r.2.1)

theorem readAnswer_eq (a : Ata) (drive : UInt8) (lba : UInt32) (buffer : Mem) :
    readAnswer a drive lba buffer = some (1, copyBytes buffer 0
      (a.sectors (sectorUnit drive lba) (sectorAddress drive lba)) 0 512) := by
  rw [readAnswer, ataReadSector_eq]
  rfl

def devicePrimaryMaster : UInt8 := 0xE0

def Ata.disk (a : Ata) : Disk where
  sector lba := a.sectors (sectorUnit devicePrimaryMaster (UInt32.ofNat lba))
    (sectorAddress devicePrimaryMaster (UInt32.ofNat lba))
  succeeds _ := true
  reads := 0

/-- Volumes read their sectors through this driver. -/
theorem readAnswer_disk (a : Ata) (lba : Nat) (buffer : Mem) :
    readAnswer a devicePrimaryMaster (UInt32.ofNat lba) buffer =
      some (1, (Fat.ataReadSector a.disk lba buffer 0).2.2) ∧
    (Fat.ataReadSector a.disk lba buffer 0).1 = true := by
  rw [readAnswer_eq]
  exact ⟨rfl, rfl⟩

section

variable {a a' : Ata} {drive : UInt8} {lba lba' : UInt32} {buf : Mem}

/-- Sector numbers that agree in their low 28 bits are one sector. -/
theorem readAnswer_written (h : ataWriteSector a drive lba buf = some (1, a'))
    (hsame : lba'.toNat % 2 ^ 28 = lba.toNat % 2 ^ 28) (dst : Mem) :
    readAnswer a' drive lba' dst = some (1, copyBytes dst 0 buf 0 512) := by
  rw [ataWriteSector_eq] at h
  cases h
  rw [readAnswer_eq, sectorUnit_congr drive hsame, sectorAddress_congr drive hsame]
  show some (1, copyBytes dst 0 (((a.addressed drive lba).store _ _ _).sectors _ _) 0 512) = _
  rw [Ata.store_sectors]
  have hcopy : copyBytes dst 0
      (copyBytes (a.sectors (sectorUnit drive lba) (sectorAddress drive lba)) 0 buf 0 512) 0 512 =
      copyBytes dst 0 buf 0 512 := by
    funext x
    unfold copyBytes
    by_cases hin : 0 ≤ x ∧ x < 0 + 512
    · rw [if_pos hin, if_pos hin, if_pos (by omega)]
      congr 1
      omega
    · rw [if_neg hin, if_neg hin]
  rw [hcopy]

theorem readAnswer_other (h : ataWriteSector a drive lba buf = some (1, a'))
    (hother : sectorAddress drive lba' ≠ sectorAddress drive lba) (dst : Mem) :
    readAnswer a' drive lba' dst = readAnswer a drive lba' dst := by
  rw [ataWriteSector_eq] at h
  cases h
  rw [readAnswer_eq, readAnswer_eq]
  show some (1, copyBytes dst 0 (((a.addressed drive lba).store _ _ _).sectors _ _) 0 512) = _
  rw [Ata.store_other _ _ hother]
  rfl

end

/-- A sector that is written is read back, under every number with the same low 28 bits, and
the sectors at other addresses are read as before. A drive byte with its low four bits clear
leaves all 28 bits of the number in the address. -/
theorem ata_write_read (a : Ata) (drive : UInt8) (lba : UInt32) (buf : Mem) :
    ∃ a', ataWriteSector a drive lba buf = some (1, a') ∧
      (∀ lba' : UInt32, lba'.toNat % 2 ^ 28 = lba.toNat % 2 ^ 28 → ∀ dst,
        readAnswer a' drive lba' dst = some (1, copyBytes dst 0 buf 0 512)) ∧
      (∀ lba', sectorAddress drive lba' ≠ sectorAddress drive lba → ∀ dst,
        readAnswer a' drive lba' dst = readAnswer a drive lba' dst) ∧
      (drive &&& 0x0F = 0 → ∀ lba' : UInt32, lba'.toNat % 2 ^ 28 ≠ lba.toNat % 2 ^ 28 → ∀ dst,
        readAnswer a' drive lba' dst = readAnswer a drive lba' dst) := by
  refine ⟨_, ataWriteSector_eq a drive lba buf, fun lba' => ?_, fun lba' => ?_, fun hdrive lba' hother => ?_⟩
  · exact readAnswer_written (ataWriteSector_eq a drive lba buf)
  · exact readAnswer_other (ataWriteSector_eq a drive lba buf)
  · apply readAnswer_other (ataWriteSector_eq a drive lba buf)
    rw [sectorAddress_clear hdrive, sectorAddress_clear hdrive]
    exact hother

def blankAta : Ata := ⟨0, 0, 0, 0, 0, .idle, fun _ _ _ => 0⟩

/-- Sector 2^28 of the master is its sector 0. -/
theorem ata_write_aliased : ∃ a', ataWriteSector blankAta 0xE0 0 (fun _ => 1) = some (1, a') ∧
    (0x10000000 : UInt32) ≠ 0 ∧
    readAnswer a' 0xE0 0x10000000 (fun _ => 0) ≠ readAnswer blankAta 0xE0 0x10000000 (fun _ => 0) := by
  refine ⟨_, ataWriteSector_eq _ _ _ _, by decide, ?_⟩
  rw [readAnswer_written (ataWriteSector_eq blankAta 0xE0 0 fun _ => 1) (by decide), readAnswer_eq]
  intro h
  have hbyte := congrFun (congrArg Prod.snd (Option.some.inj h)) 0
  exact absurd hbyte (by decide)

end Kaviz.Drivers
