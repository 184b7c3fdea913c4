import Kaviz.Drivers.Ata

/-! # The driver and a drive that works on its own

`ata_identify`, `ata_read_sector` and `ata_write_sector` of `kernel/drivers/ata.c`, access
by access, in front of a drive that is busy for as long as it likes, that may fail, and
that goes on between any two accesses. While it is busy the other bits of its status
are anything, and it is not to be disturbed.
-/

namespace Kaviz.Drivers

open Bytes Fat

/-! ## The drive -/

inductive Task
  | identify
  | read (unit : Bool) (address : Nat)
  | write (unit : Bool) (address : Nat)

inductive Activity
  | idle (ready error : Bool)
  /-- With something that was no command of the driver. -/
  | busy
  | seeking (task : Task)
  /-- The data register brings this sector, or takes one. -/
  | sending (data : Mem) (word : Nat)
  | receiving (unit : Bool) (address word : Nat) (data : Mem)
  | flushing (unit : Bool) (address : Nat) (data : Mem)

structure Drive where
  seccount0 : UInt8
  lba0 : UInt8
  lba1 : UInt8
  lba2 : UInt8
  hddevsel : UInt8
  activity : Activity
  /-- The units that are there. -/
  present : Bool → Bool
  identity : Bool → Mem
  sectors : Bool → Nat → Mem
  /-- It was accessed in a way it was not prepared for. -/
  disturbed : Bool

def cmdIdentify : UInt8 := 0xEC

namespace Drive

def unitOf (hddevsel : UInt8) : Bool := decide (hddevsel &&& 0x10 ≠ 0)

def addressOf (hddevsel lba2 lba1 lba0 : UInt8) : Nat :=
  (hddevsel &&& 0x0F).toNat * 2 ^ 24 + lba2.toNat * 2 ^ 16 + lba1.toNat * 2 ^ 8 + lba0.toNat

/-- What a command starts. Unknown ones, and those for more than a sector, are refused. -/
def accept (d : Drive) (c : UInt8) : Activity :=
  let unit := unitOf d.hddevsel
  let address := addressOf d.hddevsel d.lba2 d.lba1 d.lba0
  if c = cmdIdentify then .seeking .identify
  else if c = cmdReadPio ∧ d.seccount0 = 1 then .seeking (.read unit address)
  else if c = cmdWritePio ∧ d.seccount0 = 1 then .seeking (.write unit address)
  else .idle true true

/-- A unit that was selected has to become ready; one that is missing has no bit set. -/
def select (d : Drive) (b : UInt8) (error : Bool) : Drive :=
  { d with hddevsel := b, activity := .idle false (error && d.present (unitOf b)) }

/-- `outb` of an idle drive; commands need a unit that is ready. -/
def outb (d : Drive) (port : Nat) (b : UInt8) : Drive :=
  match d.activity with
  | .idle ready error =>
      if port = regSeccount0 then { d with seccount0 := b }
      else if port = regLba0 then { d with lba0 := b }
      else if port = regLba1 then { d with lba1 := b }
      else if port = regLba2 then { d with lba2 := b }
      else if port = regHddevsel then d.select b error
      else if port = regCommand then
        if ready then { d with activity := d.accept b } else { d with disturbed := true }
      else d
  | _ => { d with disturbed := true }

def idleStatus (ready error : Bool) : UInt8 := (if ready then srDrdy else 0) ||| (if error then srErr else 0)

def status (d : Drive) (other : UInt8) : UInt8 :=
  match d.activity with
  | .idle ready error => idleStatus ready error
  | .sending _ _ | .receiving _ _ _ _ => srDrdy ||| srDrq
  | .busy | .seeking _ | .flushing _ _ _ => srBsy ||| other

def inw (d : Drive) : UInt16 × Drive :=
  match d.activity with
  | .sending data word =>
      (UInt16.ofNat (readLE data (2 * word) 2),
        { d with activity := if word + 1 < 256 then .sending data (word + 1) else .idle true false })
  | _ => (0, { d with disturbed := true })

def outw (d : Drive) (v : UInt16) : Drive :=
  match d.activity with
  | .receiving unit address word data =>
      let data := writeLE data (2 * word) 2 v.toNat
      { d with
        activity :=
          if word + 1 < 256 then .receiving unit address (word + 1) data else .flushing unit address data }
  | _ => { d with disturbed := true }

def store (d : Drive) (unit : Bool) (address : Nat) (m : Mem) : Drive :=
  { d with sectors := fun u x => if u = unit ∧ x = address then m else d.sectors u x }

/-- The drive goes on: what it was busy with ends well or not. A missing unit stays as it is. -/
def act (d : Drive) (ok : Bool) : Drive :=
  match d.activity with
  | .idle _ error => if d.present (unitOf d.hddevsel) then { d with activity := .idle true error } else d
  | .busy => { d with activity := .idle false (!ok && d.present (unitOf d.hddevsel)) }
  | .seeking task =>
      if ok then
        match task with
        | .identify => { d with activity := .sending (d.identity (unitOf d.hddevsel)) 0 }
        | .read unit address => { d with activity := .sending (d.sectors unit address) 0 }
        | .write unit address => { d with activity := .receiving unit address 0 (d.sectors unit address) }
      else { d with activity := .idle true true }
  | .flushing unit address data =>
      if ok then { d.store unit address data with activity := .idle true false }
      else { d with activity := .idle true true }
  | .sending _ _ | .receiving _ _ _ _ => d

end Drive

/-! ## The driver -/

inductive Request
  | identify (drive : UInt8)
  | read (drive : UInt8) (lba : UInt32)
  | write (drive : UInt8) (lba : UInt32) (buffer : Mem)

namespace Request

def device : Request → UInt8
  | .identify drive => drive
  | .read drive lba | .write drive lba _ => deviceByte drive lba

def count : Request → UInt8
  | .identify _ => 0
  | .read _ _ | .write _ _ _ => 1

def byte (shift : UInt32) : Request → UInt8
  | .identify _ => 0
  | .read _ lba | .write _ lba _ => (lba >>> shift).toUInt8

def command : Request → UInt8
  | .identify _ => cmdIdentify
  | .read _ _ => cmdReadPio
  | .write _ _ _ => cmdWritePio

end Request

/-- Where `ata_wait_ready` was called. -/
inductive Wait
  | selected | commanded | written
  deriving DecidableEq

/-- The next access. `bsy` and `drdy` are the two reads in the loop of `ata_wait_ready`, `found`
is the one of `ata_identify` behind its command. -/
inductive Pc
  | waitBusy | select
  | bsy (w : Wait) | drdy (w : Wait)
  | seccount0 | lba0 | lba1 | lba2 | command | found | check | drq
  | word (i : Nat)
  | done (result : Nat)

structure Caller where
  request : Request
  pc : Pc
  /-- The buffer of `ata_read_sector`. -/
  buffer : Mem

structure Channel where
  caller : Caller
  drive : Drive

/-- Behind `ata_wait_ready`. -/
def Wait.next : Wait → Pc
  | .selected => .seccount0
  | .commanded => .check
  | .written => .done 1

namespace Caller

/-- The body of the loop over the words. -/
def transfer (c : Caller) (d : Drive) (i : Nat) : Caller × Drive :=
  match c.request with
  | .identify _ => ({ c with pc := .word (i + 1) }, d.inw.2)
  | .read _ _ =>
      let (data, d) := d.inw
      ({ c with
          pc := .word (i + 1)
          buffer := setByte (setByte c.buffer (i * 2) data.toUInt8) (i * 2 + 1) (data >>> 8).toUInt8 }, d)
  | .write _ _ buffer =>
      let data := (buffer (i * 2)).toUInt16 ||| ((buffer (i * 2 + 1)).toUInt16 <<< 8)
      ({ c with pc := .word (i + 1) }, d.outw data)

/-- One access, with the bits that a busy drive shows; `none` when the call has returned. -/
def step (c : Caller) (other : UInt8) (d : Drive) : Option (Caller × Drive) :=
  let status := d.status other
  let goto := fun pc => { c with pc }
  match c.pc with
  | .waitBusy => some (goto (if status &&& srBsy ≠ 0 then .waitBusy else .select), d)
  | .select => some (goto (.bsy .selected), d.outb regHddevsel c.request.device)
  | .bsy w => some (goto (if status &&& srBsy ≠ 0 then .bsy w else .drdy w), d)
  | .drdy w => some (goto (if status &&& srDrdy = 0 then .bsy w else w.next), d)
  | .seccount0 => some (goto .lba0, d.outb regSeccount0 c.request.count)
  | .lba0 => some (goto .lba1, d.outb regLba0 (c.request.byte 0))
  | .lba1 => some (goto .lba2, d.outb regLba1 (c.request.byte 8))
  | .lba2 => some (goto .command, d.outb regLba2 (c.request.byte 16))
  | .command =>
      let next := match c.request with
        | .identify _ => .found
        | .read _ _ | .write _ _ _ => .bsy .commanded
      some (goto next, d.outb regCommand c.request.command)
  | .found => some (goto (if status = 0 then .done 0 else .bsy .commanded), d)
  | .check => some (goto (if status &&& srErr ≠ 0 then .done 0 else .drq), d)
  | .drq => some (goto (if status &&& srDrq = 0 then .drq else .word 0), d)
  | .word i =>
      if i < 256 then some (c.transfer d i)
      else
        let next := match c.request with
          | .write _ _ _ => .bsy .written
          | .identify _ | .read _ _ => .done 1
        some (goto next, d)
  | .done _ => none

end Caller

/-- An access of the driver, or the drive goes on. -/
inductive ChannelEvent
  | access (other : UInt8)
  | act (ok : Bool)
  deriving DecidableEq

namespace Channel

def step (s : Channel) : ChannelEvent → Option Channel
  | .access other => (s.caller.step other s.drive).map fun r => ⟨r.1, r.2⟩
  | .act ok => some { s with drive := s.drive.act ok }

def start (request : Request) (buffer : Mem) (drive : Drive) : Channel := ⟨⟨request, .waitBusy, buffer⟩, drive⟩

end Channel

end Kaviz.Drivers
