import Kaviz.Drivers.Channel
import Kaviz.Lib.Progress

/-! # The handshake with the drive

In every interleaving of the driver with the drive, the drive is left alone while it is
busy, is given a command when it is ready only and data when it asks for them, and a
call that returns has done what its result says.
-/

namespace Kaviz.Drivers

open Bytes Fat Traces Progress

/-! ## Status bits -/

namespace Drive

variable {d : Drive} {other : UInt8}

def Busy (d : Drive) : Prop :=
  match d.activity with
  | .busy | .seeking _ | .flushing _ _ _ => True
  | .idle _ _ | .sending _ _ | .receiving _ _ _ _ => False

theorem or_and_left (a b : UInt8) : (a ||| b) &&& a = a := by
  apply UInt8.toBitVec_inj.mp
  ext i hi
  simp only [UInt8.toBitVec_and, UInt8.toBitVec_or, BitVec.getElem_and, BitVec.getElem_or]
  cases a.toBitVec[i] <;> simp

theorem idleStatus_bits : ∀ ready error, idleStatus ready error &&& srBsy = 0 ∧
    (idleStatus ready error &&& srDrdy = 0 ↔ ready = false) ∧
    (idleStatus ready error &&& srErr ≠ 0 ↔ error = true) ∧ idleStatus true error ≠ 0 := by
  decide

theorem status_bsy (d : Drive) (other : UInt8) : d.status other &&& srBsy ≠ 0 ↔ d.Busy := by
  have hset : (srBsy ||| other) &&& srBsy ≠ 0 := by
    rw [or_and_left]
    decide
  have hclear : (srDrdy ||| srDrq) &&& srBsy = 0 := by decide
  unfold status Busy
  cases d.activity with
  | idle ready error => simp [(idleStatus_bits ready error).1]
  | busy => simp [hset]
  | seeking task => simp [hset]
  | sending data word => simp [hclear]
  | receiving unit address word data => simp [hclear]
  | flushing unit address data => simp [hset]

theorem status_idle {ready error : Bool} (h : d.activity = .idle ready error) :
    d.status other = idleStatus ready error := by
  simp [status, h]

theorem status_busy_ne (h : d.Busy) : d.status other ≠ 0 := by
  intro hzero
  exact (d.status_bsy other).mpr h (by rw [hzero]; rfl)

def Requests (d : Drive) : Prop :=
  match d.activity with
  | .sending _ _ | .receiving _ _ _ _ => True
  | .idle _ _ | .busy | .seeking _ | .flushing _ _ _ => False

theorem status_requests (h : d.Requests) : d.status other = srDrdy ||| srDrq := by
  unfold Requests at h
  cases hactivity : d.activity <;> simp_all [status]

end Drive

/-! ## What a call is for -/

namespace Request

def unit (r : Request) : Bool := Drive.unitOf r.device

def address (r : Request) : Nat := Drive.addressOf r.device (r.byte 16) (r.byte 8) (r.byte 0)

def task (r : Request) : Task :=
  match r with
  | .identify _ => .identify
  | .read _ _ => .read r.unit r.address
  | .write _ _ _ => .write r.unit r.address

/-- The sector it is about, as it was at the beginning. -/
def sector (r : Request) (d₀ : Drive) : Mem := d₀.sectors r.unit r.address

/-- That sector behind the first `n` bytes of a write. -/
def written (r : Request) (d₀ : Drive) (n : Nat) : Mem :=
  match r with
  | .write _ _ buffer => copyBytes (r.sector d₀) 0 buffer 0 n
  | .identify _ | .read _ _ => r.sector d₀

/-- What the drive does in front of word `i`. -/
def exchange (r : Request) (d₀ : Drive) (i : Nat) : Activity :=
  match r with
  | .identify _ => .sending (d₀.identity r.unit) i
  | .read _ _ => .sending (r.sector d₀) i
  | .write _ _ _ => .receiving r.unit r.address i (r.written d₀ (2 * i))

/-- The buffer behind the first `n` bytes. -/
def received (r : Request) (d₀ : Drive) (b₀ : Mem) (n : Nat) : Mem :=
  match r with
  | .read _ _ => copyBytes b₀ 0 (r.sector d₀) 0 n
  | .identify _ | .write _ _ _ => b₀

end Request

/-! ## The invariant -/

section

variable (F : Prop) (r : Request) (d₀ : Drive) (b₀ : Mem)

/-- Behind the transfer the drive is done, or flushes, or has failed and left the sector as it was. -/
def Settled (d : Drive) (final : Bool) : Prop :=
  (d.activity = .idle true false ∧ d.sectors = (d₀.store r.unit r.address (r.written d₀ 512)).sectors) ∨
    (∃ drive lba buffer, r = .write drive lba buffer) ∧ d.sectors = d₀.sectors ∧
      (F ∧ d.activity = .idle true true ∨
        final = false ∧ d.activity = .flushing r.unit r.address (r.written d₀ 512))

/-- The command has failed, or the first word can pass. -/
def Answered (d : Drive) : Prop := F ∧ d.activity = .idle true true ∨ d.activity = r.exchange d₀ 0

/-- The registers in the order they are written. -/
structure Loaded (n : Nat) (d : Drive) : Prop where
  hddevsel : 1 ≤ n → d.hddevsel = r.device
  seccount0 : 2 ≤ n → d.seccount0 = r.count
  lba0 : 3 ≤ n → d.lba0 = r.byte 0
  lba1 : 4 ≤ n → d.lba1 = r.byte 8
  lba2 : 5 ≤ n → d.lba2 = r.byte 16

/-- What there is to know in front of each access. -/
def Place (s : Channel) : Prop :=
  let untouched := s.drive.sectors = d₀.sectors ∧ s.caller.buffer = b₀
  let idle := fun n => untouched ∧ Loaded r n s.drive ∧ ∃ error, s.drive.activity = .idle true error
  match s.caller.pc with
  | .waitBusy => untouched ∧ (s.drive.activity = .busy ∨ ∃ ready error, s.drive.activity = .idle ready error)
  | .select => untouched ∧ ∃ ready error, s.drive.activity = .idle ready error
  | .bsy .selected | .drdy .selected =>
      untouched ∧ Loaded r 1 s.drive ∧ ∃ ready error, s.drive.activity = .idle ready error
  | .seccount0 => idle 1
  | .lba0 => idle 2
  | .lba1 => idle 3
  | .lba2 => idle 4
  | .command => idle 5
  | .found | .bsy .commanded =>
      untouched ∧ Loaded r 1 s.drive ∧ (s.drive.activity = .seeking r.task ∨ Answered F r d₀ s.drive)
  | .drdy .commanded | .check => untouched ∧ Answered F r d₀ s.drive
  | .drq => untouched ∧ s.drive.activity = r.exchange d₀ 0
  | .word i =>
      s.caller.buffer = r.received d₀ b₀ (2 * i) ∧
        (i < 256 ∧ s.drive.sectors = d₀.sectors ∧ s.drive.activity = r.exchange d₀ i ∨
          i = 256 ∧ Settled F r d₀ s.drive false)
  | .bsy .written => s.caller.buffer = r.received d₀ b₀ 512 ∧ Settled F r d₀ s.drive false
  | .drdy .written => s.caller.buffer = r.received d₀ b₀ 512 ∧ Settled F r d₀ s.drive true
  | .done result =>
      result = 0 ∧ F ∧ untouched ∧ s.drive.activity = .idle true true ∨
        result = 1 ∧ s.caller.buffer = r.received d₀ b₀ 512 ∧ Settled F r d₀ s.drive true

/-- The drive was never disturbed, and is where the driver takes it to be; `F` stands for a failure of
the drive. -/
structure Fits (s : Channel) : Prop where
  request : s.caller.request = r
  calm : s.drive.disturbed = false
  present : s.drive.present = d₀.present
  identity : s.drive.identity = d₀.identity
  place : Place F r d₀ b₀ s

end

section

variable {F : Prop} {r : Request} {d₀ d : Drive} {b₀ : Mem} {ok : Bool} {i : Nat}

/-! ## The drive goes on -/

namespace Drive

theorem act_fields (d : Drive) (ok : Bool) : ∃ activity sectors, d.act ok = { d with activity, sectors } := by
  unfold act
  split
  · split
    · exact ⟨_, _, rfl⟩
    · exact ⟨_, _, rfl⟩
  · exact ⟨_, _, rfl⟩
  · split
    · split <;> exact ⟨_, _, rfl⟩
    · exact ⟨_, _, rfl⟩
  · split <;> exact ⟨_, _, rfl⟩
  · exact ⟨_, _, rfl⟩
  · exact ⟨_, _, rfl⟩

theorem act_idle {ready error : Bool} (h : d.activity = .idle ready error) :
    ∃ ready', d.act ok = { d with activity := .idle ready' error } := by
  unfold act
  rw [h]
  dsimp only
  split
  · exact ⟨true, rfl⟩
  · exact ⟨ready, by rw [← h]⟩

theorem act_ready {error : Bool} (h : d.activity = .idle true error) : d.act ok = d := by
  unfold act
  rw [h]
  dsimp only
  rw [← h, ite_self]

theorem act_exchange (h : d.activity = r.exchange d₀ i) : d.act ok = d := by
  unfold act
  rw [h]
  cases r <;> rfl

theorem act_busy (h : d.activity = .busy) : ∃ error, d.act ok = { d with activity := .idle false error } := by
  unfold act
  rw [h]
  exact ⟨_, rfl⟩

end Drive

theorem copyBytes_zero (m src : Mem) (a b : Nat) : copyBytes m a src b 0 = m := by
  funext x
  unfold copyBytes
  rw [if_neg (by omega)]

theorem written_zero (r : Request) (d₀ : Drive) : r.written d₀ 0 = r.sector d₀ := by
  cases r with
  | identify drive => rfl
  | read drive lba => rfl
  | write drive lba buffer => exact copyBytes_zero _ _ _ _

theorem act_seeking (h : d.activity = .seeking r.task) (hunit : d.hddevsel = r.device)
    (hsectors : d.sectors = d₀.sectors) (hidentity : d.identity = d₀.identity) :
    d.act ok = { d with activity := if ok then r.exchange d₀ 0 else .idle true true } := by
  unfold Drive.act
  rw [h]
  cases ok with
  | false => rfl
  | true =>
      cases r with
      | identify drive =>
          simp [Request.task, Request.exchange, hunit, hidentity]
          rfl
      | read drive lba => simp [Request.task, Request.exchange, Request.sector, hsectors]
      | write drive lba buffer =>
          simp only [Request.task, Request.exchange, if_true, hsectors, Nat.mul_zero, written_zero]
          rfl

theorem Answered.act (h : Answered F r d₀ d) : d.act ok = d := by
  rcases h with ⟨-, h⟩ | h
  · exact Drive.act_ready h
  · exact Drive.act_exchange h

theorem Settled.act {final : Bool} (h : Settled F r d₀ d final) (hok : ok = false → F) :
    Settled F r d₀ (d.act ok) final := by
  rcases h with h | ⟨hwrite, hsectors, ⟨hF, h⟩ | ⟨hfinal, h⟩⟩
  · rw [Drive.act_ready h.1]
    exact Or.inl h
  · rw [Drive.act_ready h]
    exact Or.inr ⟨hwrite, hsectors, Or.inl ⟨hF, h⟩⟩
  · unfold Drive.act
    rw [h]
    cases ok with
    | false => exact Or.inr ⟨hwrite, hsectors, Or.inl ⟨hok rfl, rfl⟩⟩
    | true =>
        refine Or.inl ⟨rfl, ?_⟩
        show (d.store _ _ _).sectors = _
        simp [Drive.store, hsectors]

theorem Fits.act {s : Channel} (h : Fits F r d₀ b₀ s) (hok : ok = false → F) :
    Fits F r d₀ b₀ { s with drive := s.drive.act ok } := by
  obtain ⟨hrequest, hcalm, hpresent, hidentity, hplace⟩ := h
  obtain ⟨⟨request, pc, buffer⟩, drive⟩ := s
  obtain ⟨activity, sectors, hfields⟩ := drive.act_fields ok
  refine ⟨hrequest, ?_, ?_, ?_, ?_⟩
  · show (drive.act ok).disturbed = false
    rw [hfields]
    exact hcalm
  · show (drive.act ok).present = _
    rw [hfields]
    exact hpresent
  · show (drive.act ok).identity = _
    rw [hfields]
    exact hidentity
  have hready : ∀ n, (drive.sectors = d₀.sectors ∧ buffer = b₀) ∧ Loaded r n drive ∧
      (∃ error, drive.activity = .idle true error) →
      ((drive.act ok).sectors = d₀.sectors ∧ buffer = b₀) ∧ Loaded r n (drive.act ok) ∧
      (∃ error, (drive.act ok).activity = .idle true error) := by
    rintro n ⟨huntouched, hloaded, error, hactivity⟩
    rw [Drive.act_ready hactivity]
    exact ⟨huntouched, hloaded, error, hactivity⟩
  have hselected : (drive.sectors = d₀.sectors ∧ buffer = b₀) ∧ Loaded r 1 drive ∧
      (∃ ready error, drive.activity = .idle ready error) →
      ((drive.act ok).sectors = d₀.sectors ∧ buffer = b₀) ∧ Loaded r 1 (drive.act ok) ∧
      (∃ ready error, (drive.act ok).activity = .idle ready error) := by
    rintro ⟨huntouched, hloaded, ready, error, hactivity⟩
    obtain ⟨ready', hact⟩ := @Drive.act_idle drive ok ready error hactivity
    rw [hact]
    exact ⟨huntouched, ⟨hloaded.hddevsel, hloaded.seccount0, hloaded.lba0, hloaded.lba1, hloaded.lba2⟩,
      ready', error, rfl⟩
  have hcommanded : (drive.sectors = d₀.sectors ∧ buffer = b₀) ∧ Loaded r 1 drive ∧
      (drive.activity = .seeking r.task ∨ Answered F r d₀ drive) →
      ((drive.act ok).sectors = d₀.sectors ∧ buffer = b₀) ∧ Loaded r 1 (drive.act ok) ∧
      ((drive.act ok).activity = .seeking r.task ∨ Answered F r d₀ (drive.act ok)) := by
    rintro ⟨huntouched, hloaded, hactivity | hanswered⟩
    · rw [act_seeking hactivity (hloaded.hddevsel (Nat.le_refl 1)) huntouched.1 hidentity]
      refine ⟨huntouched, ⟨hloaded.hddevsel, hloaded.seccount0, hloaded.lba0, hloaded.lba1, hloaded.lba2⟩,
        Or.inr ?_⟩
      cases ok with
      | false => exact Or.inl ⟨hok rfl, rfl⟩
      | true => exact Or.inr rfl
    · rw [hanswered.act]
      exact ⟨huntouched, hloaded, Or.inr hanswered⟩
  have hanswered : (drive.sectors = d₀.sectors ∧ buffer = b₀) ∧ Answered F r d₀ drive →
      ((drive.act ok).sectors = d₀.sectors ∧ buffer = b₀) ∧ Answered F r d₀ (drive.act ok) := by
    rintro ⟨huntouched, hanswered⟩
    rw [hanswered.act]
    exact ⟨huntouched, hanswered⟩
  cases pc with
  | waitBusy =>
      obtain ⟨huntouched, hbusy | ⟨ready, error, hactivity⟩⟩ := hplace
      · obtain ⟨error, hact⟩ := @Drive.act_busy drive ok hbusy
        refine ⟨?_, Or.inr ⟨false, error, ?_⟩⟩
        · show (drive.act ok).sectors = _ ∧ _
          rw [hact]
          exact huntouched
        · show (drive.act ok).activity = _
          rw [hact]
      · obtain ⟨ready', hact⟩ := @Drive.act_idle drive ok ready error hactivity
        refine ⟨?_, Or.inr ⟨ready', error, ?_⟩⟩
        · show (drive.act ok).sectors = _ ∧ _
          rw [hact]
          exact huntouched
        · show (drive.act ok).activity = _
          rw [hact]
  | select =>
      obtain ⟨huntouched, ready, error, hactivity⟩ := hplace
      obtain ⟨ready', hact⟩ := @Drive.act_idle drive ok ready error hactivity
      show ((drive.act ok).sectors = _ ∧ _) ∧ ∃ ready error, (drive.act ok).activity = .idle ready error
      rw [hact]
      exact ⟨huntouched, ready', error, rfl⟩
  | bsy w =>
      cases w with
      | selected => exact hselected hplace
      | commanded => exact hcommanded hplace
      | written => exact ⟨hplace.1, hplace.2.act hok⟩
  | drdy w =>
      cases w with
      | selected => exact hselected hplace
      | commanded => exact hanswered hplace
      | written => exact ⟨hplace.1, hplace.2.act hok⟩
  | seccount0 => exact hready 1 hplace
  | lba0 => exact hready 2 hplace
  | lba1 => exact hready 3 hplace
  | lba2 => exact hready 4 hplace
  | command => exact hready 5 hplace
  | found => exact hcommanded hplace
  | check => exact hanswered hplace
  | drq =>
      show ((drive.act ok).sectors = _ ∧ _) ∧ (drive.act ok).activity = _
      rw [Drive.act_exchange hplace.2]
      exact hplace
  | word i =>
      obtain ⟨hbuffer, ⟨hi, hsectors, hactivity⟩ | ⟨hi, hsettled⟩⟩ := hplace
      · refine ⟨hbuffer, Or.inl ⟨hi, ?_⟩⟩
        show (drive.act ok).sectors = _ ∧ (drive.act ok).activity = _
        rw [Drive.act_exchange hactivity]
        exact ⟨hsectors, hactivity⟩
      · exact ⟨hbuffer, Or.inr ⟨hi, hsettled.act hok⟩⟩
  | done result =>
      rcases hplace with ⟨hresult, hF, huntouched, hactivity⟩ | ⟨hresult, hbuffer, hsettled⟩
      · refine Or.inl ⟨hresult, hF, ?_⟩
        show ((drive.act ok).sectors = _ ∧ _) ∧ (drive.act ok).activity = _
        rw [Drive.act_ready hactivity]
        exact ⟨huntouched, hactivity⟩
      · exact Or.inr ⟨hresult, hbuffer, hsettled.act hok⟩

/-! ## An access -/

namespace Drive

theorem outb_select {ready error : Bool} (h : d.activity = .idle ready error) (b : UInt8) :
    d.outb regHddevsel b = d.select b error := by
  simp [outb, h, regHddevsel, regSeccount0, regLba0, regLba1, regLba2]

theorem outb_registers {error : Bool} (h : d.activity = .idle true error) (b : UInt8) :
    d.outb regSeccount0 b = { d with seccount0 := b } ∧ d.outb regLba0 b = { d with lba0 := b } ∧
      d.outb regLba1 b = { d with lba1 := b } ∧ d.outb regLba2 b = { d with lba2 := b } ∧
      d.outb regCommand b = { d with activity := d.accept b } := by
  simp [outb, h, regHddevsel, regSeccount0, regLba0, regLba1, regLba2, regCommand]

end Drive

/-- The command of a call, with its registers in place. -/
theorem accept_command (h : Loaded r 5 d) : d.accept r.command = .seeking r.task := by
  unfold Drive.accept
  rw [h.hddevsel (by decide), h.seccount0 (by decide), h.lba0 (by decide), h.lba1 (by decide),
    h.lba2 (by decide)]
  cases r <;> rfl

theorem requests_exchange (h : d.activity = r.exchange d₀ i) : d.Requests := by
  unfold Drive.Requests
  rw [h]
  cases r <;> trivial

theorem idle_not_busy {ready error : Bool} (h : d.activity = .idle ready error) : ¬ d.Busy := by
  simp [Drive.Busy, h]

/-- A drive that has answered, or is done, is ready. -/
theorem Answered.drdy {other : UInt8} (h : Answered F r d₀ d) : d.status other &&& srDrdy ≠ 0 := by
  rcases h with ⟨-, h⟩ | h
  · rw [Drive.status_idle h]
    decide
  · rw [Drive.status_requests (requests_exchange h)]
    decide

theorem Settled.drdy {other : UInt8} (h : Settled F r d₀ d true) : d.status other &&& srDrdy ≠ 0 := by
  rcases h with h | ⟨-, -, ⟨-, h⟩ | ⟨h, -⟩⟩
  · rw [Drive.status_idle h.1]
    decide
  · rw [Drive.status_idle h]
    decide
  · cases h

theorem Settled.final (h : Settled F r d₀ d false) (hbusy : ¬ d.Busy) : Settled F r d₀ d true := by
  rcases h with h | ⟨hwrite, hsectors, h | ⟨-, h⟩⟩
  · exact Or.inl h
  · exact Or.inr ⟨hwrite, hsectors, Or.inl h⟩
  · exact absurd (by simp [Drive.Busy, h]) hbusy

theorem Settled.unwritten {final : Bool} (h : Settled F r d₀ d false)
    (hread : ∀ drive lba buffer, r ≠ .write drive lba buffer) : Settled F r d₀ d final := by
  rcases h with h | ⟨⟨drive, lba, buffer, hwrite⟩, -⟩
  · exact Or.inl h
  · exact absurd hwrite (hread drive lba buffer)

theorem transfer_fits {c : Caller} (hrequest : c.request = r) (hi : i < 256)
    (hactivity : d.activity = r.exchange d₀ i) (hsectors : d.sectors = d₀.sectors)
    (hbuffer : c.buffer = r.received d₀ b₀ (2 * i)) :
    ∃ activity buffer, c.transfer d i = (⟨r, .word (i + 1), buffer⟩, { d with activity }) ∧
      buffer = r.received d₀ b₀ (2 * (i + 1)) ∧
      (i + 1 < 256 ∧ activity = r.exchange d₀ (i + 1) ∨
        i + 1 = 256 ∧ Settled F r d₀ { d with activity } false) := by
  have hlast : i + 1 < 256 ∨ i + 1 = 256 := by omega
  have hself : ∀ m, m = r.sector d₀ → (d₀.store r.unit r.address m).sectors = d.sectors := by
    rintro m rfl
    rw [hsectors]
    funext u x
    show (if _ then _ else _) = _
    split
    · next hsame => rw [hsame.1, hsame.2]; rfl
    · rfl
  subst hrequest
  obtain ⟨request, pc, buffer⟩ := c
  cases request with
  | identify drive =>
      simp only [Caller.transfer, Drive.inw, hactivity, Request.exchange]
      refine ⟨_, _, rfl, hbuffer, ?_⟩
      rcases hlast with hlt | heq
      · exact Or.inl ⟨hlt, if_pos hlt⟩
      · exact Or.inr ⟨heq, Or.inl ⟨if_neg (by omega), (hself _ rfl).symm⟩⟩
  | read drive lba =>
      simp only [Caller.transfer, Drive.inw, hactivity, Request.exchange]
      refine ⟨_, _, rfl, ?_, ?_⟩
      · change buffer = copyBytes b₀ 0 _ 0 (2 * i) at hbuffer
        have happend := copyBytes_append b₀ ((Request.read drive lba).sector d₀) 0 (2 * i) 2
        rw [word_low, word_high, Nat.mul_comm i 2, copyBytes_two, hbuffer]
        rw [Nat.zero_add] at happend
        exact happend
      · rcases hlast with hlt | heq
        · exact Or.inl ⟨hlt, if_pos hlt⟩
        · exact Or.inr ⟨heq, Or.inl ⟨if_neg (by omega), (hself _ rfl).symm⟩⟩
  | write drive lba data =>
      simp only [Caller.transfer, Drive.outw, hactivity, Request.exchange]
      have hwritten : writeLE ((Request.write drive lba data).written d₀ (2 * i)) (2 * i) 2
          ((data (i * 2)).toUInt16 ||| ((data (i * 2 + 1)).toUInt16 <<< 8)).toNat =
          (Request.write drive lba data).written d₀ (2 * (i + 1)) := by
        have happend := copyBytes_append ((Request.write drive lba data).sector d₀) data 0 (2 * i) 2
        rw [Nat.mul_comm i 2, word_eq, writeLE_readLE_two]
        rw [Nat.zero_add] at happend
        exact happend
      rw [hwritten]
      refine ⟨_, _, rfl, hbuffer, ?_⟩
      rcases hlast with hlt | heq
      · exact Or.inl ⟨hlt, if_pos hlt⟩
      · refine Or.inr ⟨heq, Or.inr ⟨⟨drive, lba, data, rfl⟩, hsectors, Or.inr ⟨rfl, ?_⟩⟩⟩
        show (if _ then _ else _) = _
        rw [if_neg (by omega), heq]

theorem Fits.access {s s' : Channel} {other : UInt8} (h : Fits F r d₀ b₀ s)
    (hstep : s.step (.access other) = some s') : Fits F r d₀ b₀ s' := by
  obtain ⟨hrequest, hcalm, hpresent, hidentity, hplace⟩ := h
  obtain ⟨⟨request, pc, buffer⟩, drive⟩ := s
  change request = r at hrequest
  subst hrequest
  have hpoll : ∀ pc', Place F request d₀ b₀ ⟨⟨request, pc', buffer⟩, drive⟩ →
      Fits F request d₀ b₀ ⟨⟨request, pc', buffer⟩, drive⟩ :=
    fun pc' hplace' => ⟨rfl, hcalm, hpresent, hidentity, hplace'⟩
  simp only [Channel.step, Option.map_eq_some_iff] at hstep
  obtain ⟨⟨caller', drive'⟩, hstep, rfl⟩ := hstep
  cases pc with
  | waitBusy =>
      cases hstep
      apply hpoll
      by_cases hbusy : drive.Busy
      · rw [if_pos ((drive.status_bsy other).mpr hbusy)]
        exact hplace
      · rw [if_neg (mt (drive.status_bsy other).mp hbusy)]
        refine ⟨hplace.1, hplace.2.resolve_left fun h => hbusy ?_⟩
        simp [Drive.Busy, show drive.activity = .busy from h]
  | select =>
      cases hstep
      obtain ⟨huntouched, ready, error, hactivity⟩ := hplace
      change drive.activity = _ at hactivity
      rw [Drive.outb_select hactivity]
      exact ⟨rfl, hcalm, hpresent, hidentity, huntouched,
        ⟨fun _ => rfl, by omega, by omega, by omega, by omega⟩, _, _, rfl⟩
  | bsy w =>
      cases hstep
      apply hpoll
      by_cases hbusy : drive.Busy
      · rw [if_pos ((drive.status_bsy other).mpr hbusy)]
        exact hplace
      · rw [if_neg (mt (drive.status_bsy other).mp hbusy)]
        cases w with
        | selected => exact hplace
        | commanded =>
            refine ⟨hplace.1, hplace.2.2.resolve_left fun h => hbusy ?_⟩
            simp [Drive.Busy, show drive.activity = _ from h]
        | written => exact ⟨hplace.1, hplace.2.final hbusy⟩
  | drdy w =>
      cases hstep
      apply hpoll
      cases w with
      | selected =>
          obtain ⟨huntouched, hloaded, ready, error, hactivity⟩ := hplace
          rw [Drive.status_idle hactivity]
          cases ready with
          | false =>
              rw [if_pos ((Drive.idleStatus_bits false error).2.1.mpr rfl)]
              exact ⟨huntouched, hloaded, false, error, hactivity⟩
          | true =>
              rw [if_neg (mt (Drive.idleStatus_bits true error).2.1.mp (by decide))]
              exact ⟨huntouched, hloaded, error, hactivity⟩
      | commanded =>
          rw [if_neg hplace.2.drdy]
          exact hplace
      | written =>
          rw [if_neg hplace.2.drdy]
          exact Or.inr ⟨rfl, hplace⟩
  | seccount0 =>
      cases hstep
      obtain ⟨huntouched, hloaded, error, hactivity⟩ := hplace
      rw [(Drive.outb_registers hactivity _).1]
      exact ⟨rfl, hcalm, hpresent, hidentity, huntouched,
        ⟨fun _ => hloaded.hddevsel (by decide), fun _ => rfl, by omega, by omega, by omega⟩, error, hactivity⟩
  | lba0 =>
      cases hstep
      obtain ⟨huntouched, hloaded, error, hactivity⟩ := hplace
      rw [(Drive.outb_registers hactivity _).2.1]
      exact ⟨rfl, hcalm, hpresent, hidentity, huntouched,
        ⟨fun _ => hloaded.hddevsel (by decide), fun _ => hloaded.seccount0 (by decide), fun _ => rfl, by omega,
          by omega⟩, error, hactivity⟩
  | lba1 =>
      cases hstep
      obtain ⟨huntouched, hloaded, error, hactivity⟩ := hplace
      rw [(Drive.outb_registers hactivity _).2.2.1]
      exact ⟨rfl, hcalm, hpresent, hidentity, huntouched,
        ⟨fun _ => hloaded.hddevsel (by decide), fun _ => hloaded.seccount0 (by decide),
          fun _ => hloaded.lba0 (by decide), fun _ => rfl, by omega⟩, error, hactivity⟩
  | lba2 =>
      cases hstep
      obtain ⟨huntouched, hloaded, error, hactivity⟩ := hplace
      rw [(Drive.outb_registers hactivity _).2.2.2.1]
      exact ⟨rfl, hcalm, hpresent, hidentity, huntouched,
        ⟨fun _ => hloaded.hddevsel (by decide), fun _ => hloaded.seccount0 (by decide),
          fun _ => hloaded.lba0 (by decide), fun _ => hloaded.lba1 (by decide), fun _ => rfl⟩, error, hactivity⟩
  | command =>
      cases hstep
      obtain ⟨huntouched, hloaded, error, hactivity⟩ := hplace
      rw [(Drive.outb_registers hactivity _).2.2.2.2, accept_command hloaded]
      have hplace' : ∀ pc', pc' = .found ∨ pc' = .bsy .commanded → Place F request d₀ b₀
          ⟨⟨request, pc', buffer⟩, { drive with activity := .seeking request.task }⟩ := by
        have hloaded' : Loaded request 1 { drive with activity := .seeking request.task } :=
          ⟨fun _ => hloaded.hddevsel (by decide), by omega, by omega, by omega, by omega⟩
        rintro pc' (rfl | rfl)
        · exact ⟨huntouched, hloaded', Or.inl rfl⟩
        · exact ⟨huntouched, hloaded', Or.inl rfl⟩
      exact ⟨rfl, hcalm, hpresent, hidentity, hplace' _ (by cases request <;> simp)⟩
  | found =>
      cases hstep
      apply hpoll
      have hstatus : drive.status other ≠ 0 := by
        obtain ⟨-, -, hseeking | ⟨-, hfailed⟩ | hexchange⟩ := hplace
        · exact Drive.status_busy_ne (by simp [Drive.Busy, show drive.activity = _ from hseeking])
        · rw [Drive.status_idle hfailed]
          decide
        · rw [Drive.status_requests (requests_exchange hexchange)]
          decide
      rw [if_neg hstatus]
      exact hplace
  | check =>
      cases hstep
      apply hpoll
      obtain ⟨huntouched, ⟨hF, hfailed⟩ | hexchange⟩ := hplace
      · rw [Drive.status_idle hfailed, if_pos (by decide)]
        exact Or.inl ⟨rfl, hF, huntouched, hfailed⟩
      · rw [Drive.status_requests (requests_exchange hexchange), if_neg (by decide)]
        exact ⟨huntouched, hexchange⟩
  | drq =>
      cases hstep
      apply hpoll
      obtain ⟨huntouched, hexchange⟩ := hplace
      rw [Drive.status_requests (requests_exchange hexchange), if_neg (by decide)]
      refine ⟨?_, Or.inl ⟨by decide, huntouched.1, hexchange⟩⟩
      cases request with
      | identify drive => exact huntouched.2
      | read drive lba => exact huntouched.2.trans (copyBytes_zero _ _ _ _).symm
      | write drive lba data => exact huntouched.2
  | word i =>
      by_cases hi : i < 256
      · obtain ⟨hbuffer, ⟨-, hsectors, hactivity⟩ | ⟨hlast, -⟩⟩ := hplace
        · obtain ⟨activity, buffer', htransfer, hbuffer', hplace'⟩ :=
            @transfer_fits F request d₀ drive b₀ i ⟨request, .word i, buffer⟩ rfl hi hactivity hsectors hbuffer
          have hnext : some (⟨request, .word (i + 1), buffer'⟩, { drive with activity }) =
              some (caller', drive') := by
            rw [← htransfer, ← hstep]
            exact (if_pos hi).symm
          cases hnext
          refine ⟨rfl, hcalm, hpresent, hidentity, hbuffer', hplace'.imp ?_ id⟩
          rintro ⟨hlt, hexchange⟩
          exact ⟨hlt, hsectors, hexchange⟩
        · omega
      · obtain ⟨hbuffer, ⟨hlt, -⟩ | ⟨rfl, hsettled⟩⟩ := hplace
        · exact absurd hlt hi
        · cases hstep
          apply hpoll
          cases request with
          | identify drive => exact Or.inr ⟨rfl, hbuffer, hsettled.unwritten fun _ _ _ h => by cases h⟩
          | read drive lba => exact Or.inr ⟨rfl, hbuffer, hsettled.unwritten fun _ _ _ h => by cases h⟩
          | write drive lba data => exact ⟨hbuffer, hsettled⟩
  | done result => cases hstep

/-! ## Progress -/

/-- How often the drive still changes on its own. -/
def Drive.pending (d : Drive) : Nat :=
  match d.activity with
  | .idle ready _ => if ready = false ∧ d.present (Drive.unitOf d.hddevsel) then 1 else 0
  | .busy => 2
  | .seeking _ | .flushing _ _ _ => 1
  | .sending _ _ | .receiving _ _ _ _ => 0

/-- How far a call is from its end, in accesses that are not repeated. -/
def Pc.left : Pc → Nat
  | .waitBusy => 270
  | .select => 269
  | .bsy .selected | .drdy .selected => 268
  | .seccount0 => 267
  | .lba0 => 266
  | .lba1 => 265
  | .lba2 => 264
  | .command => 263
  | .found => 262
  | .bsy .commanded | .drdy .commanded => 261
  | .check => 260
  | .drq => 259
  | .word i => 2 + (256 - i)
  | .bsy .written | .drdy .written => 1
  | .done _ => 0

def Pc.isBsy : Pc → Bool
  | .bsy _ => true
  | _ => false

/-- A loop that waits goes through here as long as the drive is at work. -/
def Channel.waits (s : Channel) : Nat :=
  if s.drive.pending = 0 ∧ s.caller.pc.isBsy = false then 0 else 1

def Channel.rank (s : Channel) : Nat := 8 * s.caller.pc.left + 2 * s.drive.pending + s.waits

end

/-! ## Whole calls -/

section

variable {F : Prop} {r : Request} {d₀ : Drive} {b₀ : Mem} {s : Channel} {ts : List (Step Channel ChannelEvent)}

def Drive.Clean (d : Drive) : Prop :=
  d.disturbed = false ∧ (d.activity = .busy ∨ ∃ ready error, d.activity = .idle ready error)

theorem Fits.start (h : d₀.Clean) : Fits F r d₀ b₀ (.start r b₀ d₀) :=
  ⟨rfl, h.1, rfl, rfl, ⟨rfl, rfl⟩, h.2⟩

theorem Fits.run {s₀ : Channel} (h : Trace Channel.step s₀ ts s) (hs : Fits F r d₀ b₀ s₀)
    (hfail : ∀ t ∈ ts, t.op = .act false → F) : Fits F r d₀ b₀ s := by
  induction h with
  | nil => exact hs
  | @cons s s₁ s' op ts head tail ih =>
      rw [List.forall_mem_cons] at hfail
      refine ih ?_ hfail.2
      cases op with
      | access other => exact hs.access head
      | act ok =>
          cases head
          exact hs.act fun hok => hfail.1 (by rw [hok])

/-- The same sectors behind a drive that is always ready. -/
def Drive.ata (d : Drive) : Ata := ⟨0, 0, 0, 0, 0, .idle, d.sectors⟩

/-- What a call has done that returned `result`; `F` says that the drive failed. A write whose flush
fails returns 1 like any other. -/
def Answer (F : Prop) (d₀ : Drive) (b₀ : Mem) (s : Channel) (result : Nat) : Request → Prop
  | .identify _ =>
      (result = 1 ∨ F ∧ result = 0) ∧ s.caller.buffer = b₀ ∧ s.drive.sectors = d₀.sectors
  | .read drive lba => s.drive.sectors = d₀.sectors ∧
      (F ∧ result = 0 ∧ s.caller.buffer = b₀ ∨
        readAnswer d₀.ata drive lba b₀ = some (result, s.caller.buffer))
  | .write drive lba buffer => s.caller.buffer = b₀ ∧ ∃ a,
      ataWriteSector d₀.ata drive lba buffer = some (1, a) ∧
        (F ∧ result ≤ 1 ∧ s.drive.sectors = d₀.sectors ∨ result = 1 ∧ s.drive.sectors = a.sectors)

theorem store_sector (r : Request) (d₀ : Drive) : (d₀.store r.unit r.address (r.sector d₀)).sectors = d₀.sectors := by
  funext u x
  show (if _ then _ else _) = _
  split
  · next hsame => rw [hsame.1, hsame.2]; rfl
  · rfl

theorem Fits.answer (h : Fits F r d₀ b₀ s) {result : Nat} (hpc : s.caller.pc = .done result) :
    s.drive.Clean ∧ Answer F d₀ b₀ s result r := by
  have hplace := h.place
  obtain ⟨⟨request, pc, buffer⟩, drive⟩ := s
  cases hpc
  have hcalm := h.calm
  rcases hplace with ⟨hresult, hF, ⟨hsectors, hbuffer⟩, hactivity⟩ | ⟨hresult, hbuffer, hsettled⟩
  · refine ⟨⟨hcalm, Or.inr ⟨_, _, hactivity⟩⟩, ?_⟩
    cases r with
    | identify drive => exact ⟨Or.inr ⟨hF, hresult⟩, hbuffer, hsectors⟩
    | read drive lba => exact ⟨hsectors, Or.inl ⟨hF, hresult, hbuffer⟩⟩
    | write drive lba data =>
        exact ⟨hbuffer, _, ataWriteSector_eq _ _ _ _, Or.inl ⟨hF, by omega, hsectors⟩⟩
  · have hclean : drive.Clean := by
      refine ⟨hcalm, Or.inr ?_⟩
      rcases hsettled with hsettled | ⟨-, -, ⟨-, hactivity⟩ | ⟨hfinal, -⟩⟩
      · exact ⟨_, _, hsettled.1⟩
      · exact ⟨_, _, hactivity⟩
      · cases hfinal
    refine ⟨hclean, ?_⟩
    cases r with
    | identify device =>
        rcases hsettled with hsettled | ⟨⟨_, _, _, hwrite⟩, -⟩
        · exact ⟨Or.inl hresult, hbuffer, hsettled.2.trans (store_sector _ _)⟩
        · cases hwrite
    | read device lba =>
        rcases hsettled with hsettled | ⟨⟨_, _, _, hwrite⟩, -⟩
        · refine ⟨hsettled.2.trans (store_sector _ _), Or.inr ?_⟩
          rw [readAnswer_eq, hresult, show buffer = _ from hbuffer]
          rfl
        · cases hwrite
    | write device lba data =>
        refine ⟨hbuffer, _, ataWriteSector_eq _ _ _ _, ?_⟩
        rcases hsettled with hsettled | ⟨-, hsectors, ⟨hF, -⟩ | ⟨hfinal, -⟩⟩
        · exact Or.inr ⟨hresult, hsettled.2⟩
        · exact Or.inl ⟨hF, by omega, hsectors⟩
        · cases hfinal

/-- A unit that is missing never becomes ready. -/
def Missing (r : Request) (s : Channel) : Prop :=
  s.caller.request = r ∧ s.drive.present r.unit = false ∧
    ((s.caller.pc = .waitBusy ∨ s.caller.pc = .select) ∨
      (s.caller.pc = .bsy .selected ∨ s.caller.pc = .drdy .selected) ∧
        s.drive.hddevsel = r.device ∧ s.drive.activity = .idle false false)

theorem Missing.step {s' : Channel} {e : ChannelEvent} (h : Missing r s) (hfits : Fits F r d₀ b₀ s)
    (hstep : s.step e = some s') : Missing r s' := by
  obtain ⟨hrequest, hpresent, hpc⟩ := h
  have hplace := hfits.place
  obtain ⟨⟨request, pc, buffer⟩, drive⟩ := s
  change request = r at hrequest
  subst hrequest
  cases e with
  | act ok =>
      cases hstep
      obtain ⟨activity, sectors, hfields⟩ := drive.act_fields ok
      refine ⟨rfl, ?_, hpc.imp id ?_⟩
      · show (drive.act ok).present _ = _
        rw [hfields]
        exact hpresent
      · rintro ⟨hpc, hdevice, hactivity⟩
        have hsame : drive.act ok = drive := by
          change drive.activity = _ at hactivity
          change drive.hddevsel = _ at hdevice
          have hunit : drive.present (Drive.unitOf drive.hddevsel) = false := by
            rw [hdevice]
            exact hpresent
          unfold Drive.act
          rw [hactivity]
          dsimp only
          rw [hunit, if_neg Bool.false_ne_true]
        rw [hsame]
        exact ⟨hpc, hdevice, hactivity⟩
  | access other =>
      simp only [Channel.step, Option.map_eq_some_iff] at hstep
      obtain ⟨⟨caller', drive'⟩, hstep, rfl⟩ := hstep
      rcases hpc with (hpc | hpc) | ⟨hpc | hpc, hdevice, hactivity⟩
      · cases hpc
        cases hstep
        refine ⟨rfl, hpresent, Or.inl ?_⟩
        show (if _ then Pc.waitBusy else _) = _ ∨ (if _ then _ else Pc.select) = _
        split <;> simp
      · cases hpc
        cases hstep
        obtain ⟨-, ready, error, hactivity⟩ := hplace
        change drive.activity = _ at hactivity
        rw [Drive.outb_select hactivity]
        refine ⟨rfl, hpresent, Or.inr ⟨Or.inl rfl, rfl, ?_⟩⟩
        show Activity.idle false (error && drive.present (Drive.unitOf request.device)) = _
        rw [show drive.present (Drive.unitOf request.device) = false from hpresent, Bool.and_false]
      · cases hpc
        cases hstep
        refine ⟨rfl, hpresent, Or.inr ⟨Or.inr ?_, hdevice, hactivity⟩⟩
        show (if _ then _ else Pc.drdy _) = _
        rw [if_neg (mt (drive.status_bsy other).mp (idle_not_busy hactivity))]
      · cases hpc
        cases hstep
        refine ⟨rfl, hpresent, Or.inr ⟨Or.inl ?_, hdevice, hactivity⟩⟩
        show (if _ then Pc.bsy _ else _) = _
        rw [Drive.status_idle hactivity, if_pos (by decide)]

theorem Missing.run {s₀ : Channel} (h : Trace Channel.step s₀ ts s) (hs : Missing r s₀)
    (hfits : Fits True r d₀ b₀ s₀) : Missing r s := by
  have hstep : ∀ {s op s'}, Missing r s ∧ Fits True r d₀ b₀ s → s.step op = some s' →
      Missing r s' ∧ Fits True r d₀ b₀ s' := by
    rintro s op s' ⟨hs, hfits⟩ head
    exact ⟨hs.step hfits head, Fits.run (.cons head (.nil s')) hfits fun _ _ _ => trivial⟩
  exact (@Trace.inv _ _ _ _ _ _ (fun s => Missing r s ∧ Fits True r d₀ b₀ s) h ⟨hs, hfits⟩ hstep).1

end

end Kaviz.Drivers
