import Mathlib.Algebra.Order.Ring.Nat
import Mathlib.Data.List.Basic

/-! # Byte-addressed memory

A memory is a total function from addresses to bytes. Words are little-endian
runs of bytes, so that accesses of different widths and alignments share one
store. The lemmas are the read-over-write equations and the frame equations the
machine models are built on; nothing here mentions a particular machine.
-/

namespace Kaviz.Bytes

abbrev Mem := Nat → UInt8

def setByte (m : Mem) (a : Nat) (b : UInt8) : Mem := fun x => if x = a then b else m x

@[simp] theorem setByte_same (m : Mem) (a : Nat) (b : UInt8) : setByte m a b a = b := by
  simp [setByte]

theorem setByte_other (m : Mem) {a x : Nat} (b : UInt8) (h : x ≠ a) : setByte m a b x = m x := by
  simp [setByte, h]

/-- The `n`-byte little-endian word at `a`. -/
def readLE (m : Mem) (a : Nat) : Nat → Nat
  | 0 => 0
  | n + 1 => (m a).toNat + 256 * readLE m (a + 1) n

/-- Store the low `n` bytes of `v` at `a`, least significant byte first. -/
def writeLE (m : Mem) (a : Nat) : Nat → Nat → Mem
  | 0, _ => m
  | n + 1, v => writeLE (setByte m a (UInt8.ofNat v)) (a + 1) n (v / 256)

/-! ## Words -/

theorem readLE_congr {m m' : Mem} {a n : Nat} (h : ∀ x, a ≤ x → x < a + n → m x = m' x) :
    readLE m a n = readLE m' a n := by
  induction n generalizing a with
  | zero => rfl
  | succ n ih =>
      have hrest := ih (a := a + 1) (fun x hlo hhi => h x (by omega) (by omega))
      simp only [readLE, hrest, h a (Nat.le_refl a) (by omega)]

theorem readLE_lt (m : Mem) (a n : Nat) : readLE m a n < 256 ^ n := by
  induction n generalizing a with
  | zero => simp [readLE]
  | succ n ih =>
      have hbyte : (m a).toNat < 256 := (m a).toNat_lt
      have hrest := ih (a + 1)
      rw [readLE, Nat.pow_succ]
      omega

theorem writeLE_outside (m : Mem) {a n x : Nat} (v : Nat) (h : x < a ∨ a + n ≤ x) :
    writeLE m a n v x = m x := by
  induction n generalizing m a v with
  | zero => rfl
  | succ n ih =>
      rw [writeLE, ih _ _ (by omega)]
      exact setByte_other m _ (by omega)

theorem readLE_writeLE_same (m : Mem) (a n v : Nat) :
    readLE (writeLE m a n v) a n = v % 256 ^ n := by
  induction n generalizing m a v with
  | zero => simp [readLE, Nat.mod_one]
  | succ n ih =>
      have hbyte : (UInt8.ofNat v).toNat = v % 256 := by simp
      rw [readLE, writeLE, ih, writeLE_outside _ _ (Or.inl (Nat.lt_succ_self a)), setByte_same,
        hbyte, Nat.pow_succ, Nat.mul_comm (256 ^ n) 256, Nat.mod_mul]

/-- Storing the word that is already there changes nothing. -/
theorem writeLE_readLE (m : Mem) (a n : Nat) : writeLE m a n (readLE m a n) = m := by
  induction n generalizing m a with
  | zero => rfl
  | succ n ih =>
      have hbyte : (m a).toNat < 256 := (m a).toNat_lt
      have hlow : UInt8.ofNat ((m a).toNat + 256 * readLE m (a + 1) n) = m a := by
        apply UInt8.toNat_inj.mp
        simp
      have hhigh : ((m a).toNat + 256 * readLE m (a + 1) n) / 256 = readLE m (a + 1) n := by omega
      have hsame : setByte m a (m a) = m := by
        funext x
        by_cases hx : x = a
        · rw [hx, setByte_same]
        · exact setByte_other m _ hx
      rw [readLE, writeLE, hlow, hhigh, hsame, ih]

theorem readLE_writeLE_disjoint (m : Mem) {a n b k : Nat} (v : Nat)
    (h : a + n ≤ b ∨ b + k ≤ a) : readLE (writeLE m b k v) a n = readLE m a n :=
  readLE_congr fun _ hlo hhi => writeLE_outside m v (by omega)

/-- The low bytes of a longer word. -/
theorem readLE_add (m : Mem) (a n k : Nat) :
    readLE m a (n + k) = readLE m a n + 256 ^ n * readLE m (a + n) k := by
  induction n generalizing a with
  | zero => simp [readLE]
  | succ n ih =>
      have hnext : a + 1 + n = a + (n + 1) := by omega
      rw [Nat.add_right_comm, readLE, readLE, ih, hnext, Nat.pow_succ, Nat.mul_add, ← Nat.add_assoc,
        ← Nat.mul_assoc, Nat.mul_comm 256 (256 ^ n)]

theorem readLE_mod (m : Mem) (a n k : Nat) : readLE m a (n + k) % 256 ^ n = readLE m a n := by
  induction n generalizing a with
  | zero => rw [Nat.pow_zero, Nat.mod_one, readLE]
  | succ n ih =>
      have hbyte : (m a).toNat < 256 := (m a).toNat_lt
      rw [Nat.add_right_comm, readLE, readLE, Nat.pow_succ, Nat.mul_comm (256 ^ n) 256, Nat.mod_mul,
        Nat.add_mul_mod_self_left, Nat.mod_eq_of_lt hbyte, Nat.add_mul_div_left _ _ (by decide),
        Nat.div_eq_of_lt hbyte, Nat.zero_add, ih]

/-! ## 64-bit words -/

theorem readLE8_lt (m : Mem) (a : Nat) : readLE m a 8 < 2 ^ 64 := by
  simpa using readLE_lt m a 8

theorem readLE8_writeLE8_same (m : Mem) (a : Nat) {v : Nat} (hv : v < 2 ^ 64) :
    readLE (writeLE m a 8 v) a 8 = v := by
  rw [readLE_writeLE_same]
  exact Nat.mod_eq_of_lt (by simpa using hv)

/-! ## Memory given by words -/

/-- The memory whose aligned 64-bit words are given. -/
def ofWords (w : Nat → Nat) : Mem := fun a => UInt8.ofNat (w (a / 8) / 256 ^ (a % 8))

theorem readLE_ofWords (w : Nat → Nat) (k : Nat) {j n : Nat} (h : j + n ≤ 8) :
    readLE (ofWords w) (8 * k + j) n = w k / 256 ^ j % 256 ^ n := by
  induction n generalizing j with
  | zero => simp [readLE, Nat.mod_one]
  | succ n ih =>
      have hword : (8 * k + j) / 8 = k := by omega
      have hbyte : (8 * k + j) % 8 = j := by omega
      have hrest := ih (j := j + 1) (by omega)
      rw [← Nat.add_assoc, Nat.pow_succ, ← Nat.div_div_eq_div_mul] at hrest
      have hpow : 256 ^ (n + 1) = 256 * 256 ^ n := by rw [Nat.pow_succ, Nat.mul_comm]
      rw [readLE, hrest, ofWords, hword, hbyte, UInt8.toNat_ofNat', hpow, Nat.mod_mul]

end Kaviz.Bytes
