import Kaviz.Lib.Bytes

/-! # The machine below the allocator

Kernel code reaches memory through the current translation: a byte access
faults unless its page is mapped, and `map_page` makes pages appear. `Machine`
is that interface and nothing more, so that the heap can be run on real page
tables as well as on any other behaviour of `map_page`.

`Lawful` is what the interface promises on states satisfying `Ok`. Stores change
one byte; a failed mapping changes no byte; a successful one replaces only the
page it names, provided the frame put behind it was not in use.
-/

namespace Kaviz.Memory

open Bytes

structure Machine (σ : Type) where
  /-- Read a byte; `none` is a page fault. -/
  load : σ → Nat → Option UInt8
  /-- Write a byte; `none` is a page fault. -/
  store : σ → Nat → UInt8 → Option σ
  /-- `map_page(virtual_addr, physical_addr, flags)`. -/
  mapPage : σ → Nat → Nat → Nat → Int × σ

/-- Addresses the processor accepts: bits 48..63 repeat bit 47. -/
def Canonical (a : Nat) : Prop := a < 2 ^ 47 ∨ (2 ^ 64 - 2 ^ 47 ≤ a ∧ a < 2 ^ 64)

instance (a : Nat) : Decidable (Canonical a) := inferInstanceAs (Decidable (_ ∨ _))

/-- What is observed and guaranteed about a machine on its good states. -/
structure Lawful {σ : Type} (M : Machine σ) where
  Ok : σ → Prop
  /-- No mapped page is backed by this frame. -/
  Fresh : σ → Nat → Prop
  /-- Flags of the page an address lies on, when mapped. -/
  flags : σ → Nat → Option Nat
  /-- What a page reads right after a fresh frame was put behind it, if that is known. -/
  blank : Option UInt8
  flags_isSome : ∀ s a, (flags s a).isSome = (M.load s a).isSome
  store_spec : ∀ s a b, Ok s → (M.load s a).isSome → ∃ s', M.store s a b = some s' ∧ Ok s' ∧
    (∀ x, M.load s' x = if x = a then some b else M.load s x) ∧ flags s' = flags s ∧
    ∀ p, Fresh s p → Fresh s' p
  map_fail : ∀ s v p f, Ok s → p < 2 ^ 64 → f < 4096 → (M.mapPage s v p f).1 ≠ 0 →
    Ok (M.mapPage s v p f).2 ∧ M.load (M.mapPage s v p f).2 = M.load s ∧
    flags (M.mapPage s v p f).2 = flags s ∧ ∀ q, Fresh s q → Fresh (M.mapPage s v p f).2 q
  map_ok : ∀ s v p f, Ok s → Canonical v → p < 2 ^ 64 → p % 4096 = 0 → f < 4096 → Fresh s p →
    (M.mapPage s v p f).1 = 0 →
    Ok (M.mapPage s v p f).2 ∧
    (∀ x, x / 4096 ≠ v / 4096 → M.load (M.mapPage s v p f).2 x = M.load s x ∧
      flags (M.mapPage s v p f).2 x = flags s x) ∧
    (∀ x, x / 4096 = v / 4096 → flags (M.mapPage s v p f).2 x = some (f ||| 1) ∧
      ∀ z ∈ blank, M.load (M.mapPage s v p f).2 x = some z) ∧
    ∀ q, q ≠ p → Fresh s q → Fresh (M.mapPage s v p f).2 q

variable {σ : Type} (M : Machine σ)

def view (s : σ) : Mem := fun a => (M.load s a).getD 0

def Mapped (s : σ) (lo hi : Nat) : Prop := ∀ a, lo ≤ a → a < hi → (M.load s a).isSome

/-- Load an `n`-byte little-endian word. -/
def loadLE (s : σ) (a : Nat) : Nat → Option Nat
  | 0 => some 0
  | n + 1 => do
      let b ← M.load s a
      let rest ← loadLE s (a + 1) n
      return b.toNat + 256 * rest

variable {M}

theorem Mapped.mono {s : σ} {lo hi lo' hi' : Nat} (h : Mapped M s lo hi) (hlo : lo ≤ lo')
    (hhi : hi' ≤ hi) : Mapped M s lo' hi' := fun a ha ha' => h a (by omega) (by omega)

theorem load_eq_view {s : σ} {a : Nat} (h : (M.load s a).isSome) :
    M.load s a = some (view M s a) := by
  cases hl : M.load s a with
  | none => simp [hl] at h
  | some b => simp [view, hl]

theorem loadLE_eq {s : σ} {a n : Nat} (h : Mapped M s a (a + n)) :
    loadLE M s a n = some (readLE (view M s) a n) := by
  induction n generalizing a with
  | zero => rfl
  | succ n ih =>
      have hrest := ih (a := a + 1) (h.mono (by omega) (by omega))
      have hbyte := load_eq_view (h a (Nat.le_refl a) (by omega))
      simp [loadLE, readLE, hrest, hbyte]

end Kaviz.Memory
