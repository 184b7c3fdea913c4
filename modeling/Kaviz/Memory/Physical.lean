import Kaviz.Memory.Effects
import Kaviz.Memory.Flat
import Kaviz.Paging.Pool

/-! # Memory behind page tables

The physical machine keeps bytes by physical address and reaches them through
the translation. Two pages backed by one frame would alias, so its promises rest
on every frame backing at most one page. The frames of page tables are kept
apart from this memory; the unified machine has one memory for both. `fill`
optionally says what the frames not yet handed out hold.
-/

namespace Kaviz.Memory

open Bytes Paging

structure PhysState (τ : Type) where
  tables : τ
  phys : Mem

variable {τ : Type} (P : Mapper τ)

def PhysState.resolve (s : PhysState τ) (a : Nat) : Option Nat :=
  if Canonical a then (P.translate s.tables (pageNumber a)).map fun e => e.1 + a % 4096 else none

def physical : Machine (PhysState τ) where
  load s a := (s.resolve P a).map s.phys
  store s a b := (s.resolve P a).map fun p => { s with phys := setByte s.phys p b }
  mapPage s v p f :=
    let r := P.mapPage s.tables v p f
    (r.1, { s with tables := r.2 })

def Backs (t : τ) (p : Nat) : Prop := ∃ n f, P.translate t n = some (p, f)

/-- The frame backs no page and holds `fill`. -/
structure Unbacked (fill : Option UInt8) (s : PhysState τ) (p : Nat) : Prop where
  aligned : p % 4096 = 0
  free : ¬ Backs P s.tables p
  blank : ∀ z ∈ fill, ∀ i, i < 4096 → s.phys (p + i) = z

/-- Frames are page addresses and back one page each. -/
structure PhysOk (hP : P.Lawful) (s : PhysState τ) : Prop where
  tables : hP.Ok s.tables
  aligned : ∀ n p f, P.translate s.tables n = some (p, f) → p % 4096 = 0
  single : ∀ n m p f g, P.translate s.tables n = some (p, f) →
    P.translate s.tables m = some (p, g) → n = m

variable {P}

theorem resolve_eq_some {s : PhysState τ} {a q : Nat} (h : s.resolve P a = some q) :
    Canonical a ∧ ∃ p f, P.translate s.tables (pageNumber a) = some (p, f) ∧ q = p + a % 4096 := by
  unfold PhysState.resolve at h
  split at h
  next hc =>
    obtain ⟨⟨p, f⟩, htr, heq⟩ := Option.map_eq_some_iff.mp h
    exact ⟨hc, p, f, htr, heq.symm⟩
  next => cases h

theorem PhysOk.resolve_inj {hP : P.Lawful} {s : PhysState τ}
    (hok : PhysOk P hP s) {a b q : Nat} (ha : s.resolve P a = some q)
    (hb : s.resolve P b = some q) : a = b := by
  obtain ⟨hca, p, f, htr, hq⟩ := resolve_eq_some ha
  obtain ⟨hcb, p', f', htr', hq'⟩ := resolve_eq_some hb
  have hpa := hok.aligned _ _ _ htr
  have hpb := hok.aligned _ _ _ htr'
  have hframe : p = p' := by omega
  subst hframe
  have hpage := pageNumber_inj hca hcb (hok.single _ _ _ _ _ htr htr')
  omega

/-- A store to mapped memory does not reach an unused frame. -/
theorem PhysOk.unbacked_store {hP : P.Lawful} {s : PhysState τ} (hok : PhysOk P hP s)
    {fill : Option UInt8} {a q p : Nat} (ha : s.resolve P a = some q) (b : UInt8)
    (h : Unbacked P fill s p) :
    Unbacked P fill { s with phys := setByte s.phys q b } p := by
  refine ⟨h.aligned, h.free, ?_⟩
  intro z hz i hi
  have hpa := h.aligned
  obtain ⟨-, p', f', htr, rfl⟩ := resolve_eq_some ha
  have hpa' := hok.aligned _ _ _ htr
  have hne : p + i ≠ p' + a % 4096 := by
    intro heq
    have hsame : p = p' := by omega
    subst hsame
    exact h.free ⟨_, _, htr⟩
  show setByte s.phys (p' + a % 4096) b (p + i) = z
  rw [setByte_other _ _ hne]
  exact h.blank z hz i hi

theorem PhysOk.map_failed {hP : P.Lawful} {s : PhysState τ}
    (hok : PhysOk P hP s) {v p f : Nat} (hp : p < 2 ^ 64) (hf : f < 4096)
    (hret : (P.mapPage s.tables v p f).1 ≠ 0) :
    P.translate (P.mapPage s.tables v p f).2 = P.translate s.tables ∧
      PhysOk P hP { s with tables := (P.mapPage s.tables v p f).2 } := by
  obtain ⟨hok', htr⟩ := hP.map_spec s.tables v p f hok.tables hp hf
  rw [if_neg hret] at htr
  refine ⟨htr, hok', ?_, ?_⟩
  · rw [htr]
    exact hok.aligned
  · rw [htr]
    exact hok.single

theorem PhysOk.mapped {hP : P.Lawful} {s : PhysState τ}
    (hok : PhysOk P hP s) {v p f : Nat} (hp : p < 2 ^ 64) (hpa : p % 4096 = 0) (hf : f < 4096)
    (hfresh : ¬ Backs P s.tables p) (hret : (P.mapPage s.tables v p f).1 = 0) :
    PhysOk P hP { s with tables := (P.mapPage s.tables v p f).2 } ∧
      ∀ q, q ≠ p → ¬ Backs P s.tables q → ¬ Backs P (P.mapPage s.tables v p f).2 q := by
  obtain ⟨hok', htr⟩ := hP.map_spec s.tables v p f hok.tables hp hf
  rw [if_pos hret, pageAlign_of_aligned hpa] at htr
  have hcases : ∀ n q g, P.translate (P.mapPage s.tables v p f).2 n = some (q, g) →
      (n = pageNumber v ∧ q = p) ∨ P.translate s.tables n = some (q, g) := by
    intro n q g h
    rw [htr, PageMap.update] at h
    split at h
    next hn =>
      cases h
      exact Or.inl ⟨hn, rfl⟩
    next => exact Or.inr h
  refine ⟨⟨hok', ?_, ?_⟩, ?_⟩
  · intro n q g h
    rcases hcases n q g h with ⟨-, rfl⟩ | h
    · exact hpa
    · exact hok.aligned n q g h
  · intro n m q g g' h h'
    rcases hcases n q g h with ⟨hn, hq⟩ | hold
    · rcases hcases m q g' h' with ⟨hm, -⟩ | hold'
      · rw [hn, hm]
      · exact absurd ⟨m, g', hq ▸ hold'⟩ hfresh
    · rcases hcases m q g' h' with ⟨-, hq⟩ | hold'
      · exact absurd ⟨n, g, hq ▸ hold⟩ hfresh
      · exact hok.single n m q g g' hold hold'
  · rintro q hne hfree ⟨n, g, h⟩
    rcases hcases n q g h with ⟨-, rfl⟩ | h
    · exact hne rfl
    · exact hfree ⟨n, g, h⟩

/-- A page mapped to an unused frame reads what the frame held. -/
theorem physical_load_mapped (hP : P.Lawful) {z : UInt8} {s : PhysState τ} (hok : PhysOk P hP s)
    {v p f : Nat} (hv : Canonical v) (hp : p < 2 ^ 64) (hf : f < 4096)
    (hfresh : Unbacked P (some z) s p) (hret : (P.mapPage s.tables v p f).1 = 0) {x : Nat}
    (hx : x / 4096 = v / 4096) :
    (physical P).load ((physical P).mapPage s v p f).2 x = some z := by
  have hc := canonical_page hv hx
  have htr := hP.translate_mapped hok.tables hv hp hf hret hc
  rw [if_pos hx, pageAlign_of_aligned hfresh.aligned] at htr
  simp only [physical, PhysState.resolve, hc, htr, if_true, Option.map_some]
  exact congrArg some (hfresh.blank z rfl _ (Nat.mod_lt _ (by decide)))

/-- The physical machine keeps the promises of a machine. -/
def physical_lawful (hP : P.Lawful) (fill : Option UInt8) : Lawful (physical P) where
  Ok := PhysOk P hP
  Fresh := Unbacked P fill
  flags s a := if Canonical a then (P.translate s.tables (pageNumber a)).map Prod.snd else none
  blank := fill
  flags_isSome s a := by
    by_cases hc : Canonical a <;> simp [physical, PhysState.resolve, hc]
  store_spec s a b hok ha := by
    obtain ⟨q, hq⟩ : ∃ q, s.resolve P a = some q := by
      cases hr : s.resolve P a with
      | none => simp [physical, hr] at ha
      | some q => exact ⟨q, rfl⟩
    refine ⟨{ s with phys := setByte s.phys q b }, by simp [physical, hq],
      ⟨hok.tables, hok.aligned, hok.single⟩, ?_, rfl, fun p => hok.unbacked_store hq b⟩
    intro x
    show (s.resolve P x).map (setByte s.phys q b) = if x = a then some b else (s.resolve P x).map s.phys
    by_cases hx : x = a
    · subst hx
      rw [if_pos rfl, hq, Option.map_some, setByte_same]
    · rw [if_neg hx]
      cases hr : s.resolve P x with
      | none => rfl
      | some r =>
          have hne : r ≠ q := fun heq => hx (hok.resolve_inj (heq ▸ hr) hq)
          rw [Option.map_some, Option.map_some, setByte_other _ _ hne]
  map_fail s v p f hok hp hf hret := by
    obtain ⟨htr, hok'⟩ := hok.map_failed hp hf hret
    refine ⟨hok', ?_, ?_, fun q h => ⟨h.aligned, ?_, h.blank⟩⟩
    · funext x
      simp only [physical, PhysState.resolve, htr]
    · funext x
      simp only [physical, htr]
    · show ¬ Backs P (P.mapPage s.tables v p f).2 q
      rw [Backs, htr]
      exact h.free
  map_ok s v p f hok hv hp hpa hf hfresh hret := by
    obtain ⟨hok', hback⟩ := hok.mapped hp hpa hf hfresh.free hret
    have hret' : (P.mapPage s.tables v p f).1 = 0 := hret
    refine ⟨hok', fun x hx => ?_, fun x hx => ?_, fun q hq h => ⟨h.aligned, hback q hq h.free, h.blank⟩⟩
    · by_cases hc : Canonical x
      · have htr := hP.translate_mapped hok.tables hv hp hf hret' hc
        rw [if_neg hx] at htr
        simp only [physical, PhysState.resolve, htr, and_self]
      · simp [physical, PhysState.resolve, hc]
    · have hc := canonical_page hv hx
      have htr := hP.translate_mapped hok.tables hv hp hf hret' hc
      rw [if_pos hx] at htr
      refine ⟨by simp only [physical, hc, htr, if_true, Option.map_some], ?_⟩
      rintro z rfl
      exact physical_load_mapped hP hok hv hp hf hfresh hret' hx

/-! ## The page tables of the kernel -/

/-- The four-level tables, with the upper half of the tree taken from the pool. -/
def kernelTables_lawful : tableMapper.Lawful where
  Ok t := t.WellFormed ∧ t.FromPool UpperHalf
  map_spec t v p f hok hp hf := by
    obtain ⟨hwf, htr⟩ := tableMapper_lawful.map_spec t v p f hok.1 hp hf
    have hpool : (t.mapPage v p f).2.FromPool UpperHalf := hok.2.mapPage hok.1 hp hf
    exact ⟨⟨hwf, hpool⟩, htr⟩

/-- Some page below `heap_max` is not translated. -/
theorem tables_stop {t : PageTables} (hwf : t.WellFormed) (hpool : t.FromPool UpperHalf) :
    ∃ a, kernelBase ≤ a ∧ a < heapLimit + 1 ∧ t.translate (pageNumber a) = none := by
  have hbase : pageNumber kernelBase = 2 ^ 35 := by decide
  obtain ⟨k, hk, hnone⟩ := PageTables.upper_half_bounded hwf hpool (n := pageNumber kernelBase)
    (by omega) (by omega) (by omega)
  have hlt : kernelBase + 2 ^ 21 * k < kernelBase + 2 ^ 21 * 17 := by omega
  have hpage : pageNumber (kernelBase + 2 ^ 21 * k) = pageNumber kernelBase + 512 * k := by
    have hstart : kernelBase = 4096 * (2 ^ 52 - 2 ^ 35) := by decide
    unfold pageNumber
    omega
  refine ⟨kernelBase + 2 ^ 21 * k, Nat.le_add_right _ _, Nat.lt_of_lt_of_le hlt (by decide), ?_⟩
  rw [hpage, PageTables.translate, hnone]
  simp

/-- The pool runs out long before the heap reaches `heap_max`. -/
theorem physical_stops (fill : Option UInt8) :
    StopsAt (physical_lawful kernelTables_lawful fill) kernelBase (heapLimit + 1) := by
  intro s p f hok hfull
  obtain ⟨a, hlo, hhi, hnone⟩ := tables_stop hok.tables.1 hok.tables.2
  have hload := hfull a hlo hhi
  have htr : tableMapper.translate s.tables (pageNumber a) = none := hnone
  have hresolve : s.resolve tableMapper a = none := by
    rw [PhysState.resolve, htr, Option.map_none, ite_self]
  change ((s.resolve tableMapper a).map s.phys).isSome = true at hload
  rw [hresolve] at hload
  cases hload

end Kaviz.Memory
