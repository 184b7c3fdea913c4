import Kaviz.Memory.Machine
import Kaviz.Paging.Refinement

/-! # Memory seen through a page map

A `Mapper` is `map_page` together with the translation it maintains; the real
page tables are one. The flat machine puts bytes behind the virtual addresses:
a page can be accessed when it is mapped, and a page mapped anew holds whatever
its frame held before. It is the memory of code that never looks at physical
addresses, with `map_page` free to fail at any call.
-/

namespace Kaviz.Memory

open Bytes Paging

/-- `map_page` and the partial map it edits. -/
structure Mapper (τ : Type) where
  translate : τ → PageMap
  mapPage : τ → Nat → Nat → Nat → Int × τ

/-- `map_page` does what the page tables do, or fails without a change. -/
structure Mapper.Lawful {τ : Type} (P : Mapper τ) where
  Ok : τ → Prop
  map_spec : ∀ t v p f, Ok t → p < 2 ^ 64 → f < 4096 → Ok (P.mapPage t v p f).2 ∧
    P.translate (P.mapPage t v p f).2 =
      if (P.mapPage t v p f).1 = 0 then
        (P.translate t).update (pageNumber v) (some (pageAlign p, f ||| pagePresent))
      else P.translate t

def tableMapper : Mapper PageTables := ⟨PageTables.translate, PageTables.mapPage⟩

def tableMapper_lawful : tableMapper.Lawful where
  Ok := PageTables.WellFormed
  map_spec := by
    intro t v p f hwf hp hf
    obtain ⟨hwf', ⟨hret, htr⟩ | ⟨hret, htr⟩⟩ := PageTables.mapPage_spec (v := v) hwf hp hf
    · refine ⟨hwf', ?_⟩
      simp only [tableMapper, hret, if_true]
      exact htr
    · refine ⟨hwf', ?_⟩
      simp only [tableMapper, hret]
      exact htr

/-- On canonical addresses the page number determines the page. -/
theorem pageNumber_inj {a b : Nat} (ha : Canonical a) (hb : Canonical b)
    (h : pageNumber a = pageNumber b) : a / 4096 = b / 4096 := by
  unfold Canonical at ha hb
  unfold pageNumber at h
  omega

theorem canonical_page {a b : Nat} (ha : Canonical a) (h : b / 4096 = a / 4096) : Canonical b := by
  unfold Canonical at *
  omega

/-- A successful `map_page` at a canonical address, seen from every canonical address. -/
theorem Mapper.Lawful.translate_mapped {τ : Type} {P : Mapper τ} (hP : P.Lawful) {t : τ} {v p f : Nat}
    (hok : hP.Ok t) (hv : Canonical v) (hp : p < 2 ^ 64) (hf : f < 4096)
    (hret : (P.mapPage t v p f).1 = 0) {x : Nat} (hx : Canonical x) :
    P.translate (P.mapPage t v p f).2 (pageNumber x) =
      if x / 4096 = v / 4096 then some (pageAlign p, f ||| 1) else P.translate t (pageNumber x) := by
  rw [(hP.map_spec t v p f hok hp hf).2, if_pos hret, PageMap.update]
  by_cases hpage : x / 4096 = v / 4096
  · have hnum : pageNumber x = pageNumber v := by rw [pageNumber, pageNumber, hpage]
    rw [if_pos hnum, if_pos hpage]
    rfl
  · rw [if_neg fun hnum => hpage (pageNumber_inj hx hv hnum), if_neg hpage]

structure FlatState (τ : Type) where
  tables : τ
  bytes : Mem

variable {τ : Type} (P : Mapper τ) (junk : FlatState τ → Nat → Mem)

/-- An access to this address does not fault. -/
def FlatState.Accessible (s : FlatState τ) (a : Nat) : Prop :=
  Canonical a ∧ (P.translate s.tables (pageNumber a)).isSome

instance (s : FlatState τ) (a : Nat) : Decidable (s.Accessible P a) :=
  inferInstanceAs (Decidable (_ ∧ _))

/-- The machine of a page map. `junk` is what a newly mapped page holds. -/
def flat : Machine (FlatState τ) where
  load s a := if s.Accessible P a then some (s.bytes a) else none
  store s a b := if s.Accessible P a then some { s with bytes := setByte s.bytes a b } else none
  mapPage s v p f :=
    let r := P.mapPage s.tables v p f
    (r.1, {
      tables := r.2
      bytes := if r.1 = 0 then fun x => if x / 4096 = v / 4096 then junk s v x else s.bytes x
        else s.bytes })

variable {P}

/-- The flat machine keeps the promises of a machine, whatever the pages hold. -/
def flat_lawful (hP : P.Lawful) : Lawful (flat P junk) where
  Ok s := hP.Ok s.tables
  Fresh _ _ := True
  flags s a := if Canonical a then (P.translate s.tables (pageNumber a)).map Prod.snd else none
  blank := none
  flags_isSome s a := by
    by_cases hc : Canonical a <;> simp only [flat, FlatState.Accessible, hc]
    · cases P.translate s.tables (pageNumber a) <;> simp
    · simp
  store_spec s a b hok ha := by
    have hacc : s.Accessible P a := by
      by_contra hacc
      simp [flat, hacc] at ha
    refine ⟨{ s with bytes := setByte s.bytes a b }, by simp [flat, hacc], hok, fun x => ?_, rfl,
      fun _ _ => trivial⟩
    have hsame : FlatState.Accessible P { s with bytes := setByte s.bytes a b } x ↔
        s.Accessible P x := Iff.rfl
    by_cases hx : x = a
    · subst hx
      simp [flat, hsame, hacc]
    · simp [flat, hsame, hx, setByte]
  map_fail s v p f hok hp hf hret := by
    obtain ⟨hok', htr⟩ := hP.map_spec s.tables v p f hok hp hf
    have hne : (P.mapPage s.tables v p f).1 ≠ 0 := hret
    rw [if_neg hne] at htr
    refine ⟨hok', ?_, ?_, fun _ _ => trivial⟩
    · funext x
      simp only [flat, FlatState.Accessible, htr, if_neg hne]
      exact if_congr Iff.rfl rfl rfl
    · funext x
      simp [flat, htr]
  map_ok s v p f hok hv hp hpa hf _ hret := by
    have hzero : (P.mapPage s.tables v p f).1 = 0 := hret
    refine ⟨(hP.map_spec s.tables v p f hok hp hf).1, fun x hx => ?_, fun x hx => ?_,
      fun _ _ _ => trivial⟩
    · by_cases hc : Canonical x
      · have htr := hP.translate_mapped hok hv hp hf hzero hc
        rw [if_neg hx] at htr
        simp only [flat, FlatState.Accessible, htr, hzero, if_true, if_neg hx, and_true]
        exact if_congr Iff.rfl rfl rfl
      · simp [flat, FlatState.Accessible, hc]
    · have hc := canonical_page hv hx
      have htr := hP.translate_mapped hok hv hp hf hzero hc
      rw [if_pos hx] at htr
      exact ⟨by simp [flat, hc, htr], nofun⟩

end Kaviz.Memory
