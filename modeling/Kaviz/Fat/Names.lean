import Mathlib.Data.List.DropRight
import Kaviz.Fat.Directory

/-! # File names and their 8.3 form

`lookup_file_in_dir` cuts a file name to eight and three characters and fills up
with blanks. Written out again the name of the entry found is the one asked for,
up to case, exactly when nothing was cut off and no blank or dot was lost.
-/

namespace Kaviz.Fat

open Bytes

def baseName (f : List UInt8) : List UInt8 := f.takeWhile (· != dot)

def extension (f : List UInt8) : List UInt8 := (f.dropWhile (· != dot)).drop 1

def strip (cs : List UInt8) : List UInt8 := cs.rdropWhile (· == 0x20)

def joinName (base ext : List UInt8) : List UInt8 := if ext = [] then base else base ++ dot :: ext

def displayName (name : List UInt8) : List UInt8 := joinName (strip (name.take 8)) (strip (name.drop 8))

def SameName (f g : List UInt8) : Prop := f.map upper = g.map upper

/-- A file name that fits 8.3: at most eight characters, and behind a dot one to three,
neither part with a blank at its end. -/
structure WellNamed (f : List UInt8) : Prop where
  base_le : (baseName f).length ≤ 8
  base_strip : strip (baseName f) = baseName f
  ext_fits : f.dropWhile (· != dot) = [] ∨
    (extension f ≠ [] ∧ (extension f).length ≤ 3 ∧ strip (extension f) = extension f)

/-! ## Characters -/

theorem upper_eq_of_not_letter {c : UInt8} (h : ¬ (0x61 ≤ c ∧ c ≤ 0x7A)) : upper c = c := if_neg h

theorem upper_letter {c : UInt8} (h : 0x61 ≤ c ∧ c ≤ 0x7A) :
    0x41 ≤ (upper c).toNat ∧ (upper c).toNat ≤ 0x5A := by
  have hlo : 0x61 ≤ c.toNat := h.1
  have hhi : c.toNat ≤ 0x7A := h.2
  have hsub : (c - 32).toNat = c.toNat - 32 := by
    rw [UInt8.toNat_sub_of_le _ _ (Nat.le_trans (by decide) hlo)]
    rfl
  rw [upper, if_pos h, hsub]
  omega

theorem upper_eq_iff {b : UInt8} (hcapital : ¬ (0x41 ≤ b.toNat ∧ b.toNat ≤ 0x5A))
    (hletter : ¬ (0x61 ≤ b ∧ b ≤ 0x7A)) (c : UInt8) : upper c = b ↔ c = b := by
  by_cases h : 0x61 ≤ c ∧ c ≤ 0x7A
  · constructor
    · rintro rfl
      exact absurd (upper_letter h) hcapital
    · rintro rfl
      exact absurd h hletter
  · rw [upper_eq_of_not_letter h]

theorem upper_eq_blank (c : UInt8) : upper c = 0x20 ↔ c = 0x20 :=
  upper_eq_iff (by decide) (by decide) c

theorem upper_eq_dot (c : UInt8) : upper c = dot ↔ c = dot :=
  upper_eq_iff (by decide) (by decide) c

theorem upper_upper (c : UInt8) : upper (upper c) = upper c := by
  by_cases h : 0x61 ≤ c ∧ c ≤ 0x7A
  · have hcapital := upper_letter h
    apply upper_eq_of_not_letter
    intro hletter
    have hlo : 0x61 ≤ (upper c).toNat := hletter.1
    omega
  · rw [upper_eq_of_not_letter h, upper_eq_of_not_letter h]

/-! ## Blanks at the end -/

theorem strip_map_upper (cs : List UInt8) : strip (cs.map upper) = (strip cs).map upper := by
  have hblank : ((· == 0x20) ∘ upper : UInt8 → Bool) = (· == 0x20) := by
    funext c
    rw [Bool.eq_iff_iff]
    simp [upper_eq_blank]
  rw [strip, List.rdropWhile, ← List.map_reverse, List.dropWhile_map, hblank, ← List.map_reverse]
  rfl

theorem strip_padTo (n : Nat) (cs : List UInt8) : strip (padTo n cs) = strip cs := by
  unfold padTo
  generalize n - cs.length = k
  induction k with
  | zero => rw [List.replicate_zero, List.append_nil]
  | succ k ih =>
      rw [List.replicate_succ', ← List.append_assoc, strip, List.rdropWhile_concat_pos _ _ _ rfl]
      exact ih

theorem strip_length_le (cs : List UInt8) : (strip cs).length ≤ cs.length :=
  (List.rdropWhile_prefix _ cs).length_le

theorem strip_eq_of_length {cs : List UInt8} (h : cs.length ≤ (strip cs).length) : strip cs = cs :=
  (List.rdropWhile_prefix _ cs).eq_of_length_le h

/-! ## Splitting at the first dot -/

theorem baseName_map_upper (f : List UInt8) : baseName (f.map upper) = (baseName f).map upper := by
  have hdot : ((· != dot) ∘ upper : UInt8 → Bool) = (· != dot) := by
    funext c
    rw [Bool.eq_iff_iff]
    simp [upper_eq_dot]
  rw [baseName, List.takeWhile_map, hdot]
  rfl

theorem dropBase_map_upper (f : List UInt8) :
    (f.map upper).dropWhile (· != dot) = (f.dropWhile (· != dot)).map upper := by
  have hdot : ((· != dot) ∘ upper : UInt8 → Bool) = (· != dot) := by
    funext c
    rw [Bool.eq_iff_iff]
    simp [upper_eq_dot]
  rw [List.dropWhile_map, hdot]

/-- Behind the base there is nothing, or a dot and the extension. -/
theorem dropBase_cases (f : List UInt8) :
    f.dropWhile (· != dot) = [] ∨ f.dropWhile (· != dot) = dot :: extension f := by
  rw [extension]
  cases hrest : f.dropWhile (· != dot) with
  | nil => exact Or.inl rfl
  | cons c cs =>
      have hhead := List.head?_dropWhile_not (· != dot) f
      rw [hrest] at hhead
      simp only [List.head?_cons, bne_eq_false_iff_eq] at hhead
      rw [hhead]
      exact Or.inr rfl

theorem not_dot_mem_baseName (f : List UInt8) : ∀ c ∈ baseName f, (c != dot) = true :=
  fun _ hc => List.mem_takeWhile_imp (p := (· != dot)) hc

section Join

variable {base ext : List UInt8} (h : ∀ c ∈ base, (c != dot) = true)
include h

theorem baseName_joinName : baseName (joinName base ext) = base := by
  rw [baseName, joinName]
  by_cases hext : ext = []
  · rw [if_pos hext]
    exact List.takeWhile_eq_self_iff.mpr h
  · rw [if_neg hext, List.takeWhile_append_of_pos h, List.takeWhile_cons_of_neg (by simp),
      List.append_nil]

theorem dropBase_joinName :
    (joinName base ext).dropWhile (· != dot) = if ext = [] then [] else dot :: ext := by
  rw [joinName]
  by_cases hext : ext = []
  · rw [if_pos hext, if_pos hext]
    exact List.dropWhile_eq_nil_iff.mpr h
  · rw [if_neg hext, if_neg hext, List.dropWhile_append_of_pos h, List.dropWhile_cons_of_neg (by simp)]

end Join

/-! ## Written out again -/

/-- The name the search compares with, written out. -/
theorem displayName_fatName (f : List UInt8) :
    displayName (fatName f) =
      (joinName (strip ((baseName f).take 8)) (strip ((extension f).take 3))).map upper := by
  have hlength : (padTo 8 ((baseName f).take 8)).length = 8 := by
    rw [padTo, List.length_append, List.length_replicate, List.length_take]
    omega
  have hname : fatName f = (padTo 8 ((baseName f).take 8)).map upper ++
      (padTo 3 ((extension f).take 3)).map upper := by
    rw [← List.map_append]
    rfl
  have htake : (fatName f).take 8 = (padTo 8 ((baseName f).take 8)).map upper := by
    rw [hname, List.take_left' (by rw [List.length_map, hlength])]
  have hdrop : (fatName f).drop 8 = (padTo 3 ((extension f).take 3)).map upper := by
    rw [hname, List.drop_left' (by rw [List.length_map, hlength])]
  rw [displayName, htake, hdrop, strip_map_upper, strip_map_upper, strip_padTo, strip_padTo]
  unfold joinName
  by_cases hext : strip ((extension f).take 3) = []
  · rw [if_pos hext, if_pos (by rw [hext]; rfl)]
  · rw [if_neg hext, if_neg (fun hnil => hext (List.map_eq_nil_iff.mp hnil)), List.map_append,
      List.map_cons]
    rfl

/-- A part that comes back in full length was neither cut nor blank at its end. -/
theorem strip_take_length {n : Nat} {cs : List UInt8} (h : (strip (cs.take n)).length = cs.length) :
    cs.length ≤ n ∧ strip cs = cs := by
  have hstrip := strip_length_le (cs.take n)
  rw [h, List.length_take] at hstrip
  have hle : cs.length ≤ n := by omega
  rw [List.take_of_length_le hle] at h
  exact ⟨hle, strip_eq_of_length (Nat.le_of_eq h.symm)⟩

/-- Written out again a name is the one asked for exactly when it fits. -/
theorem displayName_same_iff (f : List UInt8) : SameName (displayName (fatName f)) f ↔ WellNamed f := by
  have hdots : ∀ c ∈ strip ((baseName f).take 8), (c != dot) = true := fun c hc =>
    not_dot_mem_baseName f c (List.mem_of_mem_take ((List.rdropWhile_prefix _ _).subset hc))
  have hupper : (displayName (fatName f)).map upper =
      (joinName (strip ((baseName f).take 8)) (strip ((extension f).take 3))).map upper := by
    rw [displayName_fatName, List.map_map]
    exact List.map_congr_left fun c _ => upper_upper c
  rw [SameName, hupper]
  constructor
  · intro hsame
    -- Both sides split at their first dot.
    have hbase := congrArg baseName hsame
    rw [baseName_map_upper, baseName_map_upper, baseName_joinName hdots] at hbase
    have hrest := congrArg (List.dropWhile (· != dot)) hsame
    rw [dropBase_map_upper, dropBase_map_upper, dropBase_joinName hdots] at hrest
    have hlen := congrArg List.length hbase
    rw [List.length_map, List.length_map] at hlen
    obtain ⟨hle, hstrip⟩ := strip_take_length hlen
    refine ⟨hle, hstrip, ?_⟩
    by_cases hext : strip ((extension f).take 3) = []
    · rw [if_pos hext, List.map_nil] at hrest
      exact Or.inl (List.map_eq_nil_iff.mp hrest.symm)
    · rw [if_neg hext] at hrest
      rcases dropBase_cases f with hnil | hcons
      · exact Or.inl hnil
      · rw [hcons, List.map_cons, List.map_cons] at hrest
        have hlen := congrArg List.length (List.cons.inj hrest).2
        rw [List.length_map, List.length_map] at hlen
        obtain ⟨hle, hstrip⟩ := strip_take_length hlen
        refine Or.inr ⟨?_, hle, hstrip⟩
        rintro hnil
        rw [hnil] at hext
        exact hext rfl
  · intro ⟨hle, hstrip, hfits⟩
    have hsplit : baseName f ++ f.dropWhile (· != dot) = f := List.takeWhile_append_dropWhile
    rw [List.take_of_length_le hle, hstrip]
    rcases hfits with hnil | ⟨hne, hle, hstrip⟩
    · have hext : extension f = [] := by rw [extension, hnil]; rfl
      have hblank : strip (([] : List UInt8).take 3) = [] := rfl
      rw [hext, joinName, if_pos hblank]
      rw [hnil, List.append_nil] at hsplit
      rw [hsplit]
    · rw [List.take_of_length_le hle, hstrip, joinName, if_neg hne]
      rcases dropBase_cases f with hnil | hcons
      · exact absurd (by rw [extension, hnil]; rfl) hne
      · rw [hcons] at hsplit
        rw [hsplit]

/-- The entry a search finds has, written out, the name asked for exactly when that
name fits 8.3; names that fit and lead to the same entry differ at most in case. -/
theorem lookup_names_iff (v : FatVolume) (fuel cluster : Nat) (f : List UInt8) (d d' : Disk)
    (stack : Mem) (e : DirEntry)
    (h : lookupFileInDir v fuel cluster f d stack = some (some e, d')) :
    (SameName (displayName e.name) f ↔ WellNamed f) ∧
      ∀ (g : List UInt8) (d₁ d₁' : Disk) (stack₁ : Mem),
        lookupFileInDir v fuel cluster g d₁ stack₁ = some (some e, d₁') →
        WellNamed f → WellNamed g → SameName f g := by
  have hname : ∀ {g d₁ d₁' stack₁},
      lookupFileInDir v fuel cluster g d₁ stack₁ = some (some e, d₁') → e.name = fatName g :=
    fun hrun => (firstMatch_matches (lookupLoop_eq hrun).symm).2
  refine ⟨?_, ?_⟩
  · rw [hname h]
    exact displayName_same_iff f
  · intro g d₁ d₁' stack₁ hg hf hfits
    have hsame := (displayName_same_iff f).mpr hf
    rw [← hname h, hname hg] at hsame
    exact hsame.symm.trans ((displayName_same_iff g).mpr hfits)

/-- A FAT32 volume with its root directory on cluster 2; the directory holds a file of
eight letters `A`. -/
def longNameDrive : Disk where
  sector lba i := if lba = 1 then if i < 8 then 0x41 else if i < 11 then 0x20 else 0 else 0
  succeeds _ := true
  reads := 0

/-- Names of nine and of ten letters lead to the same entry, and it has neither name. -/
theorem lookup_cuts_names : ∃ e d',
    lookupFileInDir rootVolume 1 2 (List.replicate 9 0x61) longNameDrive (fun _ => 0) = some (some e, d') ∧
      lookupFileInDir rootVolume 1 2 (List.replicate 10 0x61) longNameDrive (fun _ => 0) =
        some (some e, d') ∧
      ¬ SameName (displayName e.name) (List.replicate 9 0x61) ∧
      ¬ SameName (List.replicate 9 0x61) (List.replicate 10 0x61) :=
  ⟨_, _, rfl, rfl, by unfold SameName; decide, by unfold SameName; decide⟩

theorem lookup_names_short : ∃ e d',
    lookupFileInDir rootVolume 1 2 (List.replicate 8 0x61) longNameDrive (fun _ => 0) = some (some e, d') ∧
      (SameName (displayName e.name) (List.replicate 8 0x61) ↔ WellNamed (List.replicate 8 0x61)) := by
  obtain ⟨e, d', h⟩ : ∃ e d', lookupFileInDir rootVolume 1 2 (List.replicate 8 0x61) longNameDrive
      (fun _ => 0) = some (some e, d') := ⟨_, _, rfl⟩
  exact ⟨e, d', h, (lookup_names_iff _ _ _ _ _ _ _ _ h).1⟩

end Kaviz.Fat
