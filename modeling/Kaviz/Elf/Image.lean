import Kaviz.Elf.Loader

/-! # The image an executable prescribes

The program headers of a file say which bytes memory should hold at which
addresses. The loader gives every loadable segment fresh pages, one segment
after the other, so a page shared by two segments ends up with the contents of
the later one only. `place` is what one segment does to one address; folding it
over the segments tells which addresses end up as prescribed.
-/

namespace Kaviz.Elf

open Bytes Paging

structure Phdr where
  type : Nat
  flags : Nat
  offset : Nat
  vaddr : Nat
  filesz : Nat
  memsz : Nat
  deriving DecidableEq

def Phdr.read (m : Mem) (a : Nat) : Phdr where
  type := readLE m a 4
  flags := readLE m (a + 4) 4
  offset := readLE m (a + 8) 8
  vaddr := readLE m (a + 16) 8
  filesz := readLE m (a + 32) 8
  memsz := readLE m (a + 40) 8

def header (file : List UInt8) : Ehdr := Ehdr.ofBytes (file.take 64)

def programHeaders (file : List UInt8) : List Phdr :=
  (List.range (header file).phnum).map fun i =>
    Phdr.read (fun j => file.getD j 0) ((header file).phoff + 56 * i)

def loadable (file : List UInt8) : List Phdr :=
  (programHeaders file).filter fun h => h.type = ptLoad

namespace Phdr

/-- The address lies in `[p_vaddr, p_vaddr + p_memsz)`. -/
def Covers (h : Phdr) (x : Nat) : Prop := h.vaddr ≤ x ∧ x < h.vaddr + h.memsz

def Occupies (h : Phdr) (x : Nat) : Prop :=
  pageAlign h.vaddr ≤ x ∧ x < pageAlign (h.vaddr + h.memsz + 4095)

instance (h : Phdr) (x : Nat) : Decidable (h.Covers x) := inferInstanceAs (Decidable (_ ∧ _))

instance (h : Phdr) (x : Nat) : Decidable (h.Occupies x) := inferInstanceAs (Decidable (_ ∧ _))

/-- What the file prescribes at a covered address: its own bytes, then zeros. -/
def prescribed (file : List UInt8) (h : Phdr) (x : Nat) : Option UInt8 :=
  if x < h.vaddr + h.filesz then file[h.offset + (x - h.vaddr)]? else some 0

/-- A segment in user space, with sizes a 32-bit file system can handle. -/
structure InUserSpace (h : Phdr) : Prop where
  low : userBase ≤ h.vaddr
  high : h.vaddr + h.memsz ≤ 2 ^ 47
  filesz_le : h.filesz ≤ h.memsz
  offset_lt : h.offset < 2 ^ 31
  filesz_lt : h.filesz < 2 ^ 31
  memsz_lt : h.memsz < 2 ^ 31

theorem occupies_of_covers {h : Phdr} {x : Nat} (hx : h.Covers x) : h.Occupies x := by
  unfold Covers at hx
  unfold Occupies pageAlign
  omega

end Phdr

/-- No segment's pages hold a byte of an earlier segment. -/
def NoClobber (hs : List Phdr) : Prop := hs.Pairwise fun h k => ∀ x, h.Covers x → ¬ k.Occupies x

def Disjoint (hs : List Phdr) : Prop := hs.Pairwise fun h k => ∀ x, h.Covers x → ¬ k.Covers x

def Faithful (file : List UInt8) (load : Nat → Option UInt8) : Prop :=
  ∀ h ∈ loadable file, ∀ x, h.Covers x → load x = h.prescribed file x

/-! ## One address -/

/-- How loading left an address. -/
inductive Cell
  | kept
  | blank
  | filled (b : Option UInt8)

/-- Effect of one segment on an address. -/
def Phdr.place (file : List UInt8) (x : Nat) (c : Cell) (h : Phdr) : Cell :=
  if h.Covers x then .filled (h.prescribed file x) else if h.Occupies x then .blank else c

variable {file : List UInt8} {hs : List Phdr} {x : Nat}

theorem place_off (c : Cell) (hoff : ∀ h ∈ hs, ¬ h.Occupies x) :
    hs.foldl (Phdr.place file x) c = c := by
  induction hs with
  | nil => rfl
  | cons h hs ih =>
      have hocc := hoff h (by simp)
      have hcov : ¬ h.Covers x := fun hx => hocc (Phdr.occupies_of_covers hx)
      rw [List.foldl_cons, Phdr.place, if_neg hcov, if_neg hocc]
      exact ih fun k hk => hoff k (by simp [hk])

/-- With no page shared, every covered address ends up as prescribed. -/
theorem place_filled (hclear : NoClobber hs) {h : Phdr} (hmem : h ∈ hs) (hx : h.Covers x)
    (c : Cell) : hs.foldl (Phdr.place file x) c = .filled (h.prescribed file x) := by
  induction hs generalizing c with
  | nil => cases hmem
  | cons k hs ih =>
      obtain ⟨hhead, htail⟩ := List.pairwise_cons.mp hclear
      rw [List.foldl_cons]
      rcases List.mem_cons.mp hmem with rfl | hmem
      · rw [Phdr.place, if_pos hx]
        exact place_off _ fun k hk => hhead k hk x hx
      · exact ih htail hmem _

/-- An address that segments occupy without covering it is left blank. -/
theorem place_blank (hcov : ∀ h ∈ hs, ¬ h.Covers x) (hocc : ∃ h ∈ hs, h.Occupies x) (c : Cell) :
    hs.foldl (Phdr.place file x) c = .blank := by
  induction hs generalizing c with
  | nil =>
      obtain ⟨h, hmem, -⟩ := hocc
      cases hmem
  | cons k hs ih =>
      rw [List.foldl_cons, Phdr.place, if_neg (hcov k (by simp))]
      by_cases hlater : ∃ h ∈ hs, h.Occupies x
      · exact ih (fun h hh => hcov h (by simp [hh])) hlater _
      · -- `k` is the last segment on this page.
        have hoff : ∀ h ∈ hs, ¬ h.Occupies x := fun h hh hx => hlater ⟨h, hh, hx⟩
        obtain ⟨h, hmem, hx⟩ := hocc
        rcases List.mem_cons.mp hmem with rfl | hmem
        · rw [if_pos hx]
          exact place_off _ hoff
        · exact absurd hx (hoff h hmem)

/-- A shared page loses a covered address for good. -/
theorem exists_blank (file : List UInt8) (hdisj : Disjoint hs) (hclash : ¬ NoClobber hs) :
    ∃ h ∈ hs, ∃ x, h.Covers x ∧ ∀ c, hs.foldl (Phdr.place file x) c = .blank := by
  induction hs with
  | nil => exact absurd List.Pairwise.nil hclash
  | cons h hs ih =>
      obtain ⟨hhead, htail⟩ := List.pairwise_cons.mp hdisj
      by_cases hrest : NoClobber hs
      · have hshared : ∃ k ∈ hs, ∃ x, h.Covers x ∧ k.Occupies x := by
          by_contra hnone
          refine hclash (List.pairwise_cons.mpr ⟨fun k hk x hx hocc => ?_, hrest⟩)
          exact hnone ⟨k, hk, x, hx, hocc⟩
        obtain ⟨k, hk, x, hx, hocc⟩ := hshared
        refine ⟨h, by simp, x, hx, fun c => ?_⟩
        exact place_blank (fun k hk => hhead k hk x hx) ⟨k, hk, hocc⟩ _
      · obtain ⟨k, hk, x, hx, hblank⟩ := ih htail hrest
        exact ⟨k, by simp [hk], x, hx, fun c => hblank _⟩

end Kaviz.Elf
