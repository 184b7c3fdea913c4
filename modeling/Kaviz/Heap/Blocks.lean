import Mathlib.Algebra.Order.Ring.Nat
import Mathlib.Data.List.Chain

/-! # Block lists

The abstract heap is a list of blocks in address order. Allocation takes bytes
from the front of one free block, release joins a block with its free
neighbours. What the allocator promises is proved here, on lists; the memory
representation only has to follow.
-/

namespace Kaviz.Heap

structure Block where
  size : Nat
  free : Bool
  deriving DecidableEq

def Block.extent (b : Block) : Nat := 24 + b.size

def span : List Block → Nat
  | [] => 0
  | b :: bs => b.extent + span bs

/-- Blocks with their header addresses, laid out from `a` without gaps. -/
def placed : Nat → List Block → List (Nat × Block)
  | _, [] => []
  | a, b :: bs => (a, b) :: placed (a + b.extent) bs

def used (a : Nat) (bs : List Block) : List (Nat × Nat) :=
  (placed a bs).filterMap fun x => if x.2.free then none else some (x.1 + 24, x.2.size)

def NoAdjacentFree (bs : List Block) : Prop :=
  bs.IsChain fun b c => ¬ (b.free = true ∧ c.free = true)

abbrev Fits (size : Nat) (x : Nat × Block) : Prop := x.2.free = true ∧ size ≤ x.2.size

/-- One step of the search of `kmalloc`: keep the candidate or replace it. -/
def improve (size : Nat) : Option (Nat × Block) → Nat × Block → Option (Nat × Block)
  | none, x => if Fits size x then some x else none
  | some c, x => if Fits size x ∧ x.2.size < c.2.size then some x else some c

/-- The search of `kmalloc` over placed blocks. -/
def bestFit (size : Nat) (xs : List (Nat × Block)) : Option (Nat × Block) :=
  xs.foldl (improve size) none

/-- The smallest block that fits, the first one among equals. -/
def IsBestFit (size : Nat) (xs : List (Nat × Block)) : Option (Nat × Block) → Prop
  | none => ∀ x ∈ xs, ¬ Fits size x
  | some x => Fits size x ∧ ∃ before after, xs = before ++ x :: after ∧
      (∀ y ∈ before, Fits size y → x.2.size < y.2.size) ∧
      ∀ y ∈ after, Fits size y → x.2.size ≤ y.2.size

/-- A block after `size` bytes were taken: whole, or split when more than 16
bytes would remain besides a header. -/
def Block.take (b : Block) (size : Nat) : List Block :=
  if b.size ≤ size + 24 + 16 then [{ b with free := false }]
  else [⟨size, false⟩, ⟨b.size - size - 24, true⟩]

/-- Absorb the first of the following blocks if it is free. -/
def Block.absorb (b : Block) : List Block → List Block
  | [] => [b]
  | c :: post => if c.free = true then ⟨b.size + (24 + c.size), b.free⟩ :: post else b :: c :: post

/-- The list after the block between `pre` and `post` was freed. -/
def release (pre : List Block) (b : Block) (post : List Block) : List Block :=
  let rest := Block.absorb { b with free := true } post
  match pre.getLast? with
  | none => rest
  | some p => if p.free = true then pre.dropLast ++ p.absorb rest else pre ++ rest

/-! ## Extents and addresses -/

@[simp] theorem span_nil : span [] = 0 := rfl

@[simp] theorem span_cons (b : Block) (bs : List Block) : span (b :: bs) = 24 + b.size + span bs :=
  rfl

@[simp] theorem span_append (xs ys : List Block) : span (xs ++ ys) = span xs + span ys := by
  induction xs with
  | nil => simp
  | cons b xs ih =>
      simp only [List.cons_append, span_cons, ih]
      omega

theorem length_le_span (bs : List Block) : 24 * bs.length ≤ span bs := by
  induction bs with
  | nil => simp
  | cons b bs ih =>
      simp only [List.length_cons, span_cons]
      omega

theorem placed_append (a : Nat) (xs ys : List Block) :
    placed a (xs ++ ys) = placed a xs ++ placed (a + span xs) ys := by
  induction xs generalizing a with
  | nil => simp [placed]
  | cons b xs ih =>
      simp only [List.cons_append, placed, ih, span, Block.extent]
      rw [Nat.add_assoc a]

theorem used_append (a : Nat) (xs ys : List Block) :
    used a (xs ++ ys) = used a xs ++ used (a + span xs) ys := by
  rw [used, placed_append, List.filterMap_append]
  rfl

theorem used_cons_free {b : Block} (hb : b.free = true) (a : Nat) (bs : List Block) :
    used a (b :: bs) = used (a + (24 + b.size)) bs := by
  simp [used, placed, hb, Block.extent]

theorem used_cons_used {b : Block} (hb : b.free = false) (a : Nat) (bs : List Block) :
    used a (b :: bs) = (a + 24, b.size) :: used (a + (24 + b.size)) bs := by
  simp [used, placed, hb, Block.extent]

theorem mem_used {a p cap : Nat} {bs : List Block} :
    (p, cap) ∈ used a bs ↔
      ∃ h b, (h, b) ∈ placed a bs ∧ b.free = false ∧ p = h + 24 ∧ cap = b.size := by
  simp only [used, List.mem_filterMap, Prod.exists]
  constructor
  · rintro ⟨h, b, hmem, heq⟩
    cases hb : b.free with
    | true => simp [hb] at heq
    | false =>
        simp only [hb, Bool.false_eq_true, if_false, Option.some.injEq, Prod.mk.injEq] at heq
        exact ⟨h, b, hmem, hb, heq.1.symm, heq.2.symm⟩
  · rintro ⟨h, b, hmem, hb, rfl, rfl⟩
    exact ⟨h, b, hmem, by simp [hb]⟩

theorem placed_split {a h : Nat} {b : Block} {bs : List Block} (hmem : (h, b) ∈ placed a bs) :
    ∃ pre post, bs = pre ++ b :: post ∧ h = a + span pre := by
  induction bs generalizing a with
  | nil => simp [placed] at hmem
  | cons c bs ih =>
      simp only [placed, List.mem_cons, Prod.mk.injEq] at hmem
      rcases hmem with ⟨rfl, rfl⟩ | hmem
      · exact ⟨[], bs, rfl, by simp⟩
      · obtain ⟨pre, post, rfl, rfl⟩ := ih hmem
        refine ⟨c :: pre, post, rfl, ?_⟩
        simp only [span, Block.extent]
        omega

theorem placed_bounds {a h : Nat} {b : Block} {bs : List Block} (hmem : (h, b) ∈ placed a bs) :
    a ≤ h ∧ h + (24 + b.size) ≤ a + span bs := by
  obtain ⟨pre, post, rfl, rfl⟩ := placed_split hmem
  simp only [span_append, span_cons]
  omega

/-- Blocks at different addresses do not overlap. -/
theorem placed_apart {a h h' : Nat} {b b' : Block} {bs : List Block} (hmem : (h, b) ∈ placed a bs)
    (hmem' : (h', b') ∈ placed a bs) :
    (h = h' ∧ b = b') ∨ h + (24 + b.size) ≤ h' ∨ h' + (24 + b'.size) ≤ h := by
  induction bs generalizing a with
  | nil => simp [placed] at hmem
  | cons c bs ih =>
      simp only [placed, List.mem_cons, Prod.mk.injEq] at hmem hmem'
      rcases hmem with ⟨rfl, rfl⟩ | hmem
      · rcases hmem' with ⟨rfl, rfl⟩ | hmem'
        · exact Or.inl ⟨rfl, rfl⟩
        · have hb := placed_bounds hmem'
          rw [Block.extent] at hb
          omega
      · rcases hmem' with ⟨rfl, rfl⟩ | hmem'
        · have hb := placed_bounds hmem
          rw [Block.extent] at hb
          omega
        · exact ih hmem hmem'

/-! ## The search -/

theorem improve_isBestFit {size : Nat} {xs : List (Nat × Block)} {best : Option (Nat × Block)}
    (h : IsBestFit size xs best) (x : Nat × Block) :
    IsBestFit size (xs ++ [x]) (improve size best x) := by
  cases best with
  | none =>
      by_cases hfit : Fits size x
      · simp only [improve, if_pos hfit]
        exact ⟨hfit, xs, [], rfl, fun y hy hyf => absurd hyf (h y hy), by simp⟩
      · simp only [improve, if_neg hfit]
        intro y hy
        rcases List.mem_append.mp hy with hy | hy
        · exact h y hy
        · rw [List.mem_singleton.mp hy]
          exact hfit
  | some c =>
      obtain ⟨hc, before, after, rfl, hbefore, hafter⟩ := h
      by_cases hbetter : Fits size x ∧ x.2.size < c.2.size
      · simp only [improve, if_pos hbetter]
        refine ⟨hbetter.1, before ++ c :: after, [], rfl, fun y hy hyf => ?_, by simp⟩
        -- Every fitting block so far is at least as large as the old candidate.
        have hle : c.2.size ≤ y.2.size := by
          rcases List.mem_append.mp hy with hy | hy
          · exact Nat.le_of_lt (hbefore y hy hyf)
          · rcases List.mem_cons.mp hy with rfl | hy
            · exact Nat.le_refl _
            · exact hafter y hy hyf
        omega
      · simp only [improve, if_neg hbetter]
        refine ⟨hc, before, after ++ [x], by simp, hbefore, fun y hy hyf => ?_⟩
        rcases List.mem_append.mp hy with hy | hy
        · exact hafter y hy hyf
        · rw [List.mem_singleton.mp hy] at hyf ⊢
          exact Nat.le_of_not_lt fun hlt => hbetter ⟨hyf, hlt⟩

theorem bestFit_isBestFit (size : Nat) (xs : List (Nat × Block)) :
    IsBestFit size xs (bestFit size xs) := by
  induction xs using List.reverseRecOn with
  | nil => simp [bestFit, IsBestFit]
  | append_singleton xs x ih =>
      rw [bestFit, List.foldl_append]
      exact improve_isBestFit ih x

/-! ## Taking and releasing blocks -/

theorem span_take (b : Block) (size : Nat) : span (b.take size) = 24 + b.size := by
  unfold Block.take
  split
  · simp
  · simp only [span_cons, span_nil]
    omega

theorem span_absorb (b : Block) (post : List Block) : span (b.absorb post) = span (b :: post) := by
  cases post with
  | nil => rfl
  | cons c post =>
      simp only [Block.absorb]
      split
      · simp only [span_cons]
        omega
      · rfl

theorem absorb_head (b : Block) (post : List Block) :
    ∃ c rest, b.absorb post = c :: rest ∧ c.free = b.free ∧ b.size ≤ c.size := by
  cases post with
  | nil => exact ⟨b, [], rfl, rfl, Nat.le_refl _⟩
  | cons d post =>
      rw [Block.absorb]
      split
      · exact ⟨_, post, rfl, rfl, Nat.le_add_right _ _⟩
      · exact ⟨b, d :: post, rfl, rfl, Nat.le_refl _⟩

theorem used_absorb {b : Block} (hb : b.free = true) (a : Nat) (post : List Block) :
    used a (b.absorb post) = used (a + (24 + b.size)) post := by
  cases post with
  | nil => simp [Block.absorb, used_cons_free hb]
  | cons c post =>
      simp only [Block.absorb]
      split
      next hc =>
        rw [used_cons_free (b := ⟨b.size + (24 + c.size), b.free⟩) hb, used_cons_free hc]
        congr 1
        dsimp only
        omega
      next => rw [used_cons_free hb]

/-- How a list ends decides what `release` does before the freed block. -/
theorem release_cases (pre : List Block) (b : Block) (post : List Block) :
    release pre b post = pre ++ Block.absorb { b with free := true } post ∧
      (∀ p ∈ pre.getLast?, p.free = false) ∨
    ∃ pre' p, pre = pre' ++ [p] ∧ p.free = true ∧
      release pre b post = pre' ++ p.absorb (Block.absorb { b with free := true } post) := by
  rcases List.eq_nil_or_concat pre with rfl | ⟨pre', p, rfl⟩
  · exact Or.inl ⟨rfl, by simp⟩
  · rw [List.concat_eq_append]
    cases hp : p.free with
    | true => exact Or.inr ⟨pre', p, rfl, hp, by simp [release, hp]⟩
    | false => exact Or.inl ⟨by simp [release, hp], by simp [hp]⟩

theorem span_release (pre : List Block) (b : Block) (post : List Block) :
    span (release pre b post) = span (pre ++ b :: post) := by
  rcases release_cases pre b post with ⟨heq, _⟩ | ⟨pre', p, rfl, _, heq⟩
  · rw [heq, span_append, span_absorb, span_append]
    rfl
  · rw [heq, span_append, span_absorb, span_cons, span_absorb]
    simp only [span_append, span_cons, span_nil]
    omega

theorem used_release {b : Block} (hb : b.free = false) (a : Nat) (pre post : List Block) :
    used a (pre ++ b :: post) =
        used a pre ++ (a + span pre + 24, b.size) :: used (a + span pre + (24 + b.size)) post ∧
      used a (release pre b post) =
        used a pre ++ used (a + span pre + (24 + b.size)) post := by
  refine ⟨by rw [used_append, used_cons_used hb], ?_⟩
  rcases release_cases pre b post with ⟨heq, _⟩ | ⟨pre', p, rfl, hp, heq⟩
  · rw [heq, used_append, used_absorb rfl]
  · rw [heq, used_append, used_append, used_absorb hp, used_absorb rfl, used_cons_free hp]
    simp only [span_append, span_cons, span_nil]
    simp [used, placed]
    congr 2
    omega

/-- Taking from a free block adds exactly its payload to those in use. -/
theorem used_take {b : Block} {size : Nat} (hsize : size ≤ b.size) :
    ∃ cap, size ≤ cap ∧ cap ≤ b.size ∧ ∀ a, used a (b.take size) = [(a + 24, cap)] := by
  by_cases hwhole : b.size ≤ size + 24 + 16
  · refine ⟨b.size, hsize, Nat.le_refl _, fun a => ?_⟩
    rw [Block.take, if_pos hwhole, used_cons_used rfl]
    rfl
  · refine ⟨size, Nat.le_refl _, hsize, fun a => ?_⟩
    rw [Block.take, if_neg hwhole, used_cons_used rfl, used_cons_free rfl]
    rfl

/-! ## No two neighbours free -/

theorem noAdjacentFree_append {xs ys : List Block} :
    NoAdjacentFree (xs ++ ys) ↔ NoAdjacentFree xs ∧ NoAdjacentFree ys ∧
      ∀ b ∈ xs.getLast?, ∀ c ∈ ys.head?, ¬ (b.free = true ∧ c.free = true) :=
  List.isChain_append

/-- Only the flag of the first block and the rest matter to the left neighbour. -/
theorem noAdjacentFree_cons {b : Block} {bs : List Block} :
    NoAdjacentFree (b :: bs) ↔
      (∀ c ∈ bs.head?, ¬ (b.free = true ∧ c.free = true)) ∧ NoAdjacentFree bs :=
  List.isChain_cons

theorem noAdjacentFree_take {pre post : List Block} {b : Block} (size : Nat)
    (hpre : NoAdjacentFree pre) (hpost : NoAdjacentFree (b :: post)) (hb : b.free = true) :
    NoAdjacentFree (pre ++ (b.take size ++ post)) := by
  obtain ⟨hhead, hrest⟩ := noAdjacentFree_cons.mp hpost
  unfold Block.take
  split
  · refine noAdjacentFree_append.mpr ⟨hpre, noAdjacentFree_cons.mpr ⟨by simp, hrest⟩, by simp⟩
  · refine noAdjacentFree_append.mpr ⟨hpre, noAdjacentFree_cons.mpr ⟨by simp, ?_⟩, by simp⟩
    exact noAdjacentFree_cons.mpr ⟨fun c hc h => hhead c hc ⟨hb, h.2⟩, hrest⟩

theorem noAdjacentFree_absorb {b : Block} {post : List Block} (hpost : NoAdjacentFree post) :
    NoAdjacentFree (b.absorb post) := by
  cases post with
  | nil => exact List.isChain_singleton _
  | cons c post =>
      obtain ⟨hhead, hrest⟩ := noAdjacentFree_cons.mp hpost
      simp only [Block.absorb]
      split
      next hc => exact noAdjacentFree_cons.mpr ⟨fun d hd h => hhead d hd ⟨hc, h.2⟩, hrest⟩
      next hc =>
        refine noAdjacentFree_cons.mpr ⟨fun d hd h => ?_, hpost⟩
        cases Option.mem_some.mp hd
        exact hc h.2

theorem noAdjacentFree_release {pre post : List Block} {b : Block}
    (h : NoAdjacentFree (pre ++ b :: post)) : NoAdjacentFree (release pre b post) := by
  obtain ⟨hpre, hmid, hjoin⟩ := noAdjacentFree_append.mp h
  have hpost := (noAdjacentFree_cons.mp hmid).2
  have hfreed := noAdjacentFree_absorb (b := { b with free := true }) hpost
  rcases release_cases pre b post with ⟨heq, hlast⟩ | ⟨pre', p, rfl, hp, heq⟩
  · rw [heq]
    refine noAdjacentFree_append.mpr ⟨hpre, hfreed, fun c hc d _ hcd => ?_⟩
    simp [hlast c hc] at hcd
  · rw [heq]
    obtain ⟨hpre', -, hjoin'⟩ := noAdjacentFree_append.mp hpre
    refine noAdjacentFree_append.mpr ⟨hpre', noAdjacentFree_absorb hfreed, fun c hc d hd hcd => ?_⟩
    exact hjoin' c hc p (by simp) ⟨hcd.1, hp⟩

/-- With nothing in use only one block can be left. -/
theorem single_of_used_nil {a : Nat} {bs : List Block} (hne : bs ≠ []) (h : NoAdjacentFree bs)
    (hused : used a bs = []) : ∃ size, bs = [⟨size, true⟩] := by
  cases bs with
  | nil => exact absurd rfl hne
  | cons b bs =>
      obtain ⟨hhead, -⟩ := noAdjacentFree_cons.mp h
      cases hb : b.free with
      | false => simp [used_cons_used hb] at hused
      | true =>
          rw [used_cons_free hb] at hused
          cases bs with
          | nil => exact ⟨b.size, by rw [← hb]⟩
          | cons c bs =>
              cases hc : c.free with
              | false => simp [used_cons_used hc] at hused
              | true => exact absurd ⟨hb, hc⟩ (hhead c rfl)

end Kaviz.Heap
