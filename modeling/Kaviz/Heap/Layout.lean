import Kaviz.Heap.Alloc
import Kaviz.Heap.Blocks
import Kaviz.Memory.Effects

/-! # Block lists in memory

`Layout m a bs` says that the blocks `bs` lie in memory `m` from address `a` on,
each linked to its own end and the last one to `NULL`. The list walks of the
allocator compute the corresponding functions of the block list, and every
header write changes the layout at one place.
-/

namespace Kaviz.Heap

open Bytes Memory

/-- The pointer to a list starting at `a`, as `heap_first_block` and `next` hold it. -/
def link (a : Nat) : List Block → Nat
  | [] => 0
  | _ :: _ => a

/-- The header at `a` describes block `b`. -/
structure Header (m : Mem) (a : Nat) (b : Block) (next : Nat) : Prop where
  size_eq : readLE m a 8 = b.size
  next_eq : readLE m (a + 8) 8 = next
  free_eq : readLE m (a + 16) 4 = if b.free then 1 else 0

def Layout (m : Mem) : Nat → List Block → Prop
  | _, [] => True
  | a, b :: bs => Header m a b (link (a + b.extent) bs) ∧ Layout m (a + b.extent) bs

/-- Blocks in front of others: every one is linked to its own end. -/
def Segment (m : Mem) : Nat → List Block → Prop
  | _, [] => True
  | a, b :: bs => Header m a b (a + b.extent) ∧ Segment m (a + b.extent) bs

/-- A byte of some block header. -/
def HeaderByte (a : Nat) (bs : List Block) (x : Nat) : Prop :=
  ∃ h b, (h, b) ∈ placed a bs ∧ h ≤ x ∧ x < h + 24

/-! ## Headers -/

variable {m m' : Mem} {a next : Nat} {b : Block} {bs pre post : List Block}

theorem Header.congr (h : Header m a b next) (hm : ∀ x, a ≤ x → x < a + 24 → m' x = m x) :
    Header m' a b next := by
  refine ⟨?_, ?_, ?_⟩
  · rw [← h.size_eq]
    exact readLE_congr fun x hlo hhi => hm x hlo (by omega)
  · rw [← h.next_eq]
    exact readLE_congr fun x hlo hhi => hm x (by omega) (by omega)
  · rw [← h.free_eq]
    exact readLE_congr fun x hlo hhi => hm x (by omega) (by omega)

theorem Header.writeSize (h : Header m a b next) {v : Nat} (hv : v < 2 ^ 64) :
    Header (writeLE m a 8 v) a { b with size := v } next :=
  ⟨readLE8_writeLE8_same m a hv,
    (readLE_writeLE_disjoint m v (Or.inr (Nat.le_refl _))).trans h.next_eq,
    (readLE_writeLE_disjoint m v (by omega)).trans h.free_eq⟩

theorem Header.writeNext (h : Header m a b next) {v : Nat} (hv : v < 2 ^ 64) :
    Header (writeLE m (a + 8) 8 v) a b v :=
  ⟨(readLE_writeLE_disjoint m v (by omega)).trans h.size_eq, readLE8_writeLE8_same m (a + 8) hv,
    (readLE_writeLE_disjoint m v (by omega)).trans h.free_eq⟩

theorem Header.writeFree (h : Header m a b next) (free : Bool) :
    Header (writeLE m (a + 16) 4 (if free then 1 else 0)) a { b with free := free } next := by
  refine ⟨(readLE_writeLE_disjoint m _ (by omega)).trans h.size_eq,
    (readLE_writeLE_disjoint m _ (by omega)).trans h.next_eq, ?_⟩
  rw [readLE_writeLE_same]
  cases free <;> rfl

theorem header_fresh (m : Mem) (a : Nat) {size next : Nat} (hsize : size < 2 ^ 64)
    (hnext : next < 2 ^ 64) :
    Header (writeLE (writeLE (writeLE m a 8 size) (a + 8) 8 next) (a + 16) 4 1) a
      ⟨size, true⟩ next := by
  refine ⟨?_, ?_, ?_⟩
  · rw [readLE_writeLE_disjoint _ _ (by omega), readLE_writeLE_disjoint _ _ (by omega)]
    exact readLE8_writeLE8_same m a hsize
  · rw [readLE_writeLE_disjoint _ _ (by omega)]
    exact readLE8_writeLE8_same _ _ hnext
  · rw [readLE_writeLE_same]
    rfl

/-! ## Layouts -/

theorem link_append (a : Nat) (b : Block) (xs ys : List Block) :
    link a (xs ++ b :: ys) = a := by
  cases xs <;> rfl

theorem link_ne_nil (h : bs ≠ []) : link a bs = a := by
  cases bs with
  | nil => exact absurd rfl h
  | cons b bs => rfl

theorem layout_append {rest : List Block} (hrest : rest ≠ []) :
    Layout m a (pre ++ rest) ↔ Segment m a pre ∧ Layout m (a + span pre) rest := by
  induction pre generalizing a with
  | nil => simp [Segment]
  | cons c pre ih =>
      have hlink : link (a + c.extent) (pre ++ rest) = a + c.extent :=
        link_ne_nil (by simp [hrest])
      simp only [List.cons_append, Layout, Segment, hlink, ih, span, and_assoc]
      rw [Nat.add_assoc a]

theorem Layout.congr_headers (h : Layout m a bs) (hm : ∀ x, HeaderByte a bs x → m' x = m x) :
    Layout m' a bs := by
  induction bs generalizing a with
  | nil => trivial
  | cons b bs ih =>
      refine ⟨h.1.congr fun x hlo hhi => hm x ⟨a, b, by simp [placed], hlo, hhi⟩,
        ih h.2 fun x hx => hm x ?_⟩
      obtain ⟨q, c, hmem, hlo, hhi⟩ := hx
      exact ⟨q, c, by simp [placed, hmem], hlo, hhi⟩

theorem Layout.congr (h : Layout m a bs) (hm : ∀ x, a ≤ x → x < a + span bs → m' x = m x) :
    Layout m' a bs := by
  refine h.congr_headers fun x hx => ?_
  obtain ⟨q, c, hmem, hlo, hhi⟩ := hx
  have hb := placed_bounds hmem
  exact hm x (by omega) (by omega)

theorem Segment.congr (h : Segment m a bs) (hm : ∀ x, a ≤ x → x < a + span bs → m' x = m x) :
    Segment m' a bs := by
  induction bs generalizing a with
  | nil => trivial
  | cons b bs ih =>
      simp only [span_cons] at hm
      refine ⟨h.1.congr fun x hlo hhi => hm x hlo (by omega),
        ih h.2 fun x hlo hhi => hm x ?_ ?_⟩ <;> simp only [Block.extent] at hlo hhi <;> omega

theorem Layout.header (h : Layout m a (pre ++ b :: post)) :
    Header m (a + span pre) b (link (a + span pre + b.extent) post) :=
  ((layout_append (by simp)).mp h).2.1

theorem Layout.tail (h : Layout m a (pre ++ b :: post)) :
    Layout m (a + span pre + b.extent) post :=
  ((layout_append (by simp)).mp h).2.2

theorem Layout.segment (h : Layout m a (pre ++ b :: post)) : Segment m a pre :=
  ((layout_append (by simp)).mp h).1

theorem headerByte_mid {x : Nat} (hlo : a + span pre ≤ x) (hhi : x < a + span pre + 24) :
    HeaderByte a (pre ++ b :: post) x :=
  ⟨a + span pre, b, by simp [placed_append, placed], hlo, hhi⟩

/-! ## Reading headers -/

variable {σ : Type} {M : Machine σ} {x : σ}

theorem blockSize_eq (h : Header (view M x) a b next) (hm : Mapped M x a (a + 24)) :
    blockSize M x a = some b.size := by
  rw [blockSize, loadLE_eq (hm.mono (by omega) (by omega)), h.size_eq]

theorem blockNext_eq (h : Header (view M x) a b next) (hm : Mapped M x a (a + 24)) :
    blockNext M x a = some next := by
  rw [blockNext, loadLE_eq (hm.mono (by omega) (by omega)), h.next_eq]

theorem blockFree_eq (h : Header (view M x) a b next) (hm : Mapped M x a (a + 24)) :
    blockFree M x a = some (if b.free then 1 else 0) := by
  rw [blockFree, loadLE_eq (hm.mono (by omega) (by omega)), h.free_eq]

/-! ## The walks -/

/-- A candidate of the search is null or a block whose size can be read. -/
def Candidate (M : Machine σ) (x : σ) (best : Nat) : Option (Nat × Block) → Prop
  | none => best = 0
  | some c => best = c.1 ∧ c.1 ≠ 0 ∧ blockSize M x c.1 = some c.2.size

theorem findBest_step (size fuel : Nat) {best : Nat} {c : Option (Nat × Block)}
    (h : Header (view M x) a b next) (hm : Mapped M x a (a + 24)) (ha : a ≠ 0)
    (hc : Candidate M x best c) :
    ∃ best', Candidate M x best' (improve size c (a, b)) ∧
      findBest M x size (fuel + 1) a best = findBest M x size fuel next best' := by
  cases c with
  | none =>
      cases hc
      by_cases hfit : b.free = true ∧ size ≤ b.size
      · refine ⟨a, ?_, ?_⟩
        · simp only [improve, if_pos hfit]
          exact ⟨rfl, ha, blockSize_eq h hm⟩
        · simp [findBest, ha, blockFree_eq h hm, blockSize_eq h hm, blockNext_eq h hm, hfit]
      · refine ⟨0, ?_, ?_⟩
        · simp only [improve, if_neg hfit]
          rfl
        · simp [findBest, ha, blockFree_eq h hm, blockSize_eq h hm, blockNext_eq h hm, hfit]
  | some c =>
      obtain ⟨rfl, hne, hsize⟩ := hc
      by_cases hfit : b.free = true ∧ size ≤ b.size
      · by_cases hlt : b.size < c.2.size
        · refine ⟨a, ?_, ?_⟩
          · simp only [improve, if_pos (And.intro hfit hlt)]
            exact ⟨rfl, ha, blockSize_eq h hm⟩
          · simp [findBest, ha, blockFree_eq h hm, blockSize_eq h hm, blockNext_eq h hm, hfit, hne,
              hsize, hlt]
        · refine ⟨c.1, ?_, ?_⟩
          · simp only [improve, if_neg (fun hh : Fits size (a, b) ∧ _ => hlt hh.2)]
            exact ⟨rfl, hne, hsize⟩
          · simp [findBest, ha, blockFree_eq h hm, blockSize_eq h hm, blockNext_eq h hm, hfit, hne,
              hsize, hlt]
      · refine ⟨c.1, ?_, ?_⟩
        · simp only [improve, if_neg (fun hh : Fits size (a, b) ∧ _ => hfit hh.1)]
          exact ⟨rfl, hne, hsize⟩
        · simp [findBest, ha, blockFree_eq h hm, blockSize_eq h hm, blockNext_eq h hm, hfit]

theorem findBest_eq (size : Nat) {fuel best : Nat} {c : Option (Nat × Block)}
    (h : Layout (view M x) a bs) (hm : Mapped M x a (a + span bs)) (ha : a ≠ 0)
    (hfuel : bs.length < fuel) (hc : Candidate M x best c) :
    ∃ best', Candidate M x best' ((placed a bs).foldl (improve size) c) ∧
      findBest M x size fuel (link a bs) best = some best' := by
  induction bs generalizing a fuel best c with
  | nil =>
      obtain ⟨fuel, rfl⟩ : ∃ k, fuel = k + 1 := ⟨fuel - 1, by omega⟩
      exact ⟨best, hc, by simp [findBest, link]⟩
  | cons b bs ih =>
      obtain ⟨fuel, rfl⟩ : ∃ k, fuel = k + 1 := ⟨fuel - 1, by omega⟩
      simp only [span_cons, List.length_cons] at hm hfuel
      have hext : a + b.extent = a + (24 + b.size) := rfl
      obtain ⟨best₁, hc₁, hstep⟩ := findBest_step size fuel h.1
        (hm.mono (Nat.le_refl _) (by omega)) ha hc
      obtain ⟨best₂, hc₂, hrest⟩ := ih h.2 (hm.mono (by omega) (by omega)) (by omega)
        (by omega : bs.length < fuel) hc₁
      exact ⟨best₂, hc₂, by rw [link, hstep, hrest]⟩

theorem findLast_eq {fuel : Nat} (h : Layout (view M x) a (pre ++ [b]))
    (hm : Mapped M x a (a + span (pre ++ [b]))) (ha : a ≠ 0) (hfuel : pre.length < fuel) :
    findLast M x fuel a = some (a + span pre) := by
  induction pre generalizing a fuel with
  | nil =>
      obtain ⟨fuel, rfl⟩ : ∃ k, fuel = k + 1 := ⟨fuel - 1, by omega⟩
      have hnext := blockNext_eq h.1 (hm.mono (Nat.le_refl _) (by simp))
      simp [findLast, hnext, link]
  | cons c pre ih =>
      obtain ⟨fuel, rfl⟩ : ∃ k, fuel = k + 1 := ⟨fuel - 1, by omega⟩
      rw [List.cons_append] at h hm
      simp only [span_cons, List.length_cons] at hm hfuel
      have hnext := blockNext_eq h.1 (hm.mono (Nat.le_refl _) (by omega))
      have hext : a + c.extent = a + (24 + c.size) := rfl
      have hne : a + c.extent ≠ 0 := by omega
      have hrest := ih h.2 (hm.mono (by omega) (by omega)) hne (by omega : pre.length < fuel)
      rw [link_append] at hnext
      simp only [findLast, hnext, Option.bind_eq_bind, Option.bind_some, if_neg hne, hrest, span_cons]
      rw [hext, Nat.add_assoc]

/-- What the search for a predecessor finds is linked to the block searched for. -/
theorem findPrev_cases {fuel block : Nat} (h : Layout (view M x) a bs)
    (hm : Mapped M x a (a + span bs)) (ha : a ≠ 0) (hblock : block ≠ 0) (hfuel : bs.length < fuel) :
    ∃ r, findPrev M x block fuel (link a bs) = some r ∧ (r = 0 ∨ ∃ pre p c post,
      bs = pre ++ p :: c :: post ∧ r = a + span pre ∧ block = a + span pre + p.extent) := by
  induction bs generalizing a fuel with
  | nil =>
      obtain ⟨fuel, rfl⟩ : ∃ k, fuel = k + 1 := ⟨fuel - 1, by omega⟩
      exact ⟨0, by simp [findPrev, link], Or.inl rfl⟩
  | cons p bs ih =>
      obtain ⟨fuel, rfl⟩ : ∃ k, fuel = k + 1 := ⟨fuel - 1, by omega⟩
      simp only [span_cons, List.length_cons] at hm hfuel
      have hnext := blockNext_eq h.1 (hm.mono (Nat.le_refl _) (by omega))
      have hext : a + p.extent = a + (24 + p.size) := rfl
      rw [link_ne_nil (List.cons_ne_nil p bs)]
      simp only [findPrev, if_neg ha, hnext, Option.bind_eq_bind, Option.bind_some]
      by_cases heq : link (a + p.extent) bs = block
      · refine ⟨a, if_pos heq, Or.inr ?_⟩
        cases bs with
        | nil => exact absurd heq.symm hblock
        | cons c post => exact ⟨[], p, c, post, rfl, rfl, heq.symm⟩
      · obtain ⟨r, hret, hcase⟩ := ih h.2 (hm.mono (by omega) (by omega)) (by omega)
          (by omega : bs.length < fuel)
        refine ⟨r, by rw [if_neg heq, hret], hcase.imp_right ?_⟩
        rintro ⟨pre, q, c, post, rfl, hr, hq⟩
        refine ⟨p :: pre, q, c, post, rfl, ?_, ?_⟩
        · rw [hr, span_cons]
          omega
        · rw [hq, span_cons]
          omega

/-- No block of a list is linked to its first block or to one before it. -/
theorem findPrev_none {fuel block : Nat} (h : Layout (view M x) a bs)
    (hm : Mapped M x a (a + span bs)) (ha : a ≠ 0) (hblock : block ≠ 0) (hle : block ≤ a)
    (hfuel : bs.length < fuel) : findPrev M x block fuel (link a bs) = some 0 := by
  obtain ⟨r, hret, rfl | ⟨pre, p, c, post, -, -, hlink⟩⟩ := findPrev_cases h hm ha hblock hfuel
  · exact hret
  · rw [Block.extent] at hlink
    omega

theorem findPrev_eq {fuel : Nat} {p : Block}
    (h : Layout (view M x) a (pre ++ p :: b :: post))
    (hm : Mapped M x a (a + span (pre ++ p :: b :: post))) (ha : a ≠ 0) (hfuel : pre.length < fuel) :
    findPrev M x (a + span pre + p.extent) fuel a = some (a + span pre) := by
  induction pre generalizing a fuel with
  | nil =>
      obtain ⟨fuel, rfl⟩ : ∃ k, fuel = k + 1 := ⟨fuel - 1, by omega⟩
      simp only [List.nil_append, span_cons] at h hm
      have hnext := blockNext_eq h.1 (hm.mono (Nat.le_refl _) (by omega))
      simp [findPrev, ha, hnext, link]
  | cons c pre ih =>
      obtain ⟨fuel, rfl⟩ : ∃ k, fuel = k + 1 := ⟨fuel - 1, by omega⟩
      rw [List.cons_append] at h hm
      simp only [span_cons, List.length_cons] at hm hfuel
      have hnext := blockNext_eq h.1 (hm.mono (Nat.le_refl _) (by omega))
      have hext : a + c.extent = a + (24 + c.size) := rfl
      have hpext : p.extent = 24 + p.size := rfl
      have hne : a + c.extent ≠ a + span (c :: pre) + p.extent := by
        rw [span_cons]
        omega
      have hrest := ih h.2 (hm.mono (by omega) (by omega)) (by omega) (by omega : pre.length < fuel)
      have haddr : a + span (c :: pre) = a + c.extent + span pre := by
        rw [span_cons]
        omega
      rw [link_append] at hnext
      simp only [findPrev, if_neg ha, hnext, Option.bind_eq_bind, Option.bind_some, if_neg hne]
      rw [haddr]
      exact hrest

end Kaviz.Heap
