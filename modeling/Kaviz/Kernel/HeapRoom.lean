import Kaviz.Kernel.HeapSizes

/-! # Room of a block

How many bytes a caller of `kmalloc` may use, from the arithmetic of the request
alone, and what an intact heap really hands out.
-/

namespace Kaviz.Kernel

open Memory Heap

/-- The room `kmalloc` makes for a request: the rounded size, as far as the pages it maps
for it reach. -/
def capacity (size : Nat) : Nat :=
  min (roundSize size) (4096 * pagesNeeded (roundSize size) - 24)

variable {σ : Type} {M : Machine σ} {L : Lawful M} {s s' : MemState σ} {bs : List Block} {size p n : Nat}

/-- Up to the limit there is room for the whole request. -/
theorem le_capacity (hsize : size ≤ sizeLimit) : size ≤ capacity size := by
  obtain ⟨hle, hround, -⟩ := roundSize_spec hsize
  have hpages := pagesNeeded_spec hround
  unfold capacity
  omega

/-- Beyond it the sums have wrapped. -/
theorem capacity_le_page (hlo : sizeLimit < size) (hhi : size < 2 ^ 64) : capacity size ≤ 4072 := by
  unfold capacity
  rw [pagesNeeded_wrapped hlo hhi]
  split <;> omega

/-- The 32-bit count of a request fits exactly if the request is within the limit. -/
theorem count_le_capacity_iff (hhi : size < 2 ^ 64) :
    size % 2 ^ 32 ≤ capacity size ↔ size ≤ sizeLimit := by
  constructor
  · intro hfit
    by_contra hlo
    have hpage := capacity_le_page (Nat.not_le.mp hlo) hhi
    unfold sizeLimit at hlo
    omega
  · intro hsize
    exact (Nat.mod_le _ _).trans (le_capacity hsize)

/-- On an intact heap the block handed out has room for the request. -/
theorem kmalloc_room (h : Represents L s bs) (hfr : FramesOk L s)
    (hstop : StopsAt L kernelBase (heapLimit + 1)) (hsize : size ≤ sizeLimit)
    (hret : kmalloc M s size = some (p, s')) (hp : p ≠ 0) :
    ∃ l, blockList M s' = some l ∧ HandsOut s' l p size := by
  obtain ⟨p₁, s₁, hret₁, -, -, -, ⟨rfl, -⟩ | ⟨-, bs', halloc, hrep⟩⟩ := kmalloc_spec h hfr hstop hsize
  · cases hret.symm.trans hret₁
    exact absurd rfl hp
  · obtain ⟨p₂, s₂, l, l', hret₂, -, hl', ⟨rfl, -⟩ | hout⟩ :=
      served_allocates h hrep halloc hsize hret₁
    · cases hret.symm.trans hret₂
      exact absurd rfl hp
    · cases hret.symm.trans hret₂
      exact ⟨l', hl', hout⟩

theorem handsOut_ne_zero {l : List (Nat × Block)} (h : HandsOut s l p n) : p ≠ 0 := by
  obtain ⟨q, b, hq, -⟩ := h.block
  omega

theorem take_head (b : Block) (n : Nat) :
    ∃ c rest, b.take n = c :: rest ∧ c.size ≤ n + 40 := by
  unfold Block.take
  split
  next hwhole => exact ⟨_, _, rfl, by simpa using hwhole⟩
  next => exact ⟨_, _, rfl, Nat.le_add_right _ _⟩

/-- A block is at most 40 bytes larger than the best fit was asked to be. -/
theorem allocates_room {bs' : List Block} (hrep : Represents L s' bs')
    (halloc : Allocates size bs bs' p) {l : List (Nat × Block)}
    (hl : blockList M s' = some l) (hout : HandsOut s' l p n) : n ≤ size + 40 := by
  obtain ⟨pre, b, post, -, -, hp, rfl, -⟩ := halloc
  obtain ⟨c, rest, htake, hc⟩ := take_head b size
  obtain ⟨q, b', hq, hmem, -, hn, -⟩ := hout.block
  cases hrep.blockList_eq.symm.trans hl
  have hcmem : (q, c) ∈ placed kernelBase (pre ++ (b.take size ++ post)) := by
    have hqeq : q = kernelBase + span pre := by omega
    rw [hqeq, htake, placed_append]
    simp [placed]
  rcases placed_apart hmem hcmem with ⟨-, rfl⟩ | hlt | hlt
  · omega
  · omega
  · omega

theorem kmalloc_congr {size' : Nat} (h : roundSize size = roundSize size') :
    kmalloc M s size = kmalloc M s size' := by
  unfold kmalloc
  rw [h]

theorem extendHeap_block {block : Nat} (h : extendHeap M s n = some (some block, s')) :
    block = s.heapEnd := by
  unfold extendHeap at h
  have hvars := mapPages_vars (M := M) s heapFlags s.heapEnd 0 (pagesNeeded n)
  cases hrun : s.mapPages M heapFlags s.heapEnd 0 (pagesNeeded n) with
  | mk done s₁ =>
      rw [hrun] at h hvars
      cases done with
      | false => cases h
      | true =>
          obtain ⟨s₂, -, h⟩ := Option.bind_eq_some_iff.mp h
          obtain ⟨last, -, h⟩ := Option.bind_eq_some_iff.mp h
          obtain ⟨s₃, -, h⟩ := Option.bind_eq_some_iff.mp h
          cases h
          dsimp only at hvars
          rw [hvars]

/-- A block from an extension ends with the heap. -/
theorem kmalloc_extended_room (h : Represents L s bs) (hbs : bs ≠ [])
    (hbest : bestFit (roundSize size) (placed kernelBase bs) = none)
    (hret : kmalloc M s size = some (p, s')) {l : List (Nat × Block)} (hout : HandsOut s' l p n) :
    n + 24 ≤ 4096 * pagesNeeded (roundSize size) := by
  rw [kmalloc_missed h hbs hbest] at hret
  obtain ⟨⟨block, s₁⟩, hext, hret⟩ := Option.bind_eq_some_iff.mp hret
  cases block with
  | none =>
      cases hret
      exact absurd rfl (handsOut_ne_zero hout)
  | some block =>
      have hp := takeBlock_ptr hret
      have hblock := extendHeap_block hext
      have hlast : s'.heapEnd = s₁.heapEnd := by rw [(stored_takeBlock hret).vars]
      obtain ⟨q, b, hq, -, -, hn, -, hend⟩ := hout.block
      obtain ⟨-, hsame | ⟨-, hgrown⟩⟩ := (extendHeap_grown hext).vars
      · omega
      · have hmod := Nat.mod_le (s.heapEnd + 4096 * pagesNeeded (roundSize size)) (2 ^ 64)
        omega

/-- Beyond the limit no block handed out has room for a page. -/
theorem kmalloc_cramped (h : Represents L s bs) (hfr : FramesOk L s)
    (hstop : StopsAt L kernelBase (heapLimit + 1)) (hlo : sizeLimit < size) (hhi : size < 2 ^ 64)
    (hret : kmalloc M s size = some (p, s')) {l : List (Nat × Block)}
    (hl : blockList M s' = some l) (hout : HandsOut s' l p n) : n ≤ 4072 := by
  by_cases hzero : 2 ^ 64 - 4 < size
  · have hround : roundSize size = roundSize 0 := (roundSize_large hlo hhi).2 hzero
    rw [kmalloc_congr hround] at hret
    obtain ⟨p₁, s₁, hret₁, -, -, -, ⟨rfl, -⟩ | ⟨-, bs', halloc, hrep⟩⟩ :=
      kmalloc_spec h hfr hstop (Nat.zero_le sizeLimit)
    · cases hret.symm.trans hret₁
      exact absurd rfl (handsOut_ne_zero hout)
    · cases hret.symm.trans hret₁
      exact (allocates_room hrep halloc hl hout).trans (by decide)
  · have hlarge := (roundSize_large hlo hhi).1 (Nat.not_lt.mp hzero)
    obtain ⟨done, s₁, hinit, -, -, -, -, hdone⟩ := initHeap_spec h hfr
    cases done with
    | false =>
        cases hret.symm.trans (kmalloc_uncreated hinit)
        exact absurd rfl (handsOut_ne_zero hout)
    | true =>
        obtain ⟨hrep, -⟩ := hdone rfl
        have hopened := opened_ne_nil bs
        rw [kmalloc_opened hinit (hrep.first_ne_zero hopened)] at hret
        have hbest : bestFit (roundSize size) (placed kernelBase (opened bs)) = none := by
          refine bestFit_none fun x hx hfit => ?_
          have hcap := capacity_le hrep hx
          have hfits := hfit.2
          omega
        have hroom := kmalloc_extended_room hrep hopened hbest hret hout
        rw [pagesNeeded_wrapped hlo hhi] at hroom
        split at hroom <;> omega

/-- On an intact heap the arithmetic decides whether a block holds the 32-bit count of the
request it was made for. -/
theorem holds_count_iff (h : Represents L s bs) (hfr : FramesOk L s)
    (hstop : StopsAt L kernelBase (heapLimit + 1)) (hhi : size < 2 ^ 64)
    (hret : kmalloc M s size = some (p, s')) (hp : p ≠ 0) :
    (∃ l, blockList M s' = some l ∧ HandsOut s' l p (size % 2 ^ 32)) ↔
      size % 2 ^ 32 ≤ capacity size := by
  rw [count_le_capacity_iff hhi]
  constructor
  · rintro ⟨l, hl, hout⟩
    by_contra hlo
    have hpage := kmalloc_cramped h hfr hstop (Nat.not_le.mp hlo) hhi hret hl hout
    unfold sizeLimit at hlo
    omega
  · intro hsize
    obtain ⟨l, hl, hout⟩ := kmalloc_room h hfr hstop hsize hret hp
    obtain ⟨q, b, hq, hmem, hfree, hn, hlo, hend⟩ := hout.block
    exact ⟨l, hl, ⟨q, b, hq, hmem, hfree, (Nat.mod_le _ _).trans hn, hlo, hend⟩, hout.tiled⟩

theorem kmalloc_keeps (h : Represents L s bs) (hfr : FramesOk L s)
    (hstop : StopsAt L kernelBase (heapLimit + 1)) (hsize : size ≤ sizeLimit)
    (hret : kmalloc M s size = some (p, s')) {a : Nat}
    (hused : ∀ x, a ≤ x → x < a + n → PayloadByte bs x) :
    loadLE M s'.mach a n = loadLE M s.mach a n := by
  obtain ⟨p₁, s₁, hret₁, -, -, hkeep, -⟩ := kmalloc_spec h hfr hstop hsize
  cases hret.symm.trans hret₁
  induction n generalizing a with
  | zero => rfl
  | succ n ih =>
      have hbyte := hkeep.load_eq a (Or.inr (hused a (Nat.le_refl a) (by omega)))
      have hrest := ih (a := a + 1) fun x hlo hhi => hused x (by omega) (by omega)
      rw [loadLE, loadLE, hbyte, hrest]

end Kaviz.Kernel
