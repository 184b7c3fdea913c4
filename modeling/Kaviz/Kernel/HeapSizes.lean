import Kaviz.Heap.Reuse
import Kaviz.Kernel.HeapFailure

/-! # Requests of any size

`kmalloc` rounds the size, adds a header, rounds to pages and compares, each time in
64 bits. Up to `sizeLimit` nothing wraps. Beyond it the request may shrink to
nothing, or be given no page at all, and a block comes back that is far too small;
such a request ends well only when the page it still asks for cannot be mapped.
-/

namespace Kaviz.Kernel

open Bytes Memory Paging Heap Relation

/-! ## Sums that wrap -/

section Sizes

variable {size : Nat}

/-- Beyond the limit at most one page is asked for. -/
theorem pagesNeeded_wrapped (hlo : sizeLimit < size) (hhi : size < 2 ^ 64) :
    pagesNeeded (roundSize size) = if 2 ^ 64 - 24 < size then 1 else 0 := by
  unfold sizeLimit at hlo
  unfold pagesNeeded roundSize
  split <;> omega

/-- Only the last three sizes are rounded to zero. -/
theorem roundSize_large (hlo : sizeLimit < size) (hhi : size < 2 ^ 64) :
    (size ≤ 2 ^ 64 - 4 → size ≤ roundSize size) ∧ (2 ^ 64 - 4 < size → roundSize size = 0) := by
  unfold sizeLimit at hlo
  unfold roundSize
  omega

end Sizes

/-! ## Mapping loops on equal tables -/

section Loops

variable {τ : Type} {P : Mapper τ} {junk : FlatState τ → Nat → Mem} {s s' : MemState (FlatState τ)}

/-- What a mapping attempt does to the tables depends on the tables and the frame counter. -/
theorem mapFresh_congr (P : Mapper τ) (junk : FlatState τ → Nat → Mem) (htables : s'.mach.tables = s.mach.tables)
    (hnext : s'.nextFreePage = s.nextFreePage) (v f : Nat) :
    (s'.mapFresh (flat P junk) v f).1 = (s.mapFresh (flat P junk) v f).1 ∧
      (s'.mapFresh (flat P junk) v f).2.mach.tables =
        (s.mapFresh (flat P junk) v f).2.mach.tables ∧
      (s'.mapFresh (flat P junk) v f).2.nextFreePage =
        (s.mapFresh (flat P junk) v f).2.nextFreePage := by
  simp only [MemState.mapFresh, MemState.allocPhysicalPage, hnext]
  by_cases hnull : pageAlign ((s.nextFreePage + 4096 - 1) % 2 ^ 64) = 0
  · simp only [hnull, if_true, htables, and_self]
  · simp only [hnull, if_false, MemState.mapPage, flat, htables, and_self]
    exact ⟨rfl, trivial⟩

theorem mapPages_congr {f base base' i i' n : Nat} (htables : s'.mach.tables = s.mach.tables)
    (hnext : s'.nextFreePage = s.nextFreePage) (haddr : base' + 4096 * i' = base + 4096 * i) :
    (s'.mapPages (flat P junk) f base' i' n).1 = (s.mapPages (flat P junk) f base i n).1 := by
  induction n generalizing s s' i i' with
  | zero => rfl
  | succ n ih =>
      have hone := mapFresh_congr P junk htables hnext ((base + 4096 * i) % 2 ^ 64) f
      rw [MemState.mapPages, MemState.mapPages, haddr]
      generalize s'.mapFresh (flat P junk) ((base + 4096 * i) % 2 ^ 64) f = r' at *
      generalize s.mapFresh (flat P junk) ((base + 4096 * i) % 2 ^ 64) f = r at *
      obtain ⟨done, t⟩ := r
      obtain ⟨done', t'⟩ := r'
      obtain ⟨hdone, htables₁, hnext₁⟩ := hone
      dsimp only at hdone htables₁ hnext₁
      subst hdone
      cases done' with
      | false => rfl
      | true => exact ih htables₁ hnext₁ (by omega)

theorem stored_flat (h : Stored (flat P junk) s s') :
    s'.mach.tables = s.mach.tables ∧ s'.nextFreePage = s.nextFreePage := by
  have hvars := h.vars
  refine ⟨?_, by rw [hvars]⟩
  induction h with
  | refl => rfl
  | store hbefore hs ih => exact (store8_flat hs).1.trans (ih hbefore.vars)

/-- Once the heap is created, extending it goes on where the creation stopped. -/
theorem extension_follows {s₁ : MemState (FlatState τ)} (hfirst : s.heapFirstBlock = 0)
    (hstart : s.heapStart ≠ 0) (hinit : initHeap (flat P junk) s = some (true, s₁))
    (hrun : (s.mapPages (flat P junk) heapFlags s.heapStart 0 1024).1 = true)
    (hend : s₁.heapEnd = s.heapStart + 4096 * 1024) (k : Nat) :
    (s.mapPages (flat P junk) heapFlags s.heapStart 0 (1024 + k)).1 =
      (s₁.mapPages (flat P junk) heapFlags s₁.heapEnd 0 k).1 := by
  rcases initHeap_cases hinit with rfl | ⟨-, first, last, -, hstored⟩
  · exact absurd hfirst (initHeap_first hinit hstart)
  · obtain ⟨htables, hnext⟩ := stored_flat hstored
    rw [mapPages_add]
    cases hloop : s.mapPages (flat P junk) heapFlags s.heapStart 0 1024 with
    | mk done s₀ =>
        rw [hloop] at hrun htables hnext
        obtain rfl : done = true := hrun
        have haddr : s₁.heapEnd + 4096 * 0 = s.heapStart + 4096 * (0 + 1024) := by omega
        dsimp only at htables hnext ⊢
        exact (mapPages_congr htables hnext haddr).symm

end Loops

/-! ## Requests that are served -/

section Served

variable {σ : Type}

/-- A used block of at least `size` bytes at `p`, inside a heap that blocks tile. -/
structure HandsOut (s : MemState σ) (l : List (Nat × Block)) (p size : Nat) : Prop where
  block : ∃ q b, p = q + 24 ∧ (q, b) ∈ l ∧ b.free = false ∧ size ≤ b.size ∧ s.heapStart ≤ q ∧
    p + b.size ≤ s.heapEnd
  tiled : ∃ bs, l = placed s.heapStart bs ∧ s.heapStart + span bs = s.heapEnd

/-- `kmalloc` returns `NULL` and leaves the block list alone, or hands out a block. -/
def Served (M : Machine σ) (s : MemState σ) (size : Nat) : Prop :=
  ∃ p s' l l', kmalloc M s size = some (p, s') ∧ blockList M s = some l ∧
    blockList M s' = some l' ∧ ((p = 0 ∧ l' = l) ∨ HandsOut s' l' p size)

/-- When that is so. On a created heap the sums must not wrap, or the page a wrapped request
asks for cannot be mapped; a request that wraps to nothing must find no free block either.
The request that creates the heap must fit into it or into the extension, unless the
creation fails. -/
def Servable (M : Machine σ) (s : MemState σ) (size : Nat) : Prop :=
  if s.heapFirstBlock = 0 then
    (s.mapPages M heapFlags s.heapStart 0 1024).1 = false ∨
      (size ≤ sizeLimit ∧ (roundSize size ≤ 4 * 1024 * 1024 - 24 ∨
        (s.mapPages M heapFlags s.heapStart 0 (1024 + pagesNeeded (roundSize size))).1 = true))
  else
    size ≤ sizeLimit ∨ (2 ^ 64 - 24 < size ∧ (s.mapPages M heapFlags s.heapEnd 0 1).1 = false ∧
      (size ≤ 2 ^ 64 - 4 ∨ ∀ l, blockList M s = some l → ∀ x ∈ l, x.2.free = false))

variable {M : Machine σ} {L : Lawful M} {s s' : MemState σ} {bs bs' : List Block} {size p : Nat}

theorem servable_uncreated (hfirst : s.heapFirstBlock = 0) (hstart : s.heapStart = kernelBase) :
    Servable M s size ↔ (s.mapPages M heapFlags kernelBase 0 1024).1 = false ∨
      (size ≤ sizeLimit ∧ (roundSize size ≤ 4 * 1024 * 1024 - 24 ∨
        (s.mapPages M heapFlags kernelBase 0 (1024 + pagesNeeded (roundSize size))).1 = true)) := by
  rw [Servable, if_pos hfirst, hstart]

theorem Grown.bounds {base n : Nat} (h : Grown M s base n s') (hend : s.heapEnd < 2 ^ 64) :
    s'.heapStart = s.heapStart ∧ s'.heapEnd < 2 ^ 64 := by
  obtain ⟨hstart, hcase⟩ := h.vars
  refine ⟨hstart, ?_⟩
  rcases hcase with heq | ⟨-, heq⟩
  · rw [heq]
    exact hend
  · rw [heq]
    exact Nat.mod_lt _ (by decide)

theorem kmalloc_bounds (hret : kmalloc M s size = some (p, s')) (hend : s.heapEnd < 2 ^ 64) :
    s'.heapStart = s.heapStart ∧ s'.heapEnd < 2 ^ 64 := by
  obtain ⟨s₁, s₂, hinit, hext, hstored⟩ := kmalloc_cases hret
  have h₁ : s₁.heapStart = s.heapStart ∧ s₁.heapEnd < 2 ^ 64 := by
    rcases hinit with rfl | ⟨-, hgrown⟩
    · exact ⟨rfl, hend⟩
    · exact hgrown.bounds hend
  have h₂ : s₂.heapStart = s₁.heapStart ∧ s₂.heapEnd < 2 ^ 64 := by
    rcases hext with rfl | ⟨-, hgrown⟩
    · exact ⟨rfl, h₁.2⟩
    · exact hgrown.bounds h₁.2
  rw [hstored.vars]
  exact ⟨h₂.1.trans h₁.1, h₂.2⟩

theorem heapEnd_lt (h : Represents L s bs) : s.heapEnd < 2 ^ 64 :=
  Nat.lt_of_le_of_lt h.below (by decide)

/-- No address space holds a block larger than the limit above the start of the heap. -/
theorem handsOut_small {l : List (Nat × Block)} (h : Represents L s bs)
    (hret : kmalloc M s size = some (p, s')) (hout : HandsOut s' l p size) : size ≤ sizeLimit := by
  obtain ⟨hstart, hend⟩ := kmalloc_bounds hret (heapEnd_lt h)
  obtain ⟨q, b, rfl, -, -, hsize, hlo, hhi⟩ := hout.block
  have hbase : kernelBase = 2 ^ 64 - 2 ^ 47 := by decide
  rw [hstart, h.start] at hlo
  unfold sizeLimit
  omega

theorem served_null (h : Represents L s bs) (h' : Represents L s' bs)
    (hret : kmalloc M s size = some (0, s')) : Served M s size :=
  ⟨0, s', _, _, hret, h.blockList_eq, h'.blockList_eq, Or.inl ⟨rfl, rfl⟩⟩

theorem served_allocates (h : Represents L s bs) (h' : Represents L s' bs')
    (halloc : Allocates (roundSize size) (opened bs) bs' p) (hsize : size ≤ sizeLimit)
    (hret : kmalloc M s size = some (p, s')) : Served M s size := by
  have hround := (roundSize_spec hsize).1
  have hend := h'.end_eq
  obtain ⟨u, v, cap, -, hused, hcap⟩ := halloc.used_eq
  have hmem : (p, cap) ∈ used kernelBase bs' := by simp [hused]
  obtain ⟨q, b, hplaced, hb, rfl, rfl⟩ := mem_used.mp hmem
  have hbounds := placed_bounds hplaced
  refine ⟨_, s', _, _, hret, h.blockList_eq, h'.blockList_eq, Or.inr ⟨?_, ?_⟩⟩
  · exact ⟨q, b, rfl, hplaced, hb, by omega, by rw [h'.start]; exact hbounds.1, by omega⟩
  · exact ⟨bs', by rw [h'.start], by rw [h'.start, h'.end_eq]⟩

theorem capacity_le (h : Represents L s bs) {x : Nat × Block}
    (hx : x ∈ placed kernelBase bs) : x.2.size ≤ sizeLimit := by
  have hbounds := placed_bounds hx
  have hend := h.end_eq
  have hlt := heapEnd_lt h
  have hbase : kernelBase = 2 ^ 64 - 2 ^ 47 := by decide
  unfold sizeLimit
  omega

/-- A servable request beyond the limit is refused. -/
theorem refused_of_servable (h : Represents L s bs) (hfr : FramesOk L s)
    (hstop : StopsAt L kernelBase (heapLimit + 1)) (hlo : sizeLimit < size) (hhi : size < 2 ^ 64)
    (hok : Servable M s size) : ∃ s', kmalloc M s size = some (0, s') ∧ Represents L s' bs ∧
      s'.nextFreePage % 4096 = 0 ∧ s'.nextFreePage < 2 ^ 64 := by
  unfold Servable at hok
  split at hok
  next hfirst =>
    obtain rfl : bs = [] := by
      by_contra hbs
      exact h.first_ne_zero hbs hfirst
    have hrun := hok.resolve_right fun hle => absurd hle.1 (Nat.not_le.mpr hlo)
    rw [h.start] at hrun
    obtain ⟨hinit, hrep, hal, hbd, -⟩ := initHeap_failed h hfr (Prod.ext hrun rfl)
    exact ⟨_, kmalloc_uncreated hinit, hrep, hal, hbd⟩
  next hfirst =>
    have hbs : bs ≠ [] := by
      rintro rfl
      exact hfirst h.first
    obtain ⟨hlast, hrun, hcase⟩ := hok.resolve_left (Nat.not_le.mpr hlo)
    have hpages := pagesNeeded_wrapped hlo hhi
    rw [if_pos hlast] at hpages
    rw [← hpages] at hrun
    have hbest : bestFit (roundSize size) (placed kernelBase bs) = none := by
      refine bestFit_none fun x hx hfit => ?_
      rcases hcase with hle | hfree
      · have hcap := capacity_le h hx
        have hround := (roundSize_large hlo hhi).1 hle
        have hfits := hfit.2
        omega
      · exact absurd hfit.1 (Bool.eq_false_iff.mp (hfree _ h.blockList_eq x hx))
    obtain ⟨-, hrep, hal, hbd, -⟩ := extendHeap_failed h hfr hstop (Prod.ext hrun rfl)
    exact ⟨_, kmalloc_refused h hbs hbest (Prod.ext hrun rfl), hrep, hal, hbd⟩

/-- On a created heap a request is served when it is servable, and only then. -/
theorem served_created_iff (h : Represents L s bs) (hbs : bs ≠ []) (hfr : FramesOk L s)
    (hstop : StopsAt L kernelBase (heapLimit + 1)) (hhi : size < 2 ^ 64) :
    Served M s size ↔ Servable M s size := by
  by_cases hsize : size ≤ sizeLimit
  · refine iff_of_true ?_ ?_
    · obtain ⟨p, s', hret, -, -, -, ⟨rfl, -⟩ | ⟨-, bs', halloc, hrep⟩⟩ := kmalloc_spec h hfr hstop hsize
      · exact served_null h (kmalloc_failed_created h hbs hfr hstop hret).1 hret
      · exact served_allocates h hrep halloc hsize hret
    · rw [Servable, if_neg (h.first_ne_zero hbs)]
      exact Or.inl hsize
  · have hlo := Nat.not_le.mp hsize
    constructor
    · rintro ⟨p, s', l, l', hret, -, -, ⟨rfl, -⟩ | hout⟩
      · obtain ⟨hbest, hrun⟩ := kmalloc_null_created h hbs hret
        rw [pagesNeeded_wrapped hlo hhi] at hrun
        rw [Servable, if_neg (h.first_ne_zero hbs)]
        split at hrun
        next hlast =>
          refine Or.inr ⟨hlast, by rw [hrun], ?_⟩
          by_cases hround : size ≤ 2 ^ 64 - 4
          · exact Or.inl hround
          · refine Or.inr fun l hl x hx => ?_
            have hnone := bestFit_isBestFit (roundSize size) (placed kernelBase bs)
            rw [hbest, (roundSize_large hlo hhi).2 (Nat.not_le.mp hround)] at hnone
            cases h.blockList_eq.symm.trans hl
            exact Bool.eq_false_iff.mpr fun hfree => hnone x hx ⟨hfree, Nat.zero_le _⟩
        next => cases hrun
      · exact absurd (handsOut_small h hret hout) hsize
    · intro hok
      obtain ⟨s', hret, hrep, -⟩ := refused_of_servable h hfr hstop hlo hhi hok
      exact served_null h hrep hret

end Served

section FirstRequest

variable {τ : Type} {P : Mapper τ} {junk : FlatState τ → Nat → Mem} {L : Lawful (flat P junk)}
variable {s : MemState (FlatState τ)} {size : Nat}

/-- The request that creates the heap is served when it is servable, and only then. -/
theorem served_uncreated_iff (h : Represents L s []) (hfr : FramesOk L s)
    (hstop : StopsAt L kernelBase (heapLimit + 1)) :
    Served (flat P junk) s size ↔ Servable (flat P junk) s size := by
  have hfirst : s.heapFirstBlock = 0 := h.first
  rw [servable_uncreated hfirst h.start]
  cases hrun : s.mapPages (flat P junk) heapFlags kernelBase 0 1024 with
  | mk done s₀ =>
    cases done with
    | false =>
        obtain ⟨hinit, hrep, -⟩ := initHeap_failed h hfr hrun
        exact iff_of_true (served_null h hrep (kmalloc_uncreated hinit)) (Or.inl rfl)
    | true =>
        obtain ⟨s₁, hinit, hrep, hfr₁, -⟩ := initHeap_mapped h hfr hrun
        have hopened := opened_ne_nil []
        have hsame : kmalloc (flat P junk) s size = kmalloc (flat P junk) s₁ size :=
          kmalloc_opened hinit (hrep.first_ne_zero hopened)
        have hend : s₁.heapEnd = s.heapStart + 4096 * 1024 := by
          rw [hrep.end_eq, span_opened_nil, h.start]
        have hloop : (s.mapPages (flat P junk) heapFlags s.heapStart 0 1024).1 = true := by
          rw [h.start, hrun]
        have hbase : s.heapStart ≠ 0 := by
          rw [h.start]
          decide
        have hext := extension_follows hfirst hbase hinit hloop hend (pagesNeeded (roundSize size))
        rw [h.start] at hext
        rw [hext]
        constructor
        · rintro ⟨p, s', l, l', hret, hl, hl', ⟨rfl, rfl⟩ | hout⟩
          · rw [hsame] at hret
            obtain ⟨hrep', -⟩ := kmalloc_failed_created hrep hopened hfr₁ hstop hret
            have hnil := h.blockList_eq.symm.trans (hl.trans (hl'.symm.trans hrep'.blockList_eq))
            rw [opened_nil] at hnil
            cases hnil
          · refine Or.inr ⟨handsOut_small h hret hout, or_iff_not_imp_left.mpr fun hlarge => ?_⟩
            by_contra hfail
            have hbest : bestFit (roundSize size) (placed kernelBase (opened [])) = none := by
              refine bestFit_none fun x hx hfit => hlarge ?_
              rw [opened_nil] at hx
              rw [List.mem_singleton.mp hx] at hfit
              exact hfit.2
            have hnull := kmalloc_refused hrep hopened hbest (Prod.ext (Bool.eq_false_iff.mpr hfail) rfl)
            rw [hsame] at hret
            obtain ⟨hzero, -⟩ := Prod.mk.inj (Option.some.inj (hret.symm.trans hnull))
            obtain ⟨q, b, hq, -⟩ := hout.block
            omega
        · rintro (hno | ⟨hsize, hroom⟩)
          · cases hno
          · obtain ⟨p, s', hret, -, -, -, ⟨rfl, -⟩ | ⟨-, bs', halloc, hrep'⟩⟩ :=
              kmalloc_spec h hfr hstop hsize
            · exfalso
              rw [hsame] at hret
              obtain ⟨hbest, hfail⟩ := kmalloc_null_created hrep hopened hret
              rcases hroom with hfits | hdone
              · have hnone := bestFit_isBestFit (roundSize size) (placed kernelBase (opened []))
                rw [hbest, opened_nil] at hnone
                exact hnone _ (List.mem_singleton.mpr rfl) ⟨rfl, hfits⟩
              · rw [hfail] at hdone
                cases hdone
            · exact served_allocates h hrep' halloc hsize hret

end FirstRequest

/-! ## Runs with requests of any size -/

/-- Steps of clients that may also make servable requests beyond `2 ^ 63`. -/
inductive SizedStep {σ : Type} (M : Machine σ) (c : Client σ) : Client σ → Prop
  | call {c' : Client σ} (h : ClientStep M c c') : SizedStep M c c'
  | kmalloc {size p : Nat} {s : MemState σ} (hsize : size < 2 ^ 64) (hok : Servable M c.mem size)
      (hret : kmalloc M c.mem size = some (p, s)) :
      SizedStep M c ⟨s, if p = 0 then c.live else (p, size) :: c.live⟩

section Runs

variable {σ : Type} {M : Machine σ} {L : Lawful M} (hfresh : ∀ s p, L.Fresh s p)
variable (hstop : StopsAt L kernelBase (heapLimit + 1)) {c c' : Client σ} {bs : List Block}

include hfresh hstop

theorem sizedStep_inv (h : ClientInv L c bs) (hstep : SizedStep M c c') :
    ∃ bs', ClientInv L c' bs' := by
  cases hstep with
  | call hstep =>
      obtain ⟨bs', -, hinv⟩ := h.step hfresh hstop hstep
      exact ⟨bs', hinv⟩
  | @kmalloc size p s hsize hok hret =>
      by_cases hle : size ≤ sizeLimit
      · obtain ⟨p', s', hret', -, bs', -, hinv⟩ := h.kmalloc hfresh hstop hle
        cases hret.symm.trans hret'
        exact ⟨bs', hinv⟩
      · obtain ⟨s', hret', hrep, hal, hbd⟩ :=
          refused_of_servable h.heap h.frames hstop (Nat.not_le.mp hle) hsize hok
        cases hret.symm.trans hret'
        exact ⟨bs, hrep, ⟨hal, hbd, fun _ p _ _ _ => hfresh _ p⟩, h.separated, by simpa using h.live⟩

theorem sizedRun_inv (h : ClientInv L c bs) (hrun : ReflTransGen (SizedStep M) c c') :
    ∃ bs', ClientInv L c' bs' := by
  induction hrun with
  | refl => exact ⟨bs, h⟩
  | tail _ hstep ih =>
      obtain ⟨bs', hinv⟩ := ih
      exact sizedStep_inv hfresh hstop hinv hstep

end Runs

/-- The clients got here from boot, with requests of any size among those that are servable. -/
def SizedReached (junk : FlatState PageTables → Nat → Mem) (c : Client (FlatState PageTables)) :
    Prop :=
  ∃ s, Unused s ∧ s.mach.tables.WellFormed ∧ s.mach.tables.FromPool UpperHalf ∧
    ReflTransGen (SizedStep (flat tableMapper junk)) ⟨s, []⟩ c

/-- In every state of such a run, a request of any size either returns `NULL` with the block
list unchanged or hands out a block that holds it, exactly when it is servable. -/
theorem kmalloc_served_iff (junk : FlatState PageTables → Nat → Mem)
    (c : Client (FlatState PageTables)) (hc : SizedReached junk c) (size : Nat)
    (hsize : size < 2 ^ 64) : Served (flat tableMapper junk) c.mem size ↔
      Servable (flat tableMapper junk) c.mem size := by
  obtain ⟨s, hs, hwf, hpool, hrun⟩ := hc
  have hok : kernelTables_lawful.Ok s.mach.tables := ⟨hwf, hpool⟩
  have hstart := clientInv_unused junk hok hs
  obtain ⟨bs, hinv⟩ := sizedRun_inv (fun _ _ => trivial) (flat_stops junk) hstart hrun
  by_cases hbs : bs = []
  · subst hbs
    exact served_uncreated_iff hinv.heap hinv.frames (flat_stops junk)
  · exact served_created_iff hinv.heap hbs hinv.frames (flat_stops junk) hsize

theorem kmalloc_served_boot : Served (flat tableMapper fun _ _ _ => 0) (MemState.initVmm bootFlat)
    100 := by
  have hreached : SizedReached (fun _ _ _ => 0) ⟨MemState.initVmm bootFlat, []⟩ :=
    ⟨_, unused_initVmm bootFlat, emptyTree_wellFormed, emptyTree_fromPool, .refl⟩
  have hround : roundSize 100 ≤ 4 * 1024 * 1024 - 24 := by decide
  have hunused := unused_initVmm bootFlat
  exact (kmalloc_served_iff _ _ hreached 100 (by decide)).mpr
    ((servable_uncreated hunused.first hunused.start).mpr
      (Or.inr ⟨le_sizeLimit (by decide), Or.inl hround⟩))

/-- At boot a request for `2 ^ 64 - 1` bytes is rounded to none, and an empty block is handed
out. -/
theorem kmalloc_wraps : Reached (fun _ _ _ => 0) ⟨MemState.initVmm bootFlat, []⟩ ∧
    (∃ s, kmalloc (flat tableMapper fun _ _ _ => 0) (MemState.initVmm bootFlat) (2 ^ 64 - 1) =
      some (kernelBase + 24, s)) ∧
    ¬ Served (flat tableMapper fun _ _ _ => 0) (MemState.initVmm bootFlat) (2 ^ 64 - 1) := by
  have hround : roundSize (2 ^ 64 - 1) ≤ 4 * 1024 * 1024 - 24 := by decide
  have hreached := boot_start fun _ _ _ => 0
  refine ⟨hreached, first_kmalloc (unused_initVmm bootFlat) emptyTree_wellFormed emptyTree_fromPool
    (by decide) (by decide) (by decide) hround, ?_⟩
  obtain ⟨bs, hinv, -⟩ := hreached.inv
  obtain rfl : bs = [] := by
    by_contra hbs
    exact hinv.heap.first_ne_zero hbs rfl
  have hloop := boot_heap_supplied fun _ _ _ => 0
  have hunused := unused_initVmm bootFlat
  intro hserved
  have hservable := (served_uncreated_iff hinv.heap hinv.frames (flat_stops _)).mp hserved
  rcases (servable_uncreated hunused.first hunused.start).mp hservable with hno | ⟨hsize, -⟩
  · exact absurd (hno.symm.trans hloop) (by decide)
  · exact absurd hsize (by decide)

end Kaviz.Kernel
