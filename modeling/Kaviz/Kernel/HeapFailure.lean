import Kaviz.Heap.Reachable
import Kaviz.Kernel.Growth

/-! # Requests that fail

`kmalloc` gives up when a page cannot be mapped, and what it has mapped by then
stays mapped. All of it lies behind the end of the heap, where the next attempt
will map it again, so that nobody notices. The creation of the heap is a step of
its own: it is not taken back when the extension after it fails.
-/

namespace Kaviz.Kernel

open Bytes Memory Paging Heap

/-! ## Translations and the calls that change them -/

section Translations

variable {τ : Type} {P : Mapper τ} {hP : P.Lawful} {junk : FlatState τ → Nat → Mem}
variable {s s' s'' : MemState (FlatState τ)}

theorem store8_flat {a : Nat} {b : UInt8} (h : s.store8 (flat P junk) a b = some s') :
    s'.mach.tables = s.mach.tables ∧ s'.trace = .store a :: s.trace := by
  obtain ⟨x, hx, rfl⟩ := Option.map_eq_some_iff.mp h
  obtain ⟨-, heq⟩ := Option.ite_none_right_eq_some.mp hx
  cases heq
  exact ⟨rfl, rfl⟩

/-- Every translation that differs was the target of a recorded `map_page` call. -/
structure Recorded (hP : P.Lawful) (s s' : MemState (FlatState τ)) : Prop where
  ok : hP.Ok s'.mach.tables
  trace : ∃ es, s'.trace = es ++ s.trace ∧ (∀ v p f r, .map v p f r ∈ es → v < 2 ^ 64) ∧
    ∀ n, (∀ v p f r, .map v p f r ∈ es → pageNumber v ≠ n) →
      P.translate s'.mach.tables n = P.translate s.mach.tables n

namespace Recorded

theorem refl (hok : hP.Ok s.mach.tables) : Recorded hP s s :=
  ⟨hok, [], rfl, by simp, fun _ _ => rfl⟩

theorem trans (h : Recorded hP s s') (h' : Recorded hP s' s'') : Recorded hP s s'' := by
  obtain ⟨es, htrace, haddr, htr⟩ := h.trace
  obtain ⟨es', htrace', haddr', htr'⟩ := h'.trace
  refine ⟨h'.ok, es' ++ es, by rw [htrace', htrace, List.append_assoc], fun v p f r he => ?_,
    fun n hn => ?_⟩
  · exact (List.mem_append.mp he).elim (haddr' v p f r) (haddr v p f r)
  · rw [htr' n fun v p f r he => hn v p f r (List.mem_append_left _ he),
      htr n fun v p f r he => hn v p f r (List.mem_append_right _ he)]

theorem of_eq (h : Recorded hP s s') (hmach : s''.mach = s'.mach) (htrace : s''.trace = s'.trace) :
    Recorded hP s s'' :=
  ⟨hmach ▸ h.ok, htrace ▸ hmach ▸ h.trace⟩

theorem stored (h : Recorded hP s s') (hs : Stored (flat P junk) s' s'') : Recorded hP s s'' := by
  induction hs with
  | refl => exact h
  | store _ hs ih =>
      obtain ⟨htables, htrace⟩ := store8_flat hs
      exact ih.trans ⟨htables ▸ ih.ok, [_], htrace, by simp, fun _ _ => by rw [htables]⟩

theorem mapFresh {v f : Nat} (h : Recorded hP s s') (hv : v < 2 ^ 64) (hf : f < 4096) :
    Recorded hP s (s'.mapFresh (flat P junk) v f).2 := by
  refine h.trans ?_
  have hmach := alloc_mach s'
  have htrace := alloc_trace s'
  have hbound := alloc_lt s'
  have hok := h.ok
  unfold MemState.mapFresh
  generalize s'.allocPhysicalPage = r at *
  by_cases hnull : r.1 = 0
  · simp only [hnull, if_true]
    exact (refl hok).of_eq hmach htrace
  · obtain ⟨hok', htr⟩ := hP.map_spec s'.mach.tables v r.1 f hok hbound hf
    simp only [hnull, if_false, MemState.mapPage, flat, hmach, htrace]
    refine ⟨hok', [_], rfl, fun v' p' f' r' he => ?_, fun n hn => ?_⟩
    · cases List.mem_singleton.mp he
      exact hv
    · have hne := hn v r.1 f _ (List.mem_singleton.mpr rfl)
      dsimp only
      rw [htr]
      split
      · rw [PageMap.update, if_neg (Ne.symm hne)]
      · rfl

theorem mapPages {f base i n : Nat} (h : Recorded hP s s') (hf : f < 4096) :
    Recorded hP s (s'.mapPages (flat P junk) f base i n).2 := by
  induction n generalizing s' i with
  | zero => exact h
  | succ n ih =>
      have hone : Recorded hP s (s'.mapFresh (flat P junk) ((base + 4096 * i) % 2 ^ 64) f).2 :=
        h.mapFresh (Nat.mod_lt _ (by decide)) hf
      rw [MemState.mapPages]
      cases hfresh : s'.mapFresh (flat P junk) ((base + 4096 * i) % 2 ^ 64) f with
      | mk done s₁ =>
          rw [hfresh] at hone
          cases done with
          | false => exact hone
          | true => exact ih hone

theorem grown {base n : Nat} (h : Recorded hP s s') (hs : Grown (flat P junk) s' base n s'') :
    Recorded hP s s'' := by
  obtain ⟨first, last, -, hstored⟩ := hs
  have hloop : Recorded hP s (s'.mapPages (flat P junk) heapFlags base 0 n).2 :=
    h.mapPages (by decide)
  have hvars : Recorded hP s { (s'.mapPages (flat P junk) heapFlags base 0 n).2 with
      heapFirstBlock := first, heapEnd := last } := hloop.of_eq rfl rfl
  exact hvars.stored hstored

theorem kmalloc {size r : Nat} (hok : hP.Ok s.mach.tables)
    (hs : kmalloc (flat P junk) s size = some (r, s')) : Recorded hP s s' := by
  obtain ⟨s₁, s₂, hinit, hext, hstored⟩ := kmalloc_cases hs
  have h₁ : Recorded hP s s₁ := by
    rcases hinit with rfl | ⟨-, hgrown⟩
    · exact refl hok
    · exact (refl hok).grown hgrown
  have h₂ : Recorded hP s s₂ := by
    rcases hext with rfl | ⟨-, hgrown⟩
    · exact h₁
    · exact h₁.grown hgrown
  exact h₂.stored hstored

/-- Where no recorded call went, the translation is as before. -/
theorem translate_eq (h : Recorded hP s s') {lo hi a : Nat} (hlo : kernelBase ≤ lo)
    (hunt : Untouched (flat P junk) s s' fun x => ¬ (lo ≤ x ∧ x < hi)) (ha : Canonical a)
    (hout : ¬ (lo ≤ a ∧ a < hi)) :
    P.translate s'.mach.tables (pageNumber a) = P.translate s.mach.tables (pageNumber a) := by
  obtain ⟨es, htrace, haddr, htr⟩ := h.trace
  obtain ⟨es', htrace', -, hmap⟩ := hunt.trace
  obtain rfl := List.append_cancel_right (htrace.symm.trans htrace')
  refine htr _ fun v p f r he hpage => ?_
  have hv : lo ≤ v ∧ v < hi := not_not.mp (hmap v p f r he v rfl)
  have hupper : kernelBase = 2 ^ 64 - 2 ^ 47 := by decide
  have hcanon : Canonical v := Or.inr ⟨by omega, haddr v p f r he⟩
  exact hmap v p f r he a (pageNumber_inj hcanon ha hpage).symm hout

end Recorded

end Translations

/-! ## How a request fails -/

section Failure

variable {σ : Type} {M : Machine σ} {L : Lawful M} {s s' : MemState σ} {bs : List Block} {size : Nat}

theorem opened_nil : opened [] = [⟨4 * 1024 * 1024 - 24, true⟩] := if_pos rfl

theorem span_opened_nil : span (opened []) = 4096 * 1024 := by simp [opened_nil]

theorem takeBlock_ptr {best n p : Nat} (h : takeBlock M s best n = some (p, s')) : p = best + 24 := by
  obtain ⟨bsize, -, h⟩ := Option.bind_eq_some_iff.mp h
  split at h
  · obtain ⟨s₁, -, h⟩ := Option.bind_eq_some_iff.mp h
    cases h
    rfl
  · obtain ⟨s₁, -, h⟩ := Option.bind_eq_some_iff.mp h
    obtain ⟨next, -, h⟩ := Option.bind_eq_some_iff.mp h
    obtain ⟨s₂, -, h⟩ := Option.bind_eq_some_iff.mp h
    obtain ⟨s₃, -, h⟩ := Option.bind_eq_some_iff.mp h
    obtain ⟨s₄, -, h⟩ := Option.bind_eq_some_iff.mp h
    obtain ⟨s₅, -, h⟩ := Option.bind_eq_some_iff.mp h
    obtain ⟨s₆, -, h⟩ := Option.bind_eq_some_iff.mp h
    cases h
    rfl

theorem extendHeap_none {n : Nat} (h : extendHeap M s n = some (none, s')) :
    s.mapPages M heapFlags s.heapEnd 0 (pagesNeeded n) = (false, s') := by
  unfold extendHeap at h
  cases hrun : s.mapPages M heapFlags s.heapEnd 0 (pagesNeeded n) with
  | mk done s₁ =>
      rw [hrun] at h
      cases done with
      | false =>
          cases h
          rfl
      | true =>
          obtain ⟨s₂, -, h⟩ := Option.bind_eq_some_iff.mp h
          obtain ⟨last, -, h⟩ := Option.bind_eq_some_iff.mp h
          obtain ⟨s₃, -, h⟩ := Option.bind_eq_some_iff.mp h
          cases h

/-- On a created heap only the extension can fail, whatever the size. -/
theorem kmalloc_null_created (h : Represents L s bs) (hbs : bs ≠ [])
    (hret : kmalloc M s size = some (0, s')) :
    bestFit (roundSize size) (placed kernelBase bs) = none ∧
      s.mapPages M heapFlags s.heapEnd 0 (pagesNeeded (roundSize size)) = (false, s') := by
  cases hbest : bestFit (roundSize size) (placed kernelBase bs) with
  | some x =>
      rw [kmalloc_found h hbs hbest] at hret
      cases takeBlock_ptr hret
  | none =>
      rw [kmalloc_missed h hbs hbest] at hret
      obtain ⟨⟨block, s₁⟩, hext, hret⟩ := Option.bind_eq_some_iff.mp hret
      cases block with
      | none =>
          cases hret
          exact ⟨rfl, extendHeap_none hext⟩
      | some block => cases takeBlock_ptr hret

/-- A failure on a created heap keeps its blocks and what lies outside the extension. -/
theorem kmalloc_failed_created (h : Represents L s bs) (hbs : bs ≠ []) (hfr : FramesOk L s)
    (hstop : StopsAt L kernelBase (heapLimit + 1))
    (hret : kmalloc M s size = some (0, s')) : Represents L s' bs ∧ Untouched M s s' fun x =>
      ¬ (s.heapEnd ≤ x ∧ x < s.heapEnd + 4096 * pagesNeeded (roundSize size)) := by
  obtain ⟨-, hrun⟩ := kmalloc_null_created h hbs hret
  obtain ⟨-, hrep, -, -, hunt⟩ := extendHeap_failed h hfr hstop hrun
  exact ⟨hrep, hunt⟩

theorem untouched_behind {s₁ : MemState σ} {lo n k : Nat}
    (h : Untouched M s s₁ fun x => ¬ (lo ≤ x ∧ x < lo + n))
    (h' : Untouched M s₁ s' fun x => ¬ (lo + n ≤ x ∧ x < lo + n + k)) :
    Untouched M s s' fun x => ¬ (lo ≤ x ∧ x < lo + n + k) :=
  (h.mono fun x hx hin => hx ⟨hin.1, by omega⟩).trans (h'.mono fun x hx hin => hx ⟨by omega, hin.2⟩)

/-- A failure on the way to the first heap: either nothing was created, or the heap was
and is one free block. -/
theorem kmalloc_failed_uncreated (h : Represents L s []) (hfr : FramesOk L s)
    (hstop : StopsAt L kernelBase (heapLimit + 1))
    (hret : kmalloc M s size = some (0, s')) :
    ((s.mapPages M heapFlags kernelBase 0 1024).1 = false → Represents L s' [] ∧
      Untouched M s s' fun x => ¬ (kernelBase ≤ x ∧ x < kernelBase + 4096 * 1024)) ∧
    ((s.mapPages M heapFlags kernelBase 0 1024).1 = true → Represents L s' (opened []) ∧
      Untouched M s s' fun x => ¬ (kernelBase ≤ x ∧
        x < kernelBase + 4096 * 1024 + 4096 * pagesNeeded (roundSize size))) := by
  cases hrun : s.mapPages M heapFlags kernelBase 0 1024 with
  | mk done s₁ =>
      cases done with
      | false =>
          obtain ⟨hinit, hrep, -, -, hunt⟩ := initHeap_failed h hfr hrun
          cases hret.symm.trans (kmalloc_uncreated hinit)
          exact ⟨fun _ => ⟨hrep, hunt⟩, nofun⟩
      | true =>
          obtain ⟨s₂, hinit, hrep, hfr₂, hunt⟩ := initHeap_mapped h hfr hrun
          have hopened := opened_ne_nil []
          rw [kmalloc_opened hinit (hrep.first_ne_zero hopened)] at hret
          obtain ⟨hrep', hunt'⟩ := kmalloc_failed_created hrep hopened hfr₂ hstop hret
          rw [hrep.end_eq, span_opened_nil] at hunt'
          exact ⟨nofun, fun _ => ⟨hrep', untouched_behind hunt hunt'⟩⟩

/-- No heap below the limit holds a block of 4 GiB. -/
theorem kmalloc_too_large (h : Represents L s bs) (hfr : FramesOk L s)
    (hstop : StopsAt L kernelBase (heapLimit + 1)) (hlarge : 2 ^ 32 ≤ size)
    (hsize : size ≤ sizeLimit) : ∃ s', kmalloc M s size = some (0, s') := by
  obtain ⟨p, s', hret, -, -, -, ⟨rfl, -⟩ | ⟨-, bs', halloc, hrep⟩⟩ := kmalloc_spec h hfr hstop hsize
  · exact ⟨s', hret⟩
  · obtain ⟨pre, b, post, -, hb, -, rfl, -⟩ := halloc
    have hround := (roundSize_spec hsize).1
    have hend := hrep.end_eq
    have hbelow := hrep.below
    have hlimit : heapLimit + 1 = kernelBase + 2 ^ 32 := by decide
    simp only [span_append, span_take] at hend
    omega

end Failure

/-! ## What callers see -/

section Callers

variable {junk : FlatState PageTables → Nat → Mem} {s s' : MemState (FlatState PageTables)}
variable {lo hi : Nat} {bs : List Block}

/-- Outside the addresses from `lo` to `hi` memory holds the same bytes behind the same
translations. -/
structure SameOutside (junk : FlatState PageTables → Nat → Mem)
    (s s' : MemState (FlatState PageTables)) (lo hi : Nat) : Prop where
  load : ∀ a, ¬ (lo ≤ a ∧ a < hi) →
    (flat tableMapper junk).load s'.mach a = (flat tableMapper junk).load s.mach a
  translate : ∀ a, Canonical a → ¬ (lo ≤ a ∧ a < hi) →
    s'.mach.tables.translate (pageNumber a) = s.mach.tables.translate (pageNumber a)

/-- The heap is the same, and so is memory outside the addresses from `lo` to `hi`. -/
structure Unseen (junk : FlatState PageTables → Nat → Mem)
    (s s' : MemState (FlatState PageTables)) (lo hi : Nat) : Prop extends SameOutside junk s s' lo hi where
  first : s'.heapFirstBlock = s.heapFirstBlock
  heapEnd : s'.heapEnd = s.heapEnd
  blocks : blockList (flat tableMapper junk) s' = blockList (flat tableMapper junk) s

theorem sameOutside_of_untouched (hrec : Recorded kernelTables_lawful s s') (hlo : kernelBase ≤ lo)
    (hunt : Untouched (flat tableMapper junk) s s' fun x => ¬ (lo ≤ x ∧ x < hi)) :
    SameOutside junk s s' lo hi :=
  ⟨hunt.load_eq, fun _ ha hout => hrec.translate_eq hlo hunt ha hout⟩

theorem unseen_of_represents {L : Lawful (flat tableMapper junk)} (h : Represents L s bs)
    (h' : Represents L s' bs) (hout : SameOutside junk s s' lo hi) : Unseen junk s s' lo hi :=
  ⟨hout, h'.first.trans h.first.symm, h'.end_eq.trans h.end_eq.symm,
    h'.blockList_eq.trans h.blockList_eq.symm⟩

/-- The pages of an extension, counted from the size asked for. -/
theorem pagesNeeded_round {size : Nat} (h : size ≤ 2 ^ 63) :
    4096 * pagesNeeded (roundSize size) = (24 + size + 4095) / 4096 * 4096 := by
  unfold pagesNeeded roundSize
  omega

end Callers

/-- A request that fails on a created heap changes nothing but what lies behind the heap. The
first request may also fail to create the heap, and then leaves everything outside the 4 MiB
alone; when it fails after creating the heap, the heap stays, as one free block. -/
theorem kmalloc_failure (junk : FlatState PageTables → Nat → Mem)
    (c : Client (FlatState PageTables)) (hc : Reached junk c) (size : Nat) (hsize : size ≤ 2 ^ 63)
    (s : MemState (FlatState PageTables))
    (hret : kmalloc (flat tableMapper junk) c.mem size = some (0, s)) :
    (c.mem.heapFirstBlock ≠ 0 → Unseen junk c.mem s c.mem.heapEnd
      (c.mem.heapEnd + (24 + size + 4095) / 4096 * 4096)) ∧
    (c.mem.heapFirstBlock = 0 →
      ((c.mem.mapPages (flat tableMapper junk) heapFlags c.mem.heapStart 0 1024).1 = false →
        Unseen junk c.mem s c.mem.heapStart (c.mem.heapStart + 4 * 1024 * 1024)) ∧
      ((c.mem.mapPages (flat tableMapper junk) heapFlags c.mem.heapStart 0 1024).1 = true →
        c.live = [] ∧ s.heapFirstBlock = c.mem.heapStart ∧
        s.heapEnd = c.mem.heapStart + 4 * 1024 * 1024 ∧
        blockList (flat tableMapper junk) s =
          some [(c.mem.heapStart, ⟨4 * 1024 * 1024 - 24, true⟩)] ∧
        SameOutside junk c.mem s c.mem.heapStart (c.mem.heapStart + 4 * 1024 * 1024 +
          (24 + size + 4095) / 4096 * 4096))) := by
  obtain ⟨bs, hinv, -⟩ := hc.inv
  have hrep := hinv.heap
  have hok : kernelTables_lawful.Ok c.mem.mach.tables := hrep.ok
  have hrec := Recorded.kmalloc hok hret
  rw [← pagesNeeded_round hsize, hrep.start]
  refine ⟨fun hfirst => ?_, fun hfirst => ?_⟩
  · have hbs : bs ≠ [] := by
      rintro rfl
      exact hfirst hrep.first
    have hlo : kernelBase ≤ c.mem.heapEnd := by
      rw [hrep.end_eq]
      omega
    obtain ⟨hrep', hunt⟩ := kmalloc_failed_created hrep hbs hinv.frames (flat_stops junk) hret
    exact unseen_of_represents hrep hrep' (sameOutside_of_untouched hrec hlo hunt)
  · obtain rfl : bs = [] := by
      by_contra hbs
      exact hrep.first_ne_zero hbs hfirst
    obtain ⟨hfailed, hcreated⟩ :=
      kmalloc_failed_uncreated hrep hinv.frames (flat_stops junk) hret
    refine ⟨fun hrun => ?_, fun hrun => ?_⟩
    · obtain ⟨hrep', hunt⟩ := hfailed hrun
      exact unseen_of_represents hrep hrep' (sameOutside_of_untouched hrec (Nat.le_refl _) hunt)
    · obtain ⟨hrep', hunt⟩ := hcreated hrun
      have hlive : c.live = [] := by
        refine List.eq_nil_iff_forall_not_mem.mpr fun x hx => ?_
        have hused := (hinv.live.mem_iff x.1).mp (List.mem_map_of_mem hx)
        simp [used, placed] at hused
      have hend : s.heapEnd = kernelBase + 4 * 1024 * 1024 := by
        rw [hrep'.end_eq, span_opened_nil]
      have hblocks := hrep'.blockList_eq
      rw [opened_nil] at hblocks
      have hfirst' := hrep'.first.trans (link_ne_nil (opened_ne_nil []))
      exact ⟨hlive, hfirst', hend, hblocks, sameOutside_of_untouched hrec (Nat.le_refl _) hunt⟩

/-- At boot a request for a terabyte creates the heap and then fails. -/
theorem boot_kmalloc_fails (junk : FlatState PageTables → Nat → Mem) :
    ∃ s, kmalloc (flat tableMapper junk) (MemState.initVmm bootFlat) (2 ^ 40) = some (0, s) ∧
      ((MemState.initVmm bootFlat).mapPages (flat tableMapper junk) heapFlags kernelBase 0 1024).1 =
        true ∧ s.heapFirstBlock ≠ 0 := by
  obtain ⟨bs, hinv, -⟩ := (boot_start junk).inv
  obtain rfl : bs = [] := by
    by_contra hbs
    exact hinv.heap.first_ne_zero hbs rfl
  have hlarge : 2 ^ 40 ≤ sizeLimit := by decide
  have hloop := boot_heap_supplied junk
  obtain ⟨s, hret⟩ := kmalloc_too_large hinv.heap hinv.frames (flat_stops junk) (by decide) hlarge
  obtain ⟨-, hcreated⟩ := kmalloc_failed_uncreated hinv.heap hinv.frames (flat_stops junk) hret
  exact ⟨s, hret, hloop, (hcreated hloop).1.first_ne_zero (opened_ne_nil [])⟩

/-- The heap such a request leaves. -/
theorem kmalloc_failure_boot : ∃ s, kmalloc (flat tableMapper fun _ _ _ => 0)
      (MemState.initVmm bootFlat) (2 ^ 40) = some (0, s) ∧ s.heapFirstBlock = kernelBase := by
  obtain ⟨s, hret, hloop, -⟩ := boot_kmalloc_fails fun _ _ _ => 0
  have huncreated := (kmalloc_failure _ _ (boot_start _) (2 ^ 40) (by decide) s hret).2 rfl
  exact ⟨s, hret, (huncreated.2 hloop).2.1⟩

/-- So a request that fails may change the first block. -/
theorem kmalloc_failure_creates : ¬ ∀ c : Client (FlatState PageTables),
    Reached (fun _ _ _ => 0) c → ∀ size, size ≤ 2 ^ 63 → ∀ s,
      kmalloc (flat tableMapper fun _ _ _ => 0) c.mem size = some (0, s) →
        s.heapFirstBlock = c.mem.heapFirstBlock := by
  intro h
  obtain ⟨s, hret, -, hfirst⟩ := boot_kmalloc_fails fun _ _ _ => 0
  exact hfirst (h _ (boot_start _) (2 ^ 40) (by decide) s hret)

end Kaviz.Kernel
