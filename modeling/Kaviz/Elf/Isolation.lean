import Kaviz.Elf.Fidelity
import Kaviz.Elf.Phases
import Kaviz.Kernel.Privilege
import Kaviz.Memory.Unified

/-! # What an executable can do to the kernel's half

Nothing in `elf_load` compares `p_vaddr` with the start of kernel space. A page
loop edits the upper half of the tables as soon as bit 47 of a page address is
set, whatever the bits above it are, and `memcpy` and `memset` write wherever the
header points, which can be into the tables themselves: the load runs on `unified`.
Apart from that only `kmalloc` maps pages of the upper half. One page is followed
through the whole load; what happens to it is read off the headers the loop comes to.
-/

namespace Kaviz.Elf

open Bytes Memory Paging Heap Kernel

variable {φ : Type}

/-! ## What the upper half keeps -/

/-- The page was mapped by `kmalloc` since `s₀`, beyond the end the heap had then.
No segment maps a page up there with these flags: from 4 GiB on a segment's flags
contain `PAGE_USER`. -/
def HeapPage (s₀ s : UnifiedState) (m : Nat) : Prop :=
  ∃ es w p, s.trace = es ++ s₀.trace ∧ .map w p heapFlags 0 ∈ es ∧ s₀.heapEnd ≤ w ∧ pageNumber w = m

/-- No byte stored between the two states lies in memory that held a table in the
first, or in the pool. -/
def TablesSpared (s s' : UnifiedState) : Prop :=
  ∀ qs q, s'.mach.stored = qs ++ s.mach.stored → q ∈ qs → ¬ TableMemory s.mach.tables q

/-- The first address behind the pages a `kmalloc` call may map. -/
def heapReach (s : UnifiedState) (size : Nat) : Nat :=
  s.heapEnd + (if s.heapFirstBlock = 0 then 4096 * 1024 else 0) + 4096 * pagesNeeded (roundSize size)

section Page

variable {s₀ s s' : UnifiedState} {m : Nat} {R : Option (Nat × Nat) → Prop}

/-- The load has not yet written to the tables, or the page has become a page of the
heap, or its translation satisfies `R`. -/
structure PageKept (s₀ : UnifiedState) (m : Nat) (R : Option (Nat × Nat) → Prop)
    (s : UnifiedState) : Prop where
  trace : ∃ es, s.trace = es ++ s₀.trace
  stored : ∃ qs, s.mach.stored = qs ++ s₀.mach.stored
  wf : TablesSpared s₀ s → s.mach.tables.WellFormed
  memory : TablesSpared s₀ s → ∀ q, TableMemory s.mach.tables q → TableMemory s₀.mach.tables q
  page : TablesSpared s₀ s → HeapPage s₀ s m ∨ R (s.mach.tables.translate m)

theorem PageKept.start (hwf : s.mach.tables.WellFormed) (hR : R (s.mach.tables.translate m)) :
    PageKept s m R s :=
  ⟨⟨[], rfl⟩, ⟨[], rfl⟩, fun _ => hwf, fun _ _ hq => hq, fun _ => Or.inr hR⟩

theorem HeapPage.later {es : List Event} (h : HeapPage s₀ s m) (htrace : s'.trace = es ++ s.trace) :
    HeapPage s₀ s' m := by
  obtain ⟨es₁, w, p, hs, hmem, hw, hm⟩ := h
  refine ⟨es ++ es₁, w, p, ?_, List.mem_append_right _ hmem, hw, hm⟩
  rw [htrace, hs, List.append_assoc]

/-- What is spared in the end has been spared before. -/
theorem TablesSpared.earlier {qs : List Nat} (h : TablesSpared s₀ s')
    (hstored : s'.mach.stored = qs ++ s.mach.stored) : TablesSpared s₀ s := by
  intro qs₁ q hqs hq
  apply h (qs ++ qs₁) q ?_ (List.mem_append_right _ hq)
  rw [hstored, hqs, List.append_assoc]

theorem PageKept.stored_step {a : Nat} {b : UInt8} (h : PageKept s₀ m R s)
    (hs : s.store8 unified a b = some s') : PageKept s₀ m R s' := by
  obtain ⟨q, rfl⟩ := store8_setByte hs
  obtain ⟨es, hes⟩ := h.trace
  obtain ⟨qs, hqs⟩ := h.stored
  have hstored : (s.mach.setByte q b).stored = (q :: qs) ++ s₀.mach.stored :=
    congrArg (List.cons q) hqs
  have hbefore : TablesSpared s₀ { s with mach := s.mach.setByte q b, trace := .store a :: s.trace } →
      TablesSpared s₀ s := fun hspared => @TablesSpared.earlier _ _ _ [q] hspared rfl
  have hsame : TablesSpared s₀ { s with mach := s.mach.setByte q b, trace := .store a :: s.trace } →
      SameTables s.mach.tables (s.mach.setByte q b).tables := by
    intro hspared
    apply setByte_sameTables
    intro hq
    exact hspared _ q hstored List.mem_cons_self (h.memory (hbefore hspared) q hq)
  refine ⟨⟨.store a :: es, congrArg (List.cons _) hes⟩, ⟨_, hstored⟩, ?_, ?_, ?_⟩
  · intro hspared
    exact (hsame hspared).wellFormed (h.wf (hbefore hspared))
  · intro hspared x hx
    exact h.memory (hbefore hspared) x ((hsame hspared).tableMemory hx)
  · intro hspared
    rcases h.page (hbefore hspared) with hheap | hR
    · exact Or.inl (@HeapPage.later _ _ _ _ [_] hheap rfl)
    · refine Or.inr ?_
      change R ((s.mach.setByte q b).tables.translate m)
      rw [(hsame hspared).translate]
      exact hR

theorem PageKept.after_stores (h : PageKept s₀ m R s) (hs : Stored unified s s') :
    PageKept s₀ m R s' := by
  induction hs with
  | refl => exact h
  | store _ hs ih => exact ih.stored_step hs

/-- A fresh page is mapped; what becomes of the page followed is told by `hpage`. -/
theorem PageKept.fresh {v f : Nat} {R' : Option (Nat × Nat) → Prop} (h : PageKept s₀ m R s)
    (hf : f < 4096)
    (hpage : s.mach.tables.WellFormed → HeapPage s₀ s m ∨ R (s.mach.tables.translate m) →
      HeapPage s₀ (s.mapFresh unified v f).2 m ∨
        R' ((s.mapFresh unified v f).2.mach.tables.translate m)) :
    PageKept s₀ m R' (s.mapFresh unified v f).2 := by
  obtain ⟨es, hes⟩ := h.trace
  obtain ⟨qs, hqs⟩ := h.stored
  obtain ⟨⟨es', htrace⟩, hstored⟩ := mapFresh_grows s v f
  have hbefore : TablesSpared s₀ (s.mapFresh unified v f).2 → TablesSpared s₀ s :=
    fun hspared => @TablesSpared.earlier _ _ _ [] hspared hstored
  refine ⟨⟨es' ++ es, by rw [htrace, hes, List.append_assoc]⟩, ⟨qs, hstored.trans hqs⟩, ?_, ?_, ?_⟩
  · intro hspared
    exact (mapFresh_unified (h.wf (hbefore hspared)) hf).1
  · intro hspared q hq
    exact h.memory (hbefore hspared) q ((mapFresh_unified (h.wf (hbefore hspared)) hf).2.1 q hq)
  · intro hspared
    exact hpage (h.wf (hbefore hspared)) (h.page (hbefore hspared))

theorem PageKept.remap {v f : Nat} {R' : Option (Nat × Nat) → Prop}
    (h : PageKept s₀ (pageNumber v) R s) (hf : f < 4096)
    (hdone : (s.mapFresh unified v f).1 = true)
    (hR : (f = heapFlags ∧ s₀.heapEnd ≤ v) ∨ ∀ p, R' (some (p, f ||| pagePresent))) :
    PageKept s₀ (pageNumber v) R' (s.mapFresh unified v f).2 := by
  obtain ⟨es, hes⟩ := h.trace
  apply h.fresh hf
  intro hwf _
  rcases (mapFresh_unified (v := v) hwf hf).2.2 with ⟨-, p, htrace, htr⟩ | ⟨hfail, -⟩
  · rcases hR with ⟨rfl, hend⟩ | hR
    · refine Or.inl ⟨.map v p heapFlags 0 :: es, v, p, ?_, List.mem_cons_self, hend, rfl⟩
      rw [htrace, hes, List.cons_append]
    · rw [htr, PageMap.update, if_pos rfl]
      exact Or.inr (hR _)
  · rw [hfail] at hdone
    cases hdone

/-- A mapping of the page itself must be one of the heap, or satisfy `R`. -/
theorem PageKept.mapFresh {v f : Nat} (h : PageKept s₀ m R s) (hf : f < 4096)
    (hm : (s.mapFresh unified v f).1 = true → pageNumber v = m →
      (f = heapFlags ∧ s₀.heapEnd ≤ v) ∨ ∀ p, R (some (p, f ||| pagePresent))) :
    PageKept s₀ m R (s.mapFresh unified v f).2 := by
  by_cases hsame : (s.mapFresh unified v f).1 = true ∧ pageNumber v = m
  · obtain ⟨hdone, rfl⟩ := hsame
    exact h.remap hf hdone (hm hdone rfl)
  · obtain ⟨⟨es, htrace⟩, -⟩ := mapFresh_grows s v f
    apply h.fresh hf
    intro hwf hpage
    have htr : (s.mapFresh unified v f).2.mach.tables.translate m = s.mach.tables.translate m := by
      rcases (mapFresh_unified (v := v) hwf hf).2.2 with ⟨hdone, p, -, htr⟩ | ⟨-, htr⟩
      · rw [htr, PageMap.update, if_neg fun hm => hsame ⟨hdone, hm.symm⟩]
      · rw [htr]
    rw [htr]
    exact hpage.imp_left fun hheap => hheap.later htrace

theorem PageKept.mapPages {base i n : Nat} (h : PageKept s₀ m R s) (hbase : s₀.heapEnd ≤ base)
    (hfit : base + 4096 * (i + n) ≤ 2 ^ 64) :
    PageKept s₀ m R (s.mapPages unified heapFlags base i n).2 := by
  induction n generalizing s i with
  | zero => exact h
  | succ n ih =>
      have hmod : (base + 4096 * i) % 2 ^ 64 = base + 4096 * i := Nat.mod_eq_of_lt (by omega)
      have hone : PageKept s₀ m R (s.mapFresh unified ((base + 4096 * i) % 2 ^ 64) heapFlags).2 := by
        apply h.mapFresh (by decide)
        intro _ _
        rw [hmod]
        exact Or.inl ⟨rfl, by omega⟩
      rw [MemState.mapPages]
      cases hfresh : s.mapFresh unified ((base + 4096 * i) % 2 ^ 64) heapFlags with
      | mk done s₁ =>
          rw [hfresh] at hone
          cases done with
          | false => exact hone
          | true => exact ih hone (by omega)

theorem PageKept.grown {base n : Nat} (h : PageKept s₀ m R s) (hbase : s₀.heapEnd ≤ base)
    (hfit : base + 4096 * n ≤ 2 ^ 64) (hgrown : Grown unified s base n s') : PageKept s₀ m R s' := by
  obtain ⟨first, last, -, hstored⟩ := hgrown
  have hmapped := h.mapPages (i := 0) (n := n) hbase (by omega)
  have hvars : PageKept s₀ m R { (s.mapPages unified heapFlags base 0 n).2 with
      heapFirstBlock := first, heapEnd := last } :=
    ⟨hmapped.trace, hmapped.stored, hmapped.wf, hmapped.memory, hmapped.page⟩
  exact hvars.after_stores hstored

/-- The end of the heap has only moved up since `s₀`. -/
structure HeapAfter (s₀ s : UnifiedState) : Prop where
  start : s.heapStart = kernelBase
  unopened : s.heapFirstBlock = 0 → s.heapEnd = kernelBase
  grows : s₀.heapEnd ≤ s.heapEnd

theorem HeapAfter.stored (h : HeapAfter s₀ s) (hs : Stored unified s s') : HeapAfter s₀ s' := by
  rw [hs.vars]
  exact ⟨h.start, h.unopened, h.grows⟩

/-- `kmalloc` maps pages beyond the old end of the heap only. -/
theorem PageKept.kmalloc {size r : Nat} (h : PageKept s₀ m R s) (hheap : HeapAfter s₀ s)
    (hfit : heapReach s size < 2 ^ 64) (hs : kmalloc unified s size = some (r, s')) :
    PageKept s₀ m R s' ∧ HeapAfter s₀ s' := by
  have hstart := hheap.start
  have hgrows := hheap.grows
  obtain ⟨s₁, s₂, hinit, hext, hstored⟩ := kmalloc_cases hs
  have hopened : s'.heapFirstBlock = 0 → s'.heapEnd = kernelBase := by
    intro hnone
    obtain ⟨hbefore, hend⟩ := kmalloc_unopened hs (by rw [hstart]; decide) hnone
    exact hend.trans (hheap.unopened hbefore)
  -- The heap is created, if at all, at its own end.
  have h₁ : PageKept s₀ m R s₁ ∧ s₁.heapStart = kernelBase ∧ s₀.heapEnd ≤ s₁.heapEnd ∧
      s₁.heapEnd + 4096 * pagesNeeded (roundSize size) < 2 ^ 64 := by
    unfold heapReach at hfit
    rcases hinit with rfl | ⟨hnone, hgrown⟩
    · refine ⟨h, hstart, hgrows, ?_⟩
      split at hfit <;> omega
    · have hbase : s.heapStart = s.heapEnd := hstart.trans (hheap.unopened hnone).symm
      rw [if_pos hnone] at hfit
      obtain ⟨hsame, hend⟩ := hgrown.vars
      rw [hbase] at hgrown hend
      refine ⟨h.grown hgrows (by omega) hgrown, hsame.trans hstart, ?_, ?_⟩
      · rcases hend with hend | ⟨-, hend⟩
        · rw [hend]
          exact hgrows
        · rw [hend, Nat.mod_eq_of_lt (by omega)]
          omega
      · rcases hend with hend | ⟨-, hend⟩
        · rw [hend]
          omega
        · rw [hend, Nat.mod_eq_of_lt (by omega)]
          omega
  obtain ⟨hkept₁, hstart₁, hgrows₁, hfit₁⟩ := h₁
  have h₂ : PageKept s₀ m R s₂ ∧ s₂.heapStart = kernelBase ∧ s₀.heapEnd ≤ s₂.heapEnd := by
    rcases hext with rfl | ⟨-, hgrown⟩
    · exact ⟨hkept₁, hstart₁, hgrows₁⟩
    · obtain ⟨hsame, hend⟩ := hgrown.vars
      refine ⟨hkept₁.grown hgrows₁ (by omega) hgrown, hsame.trans hstart₁, ?_⟩
      rcases hend with hend | ⟨-, hend⟩
      · rw [hend]
        exact hgrows₁
      · rw [hend, Nat.mod_eq_of_lt hfit₁]
        omega
  refine ⟨h₂.1.after_stores hstored, ?_, hopened, ?_⟩
  · rw [hstored.vars]
    exact h₂.2.1
  · rw [hstored.vars]
    exact h₂.2.2

theorem mapSegment_succ {phdr start i n : Nat} {done : Bool} :
    mapSegment unified phdr start i (n + 1) s = some (done, s') ↔
      ∃ flags v, pFlags unified s.mach phdr = some flags ∧ v = (start + 4096 * i) % 2 ^ 64 ∧
        (((s.mapFresh unified v (segmentFlags flags v)).1 = true ∧
            mapSegment unified phdr start (i + 1) n
              (s.mapFresh unified v (segmentFlags flags v)).2 = some (done, s')) ∨
          ((s.mapFresh unified v (segmentFlags flags v)).1 = false ∧ done = false ∧
            s' = (s.mapFresh unified v (segmentFlags flags v)).2)) := by
  rw [mapSegment]
  generalize (start + 4096 * i) % 2 ^ 64 = v
  cases hflags : pFlags unified s.mach phdr with
  | none => simp
  | some flags =>
      rw [Option.bind_eq_bind, Option.bind_some]
      dsimp only
      constructor
      · intro h
        refine ⟨flags, v, rfl, rfl, ?_⟩
        cases hfresh : s.mapFresh unified v (segmentFlags flags v) with
        | mk one s₁ =>
            rw [hfresh] at h
            cases one with
            | false =>
                cases h
                exact Or.inr ⟨rfl, rfl, rfl⟩
            | true => exact Or.inl ⟨rfl, h⟩
      · rintro ⟨flags', v', hsame, rfl, h⟩
        cases hsame
        cases hfresh : s.mapFresh unified v' (segmentFlags flags v') with
        | mk one s₁ =>
            rw [hfresh] at h
            cases one with
            | false =>
                rcases h with ⟨hno, -⟩ | ⟨-, rfl, rfl⟩
                · cases hno
                · rfl
            | true =>
                rcases h with ⟨-, hrest⟩ | ⟨hno, -⟩
                · exact hrest
                · cases hno

/-- The page loop of a segment. Only the pages it gets to count. -/
theorem PageKept.mapSegment {phdr start i n : Nat} {done : Bool} (h : PageKept s₀ m R s)
    (hpages : ∀ k mem, i + k < i + n →
      Elf.mapSegment unified phdr start i (k + 1) s = some (true, mem) →
      pageNumber (start + 4096 * (i + k)) = m →
      ∀ p f, R (some (p, segmentFlags f ((start + 4096 * (i + k)) % 2 ^ 64) ||| pagePresent)))
    (hrun : Elf.mapSegment unified phdr start i n s = some (done, s')) : PageKept s₀ m R s' := by
  induction n generalizing s i with
  | zero =>
      cases hrun
      exact h
  | succ n ih =>
      obtain ⟨flags, v, hflags, hv, hround⟩ := mapSegment_succ.mp hrun
      have hnum : pageNumber (start + 4096 * (i + 0)) = pageNumber v := by
        rw [hv, Nat.add_zero, pageNumber, pageNumber]
        omega
      have hone : PageKept s₀ m R (s.mapFresh unified v (segmentFlags flags v)).2 := by
        apply h.mapFresh (segmentFlags_lt flags v)
        intro hdone hpage
        have hfirst : Elf.mapSegment unified phdr start i (0 + 1) s =
            some (true, (s.mapFresh unified v (segmentFlags flags v)).2) :=
          mapSegment_succ.mpr ⟨flags, v, hflags, hv, Or.inl ⟨hdone, rfl⟩⟩
        have hR := hpages 0 _ (by omega) hfirst (hnum.trans hpage)
        rw [Nat.add_zero, ← hv] at hR
        exact Or.inr fun p => hR p flags
      rcases hround with ⟨hdone, hrest⟩ | ⟨-, -, rfl⟩
      · apply ih hone ?_ hrest
        intro k mem hk hmap hpage
        have hR := hpages (k + 1) mem (by omega)
          (mapSegment_succ.mpr ⟨flags, v, hflags, hv, Or.inl ⟨hdone, hmap⟩⟩)
        rw [Nat.add_comm k 1, ← Nat.add_assoc] at hR
        exact hR hpage
      · exact hone

theorem mapSegment_vars {phdr start i n : Nat} {done : Bool}
    (hrun : mapSegment unified phdr start i n s = some (done, s')) : s' = { s with
      mach := s'.mach
      nextFreePage := s'.nextFreePage
      trace := s'.trace } := by
  induction n generalizing s i with
  | zero =>
      cases hrun
      rfl
  | succ n ih =>
      obtain ⟨flags, v, -, -, ⟨-, hrest⟩ | ⟨-, -, rfl⟩⟩ := mapSegment_succ.mp hrun
      · have hvars := ih hrest
        rw [mapFresh_vars] at hvars
        exact hvars
      · exact mapFresh_vars s v _

theorem HeapAfter.mapSegment {phdr start i n : Nat} {done : Bool} (h : HeapAfter s₀ s)
    (hrun : Elf.mapSegment unified phdr start i n s = some (done, s')) : HeapAfter s₀ s' := by
  rw [mapSegment_vars hrun]
  exact ⟨h.start, h.unopened, h.grows⟩

end Page

/-! ## The whole load -/

section Load

variable {V : Vfs φ} {filename : String} {s s' : UnifiedState} {m : Nat}
variable {R : Option (Nat × Nat) → Prop}

/-- What is known of memory between two steps. -/
structure Followed (s₀ : UnifiedState) (m : Nat) (R : Option (Nat × Nat) → Prop)
    (s : UnifiedState) : Prop where
  kept : PageKept s₀ m R s
  heap : HeapAfter s₀ s

theorem Followed.stored {s₀ : UnifiedState} (h : Followed s₀ m R s) (hs : Stored unified s s') :
    Followed s₀ m R s' := ⟨h.kept.after_stores hs, h.heap.stored hs⟩

theorem Followed.kmalloc {s₀ : UnifiedState} {size r : Nat} (h : Followed s₀ m R s)
    (hfit : heapReach s size < 2 ^ 64) (hs : kmalloc unified s size = some (r, s')) :
    Followed s₀ m R s' := by
  obtain ⟨hkept, hheap⟩ := h.kept.kmalloc h.heap hfit hs
  exact ⟨hkept, hheap⟩

end Load

/-! ## A segment in the middle of the heap -/

end Kaviz.Elf
