import Kaviz.Heap.Safety

/-! # One block list for each set of allocations

Neighbouring free blocks are always joined, so the extent of the heap and the
blocks in use leave only one way to fill the gaps. Freeing a set of pointers in
another order therefore ends in the same list.
-/

namespace Kaviz.Heap

open Bytes Memory Paging Relation

variable {σ τ : Type}

/-! ## Lists -/

/-- A free block in front hides nothing: what is in use behind it lies higher. -/
theorem used_free_ne {a : Nat} {b c : Block} {bs cs : List Block} (hb : b.free = false)
    (hc : c.free = true) : used a (b :: bs) ≠ used a (c :: cs) := by
  intro heq
  rw [used_cons_used hb, used_cons_free hc] at heq
  have hmem : a + 24 ∈ (used (a + (24 + c.size)) cs).map Prod.fst := by
    rw [← heq]
    exact List.mem_cons_self
  have := used_addr_le hmem
  omega

theorem used_behind_free {b : Block} {bs : List Block} (h : NoAdjacentFree (b :: bs))
    (hb : b.free = true) :
    bs = [] ∨ ∃ c cs, bs = c :: cs ∧ c.free = false := by
  cases bs with
  | nil => exact Or.inl rfl
  | cons c cs =>
      have hhead := (noAdjacentFree_cons.1 h).1 c rfl
      cases hc : c.free with
      | true => exact absurd ⟨hb, hc⟩ hhead
      | false => exact Or.inr ⟨c, cs, rfl, hc⟩

/-- The extent and the blocks in use determine the list. -/
theorem blocks_determined {a : Nat} {bs cs : List Block} (hspan : span bs = span cs)
    (hused : used a bs = used a cs) (hbs : NoAdjacentFree bs) (hcs : NoAdjacentFree cs) : bs = cs := by
  induction bs generalizing a cs with
  | nil =>
      cases cs with
      | nil => rfl
      | cons c cs =>
          rw [span_nil, span_cons] at hspan
          omega
  | cons b bs ih =>
      cases cs with
      | nil =>
          rw [span_nil, span_cons] at hspan
          omega
      | cons c cs =>
          have hbs' := (noAdjacentFree_cons.1 hbs).2
          have hcs' := (noAdjacentFree_cons.1 hcs).2
          rw [span_cons, span_cons] at hspan
          cases hb : b.free with
          | false =>
              cases hc : c.free with
              | true => exact absurd hused (used_free_ne hb hc)
              | false =>
                  rw [used_cons_used hb, used_cons_used hc, List.cons.injEq, Prod.mk.injEq] at hused
                  obtain ⟨⟨-, hsize⟩, hrest⟩ := hused
                  obtain rfl : b = c := by
                    cases b
                    cases c
                    simp_all
                  rw [ih (by omega) hrest hbs' hcs']
          | true =>
              cases hc : c.free with
              | false => exact absurd hused.symm (used_free_ne hc hb)
              | true =>
                  have hsize : b.size = c.size := by
                    rw [used_cons_free hb, used_cons_free hc] at hused
                    obtain rfl | ⟨d, ds, rfl, hd⟩ := used_behind_free hbs hb
                    · obtain rfl | ⟨e, es, rfl, he⟩ := used_behind_free hcs hc
                      · rw [span_nil] at hspan
                        omega
                      · rw [used_cons_used he] at hused
                        cases hused
                    · obtain rfl | ⟨e, es, rfl, he⟩ := used_behind_free hcs hc
                      · rw [used_cons_used hd] at hused
                        cases hused
                      · rw [used_cons_used hd, used_cons_used he, List.cons.injEq,
                          Prod.mk.injEq] at hused
                        omega
                  obtain rfl : b = c := by
                    cases b
                    cases c
                    simp_all
                  rw [used_cons_free hb, used_cons_free hc] at hused
                  rw [ih (by omega) hused hbs' hcs']

theorem used_sorted (a : Nat) (bs : List Block) : (used a bs).Pairwise fun x y => x.1 < y.1 := by
  induction bs generalizing a with
  | nil => simp [used, placed]
  | cons b bs ih =>
      cases hb : b.free with
      | true =>
          rw [used_cons_free hb]
          exact ih _
      | false =>
          rw [used_cons_used hb, List.pairwise_cons]
          refine ⟨fun x hx => ?_, ih _⟩
          have := used_addr_le (List.mem_map_of_mem hx)
          dsimp only
          omega

theorem used_ext {a : Nat} {bs cs : List Block} (h : ∀ x, x ∈ used a bs ↔ x ∈ used a cs) :
    used a bs = used a cs := by
  have hirr : ∀ bs, (used a bs).Nodup := fun bs =>
    (used_sorted a bs).imp fun hlt heq => absurd (congrArg Prod.fst heq) (Nat.ne_of_lt hlt)
  have hperm : (used a bs).Perm (used a cs) := (List.perm_ext_iff_of_nodup (hirr bs) (hirr cs)).2 h
  exact hperm.eq_of_pairwise (fun x y _ _ hxy hyx => absurd hxy (Nat.lt_asymm hyx))
    (used_sorted a bs) (used_sorted a cs)

/-! ## The list in memory -/

/-- The blocks reached through `next`, with their addresses. -/
def walkBlocks (M : Machine σ) (x : σ) : Nat → Nat → Option (List (Nat × Block))
  | 0, _ => none
  | fuel + 1, current =>
      if current = 0 then some []
      else do
        let size ← blockSize M x current
        let free ← blockFree M x current
        let next ← blockNext M x current
        let rest ← walkBlocks M x fuel next
        some ((current, ⟨size, decide (free ≠ 0)⟩) :: rest)

def blockList (M : Machine σ) (s : MemState σ) : Option (List (Nat × Block)) :=
  walkBlocks M s.mach walkFuel s.heapFirstBlock

def freeAll (M : Machine σ) : MemState σ → List Nat → Option (MemState σ)
  | s, [] => some s
  | s, p :: ps => (kfree M s p).bind fun s => freeAll M s ps

section Memory

variable {M : Machine σ} {L : Lawful M} {c : Client σ} {bs : List Block}

theorem walkBlocks_eq {x : σ} {a fuel : Nat} (h : Layout (view M x) a bs)
    (hm : Mapped M x a (a + span bs)) (ha : a ≠ 0) (hfuel : bs.length < fuel) :
    walkBlocks M x fuel (link a bs) = some (placed a bs) := by
  induction bs generalizing a fuel with
  | nil =>
      obtain ⟨fuel, rfl⟩ : ∃ k, fuel = k + 1 := ⟨fuel - 1, by omega⟩
      simp [walkBlocks, link, placed]
  | cons b bs ih =>
      obtain ⟨fuel, rfl⟩ : ∃ k, fuel = k + 1 := ⟨fuel - 1, by omega⟩
      simp only [span_cons, List.length_cons] at hm hfuel
      have hext : a + b.extent = a + (24 + b.size) := rfl
      have hhead : Mapped M x a (a + 24) := hm.mono (Nat.le_refl _) (by omega)
      have hrest := ih h.2 (hm.mono (by omega) (by omega)) (by omega) (by omega : bs.length < fuel)
      have hflag : decide ((if b.free = true then 1 else 0) ≠ 0) = b.free := by
        cases b.free <;> rfl
      rw [link, walkBlocks, if_neg ha, blockSize_eq h.1 hhead, blockFree_eq h.1 hhead,
        blockNext_eq h.1 hhead, placed]
      simp only [Option.bind_eq_bind, Option.bind_some, hrest, hflag]

theorem Represents.blockList_eq {s : MemState σ} (h : Represents L s bs) :
    blockList M s = some (placed kernelBase bs) := by
  have hholds := h.holds
  rw [blockList, h.first]
  exact walkBlocks_eq hholds.layout hholds.mapped hholds.pos hholds.fuel

/-- What is in use after several frees does not depend on their order. -/
theorem ClientInv.freeAll_used (h : ClientInv L c bs) {ps : List Nat} (hnodup : ps.Nodup)
    (hps : ∀ p ∈ ps, p ∈ c.live.map Prod.fst) :
    ∃ s bs', freeAll M c.mem ps = some s ∧ Represents L s bs' ∧ NoAdjacentFree bs' ∧
      span bs' = span bs ∧ ∀ x, x ∈ used kernelBase bs' ↔ x ∈ used kernelBase bs ∧ x.1 ∉ ps := by
  induction ps generalizing c bs with
  | nil => exact ⟨c.mem, bs, rfl, h.heap, h.separated, rfl, by simp⟩
  | cons p ps ih =>
      obtain ⟨hnew, hrest⟩ := List.nodup_cons.1 hnodup
      obtain ⟨s, bs₁, hret, -, -, hinv, hspan, hused⟩ := h.kfree_used (hps p List.mem_cons_self)
      have hlive : ∀ q ∈ ps, q ∈ (c.live.filter fun x => x.1 ≠ p).map Prod.fst := by
        intro q hq
        obtain ⟨x, hx, hxq⟩ := List.mem_map.1 (hps q (List.mem_cons_of_mem _ hq))
        refine List.mem_map.2 ⟨x, List.mem_filter.2 ⟨hx, ?_⟩, hxq⟩
        rw [decide_eq_true_eq, hxq]
        rintro rfl
        exact hnew hq
      obtain ⟨s', bs', hret', hrep, hsep, hspan', hused'⟩ := ih hinv hrest hlive
      refine ⟨s', bs', ?_, hrep, hsep, hspan'.trans hspan, fun x => ?_⟩
      · rw [freeAll, hret, Option.bind_some, hret']
      · rw [hused', hused, List.mem_cons, not_or, and_assoc]

end Memory

def allocated (l : List (Nat × Block)) : List (Nat × Block) := l.filter fun x => !x.2.free

theorem used_subset_of_allocated {a : Nat} {bs cs : List Block}
    (h : ∀ x, x ∈ allocated (placed a bs) → x ∈ allocated (placed a cs)) {x : Nat × Nat}
    (hx : x ∈ used a bs) : x ∈ used a cs := by
  obtain ⟨q, b, hplaced, hb, hp, hcap⟩ := mem_used.1 hx
  have hmem : (q, b) ∈ allocated (placed a bs) := by
    rw [allocated, List.mem_filter]
    exact ⟨hplaced, by simp [hb]⟩
  have hmem' := (List.mem_filter.1 (h _ hmem)).1
  exact mem_used.2 ⟨q, b, hmem', hb, hp, hcap⟩

/-- From every state of every run, freeing live pointers in any two orders leaves the same
block list; and states of runs with the same extent of the heap and the same blocks in use
have the same block list. -/
theorem free_order_irrelevant (P : Mapper τ) (hP : P.Lawful) (junk : FlatState τ → Nat → Mem)
    (hstop : StopsAt (flat_lawful junk hP) kernelBase (heapLimit + 1))
    (s : MemState (FlatState τ)) (hok : hP.Ok s.mach.tables) (hs : Unused s)
    (c : Client (FlatState τ)) (hrun : ReflTransGen (ClientStep (flat P junk)) ⟨s, []⟩ c) :
    (∀ ps qs : List Nat, ps.Nodup → (∀ p ∈ ps, p ∈ c.live.map Prod.fst) → ps.Perm qs →
      ∃ s₁ s₂ l, freeAll (flat P junk) c.mem ps = some s₁ ∧
        freeAll (flat P junk) c.mem qs = some s₂ ∧
        blockList (flat P junk) s₁ = some l ∧ blockList (flat P junk) s₂ = some l) ∧
    (∀ (s' : MemState (FlatState τ)) (c' : Client (FlatState τ)), hP.Ok s'.mach.tables → Unused s' →
      ReflTransGen (ClientStep (flat P junk)) ⟨s', []⟩ c' →
      c'.mem.heapStart = c.mem.heapStart → c'.mem.heapEnd = c.mem.heapEnd →
      ∃ l l', blockList (flat P junk) c.mem = some l ∧ blockList (flat P junk) c'.mem = some l' ∧
        ((∀ x, x ∈ allocated l ↔ x ∈ allocated l') → l = l')) := by
  obtain ⟨bs, -, hinv⟩ := (clientInv_unused junk hok hs).run (fun _ _ => trivial) hstop hrun
  constructor
  · intro ps qs hnodup hlive hperm
    obtain ⟨s₁, bs₁, hfree₁, hrep₁, hsep₁, hspan₁, hused₁⟩ := hinv.freeAll_used hnodup hlive
    obtain ⟨s₂, bs₂, hfree₂, hrep₂, hsep₂, hspan₂, hused₂⟩ :=
      hinv.freeAll_used (hperm.nodup hnodup) fun p hp => hlive p (hperm.mem_iff.2 hp)
    have hused : used kernelBase bs₁ = used kernelBase bs₂ := by
      apply used_ext
      intro x
      rw [hused₁, hused₂, hperm.mem_iff]
    have hsame : bs₁ = bs₂ := blocks_determined (hspan₁.trans hspan₂.symm) hused hsep₁ hsep₂
    exact ⟨s₁, s₂, _, hfree₁, hfree₂, hrep₁.blockList_eq, hsame ▸ hrep₂.blockList_eq⟩
  · intro s' c' hok' hs' hrun' _ hend
    obtain ⟨cs, -, hinv'⟩ := (clientInv_unused junk hok' hs').run (fun _ _ => trivial) hstop hrun'
    refine ⟨_, _, hinv.heap.blockList_eq, hinv'.heap.blockList_eq, fun halloc => ?_⟩
    have hspan : span bs = span cs := by
      have h₁ := hinv.heap.end_eq
      have h₂ := hinv'.heap.end_eq
      omega
    have hused : used kernelBase bs = used kernelBase cs :=
      used_ext fun x => ⟨used_subset_of_allocated fun y => (halloc y).1,
        used_subset_of_allocated fun y => (halloc y).2⟩
    rw [blocks_determined hspan hused hinv.separated hinv'.separated]

/-! ## Two neighbours, in both orders -/

inductive Request
  | kmalloc (size : Nat)
  | kfree (p : Nat)
  deriving DecidableEq

/-- A size far from the end of the address space. -/
def Request.Fits : Request → Prop
  | .kmalloc size => size ≤ 2 ^ 63
  | .kfree _ => True

instance (r : Request) : Decidable r.Fits := by
  cases r
  · exact inferInstanceAs (Decidable (_ ≤ _))
  · exact inferInstanceAs (Decidable True)

def serve (M : Machine σ) (c : Client σ) : Request → Option (Client σ)
  | .kmalloc size => (Heap.kmalloc M c.mem size).map fun r =>
      ⟨r.2, if r.1 = 0 then c.live else (r.1, size) :: c.live⟩
  | .kfree p =>
      if p ∈ c.live.map Prod.fst then
        (Heap.kfree M c.mem p).map fun s => ⟨s, c.live.filter fun x => x.1 ≠ p⟩
      else none

theorem serve_step {M : Machine σ} {c c' : Client σ} {r : Request} (h : serve M c r = some c')
    (hfits : r.Fits) : ClientStep M c c' := by
  cases r with
  | kmalloc size =>
      obtain ⟨⟨p, s⟩, hret, rfl⟩ := Option.map_eq_some_iff.mp h
      exact .kmalloc hfits hret
  | kfree p =>
      rw [serve] at h
      by_cases hlive : p ∈ c.live.map Prod.fst
      · rw [if_pos hlive] at h
        obtain ⟨s, hret, rfl⟩ := Option.map_eq_some_iff.mp h
        exact .kfree (Or.inr hlive) hret
      · rw [if_neg hlive] at h
        cases h

theorem run_of_requests {M : Machine σ} {c c' : Client σ} {rs : List Request}
    (hfits : ∀ r ∈ rs, r.Fits) (h : rs.foldlM (serve M) c = some c') :
    ReflTransGen (ClientStep M) c c' := by
  induction rs generalizing c with
  | nil =>
      cases h
      exact .refl
  | cons r rs ih =>
      rw [List.foldlM_cons] at h
      obtain ⟨c₁, hone, hrest⟩ := Option.bind_eq_some_iff.mp h
      rw [List.forall_mem_cons] at hfits
      exact .head (serve_step hone hfits.1) (ih hfits.2 hrest)

/-- The pages of the heap are mapped one after the other, up to the limit. -/
def countingMapper : Mapper Nat where
  translate k n :=
    if 2 ^ 35 ≤ n ∧ n < 2 ^ 35 + k then some (0x200000 + 4096 * (n - 2 ^ 35), heapFlags) else none
  mapPage k v p f :=
    if v ≤ heapLimit ∧ pageNumber v = 2 ^ 35 + k ∧ pageAlign p = 0x200000 + 4096 * k ∧
      f ||| pagePresent = heapFlags then (0, k + 1) else (-1, k)

def countingMapper_lawful : countingMapper.Lawful where
  Ok _ := True
  map_spec := by
    intro k v p f _ _ _
    by_cases hnext : v ≤ heapLimit ∧ pageNumber v = 2 ^ 35 + k ∧
        pageAlign p = 0x200000 + 4096 * k ∧ f ||| pagePresent = heapFlags
    · have hnew : countingMapper.mapPage k v p f = (0, k + 1) := if_pos hnext
      rw [hnew, hnext.2.1, hnext.2.2.1, hnext.2.2.2]
      refine ⟨trivial, ?_⟩
      rw [if_pos rfl]
      funext n
      by_cases hn : n = 2 ^ 35 + k
      · simp [countingMapper, PageMap.update, hn]
      · have hsame : 2 ^ 35 ≤ n ∧ n < 2 ^ 35 + (k + 1) ↔ 2 ^ 35 ≤ n ∧ n < 2 ^ 35 + k := by omega
        simp only [countingMapper, PageMap.update, hn, if_false, hsame]
    · have hold : countingMapper.mapPage k v p f = (-1, k) := if_neg hnext
      rw [hold]
      exact ⟨trivial, rfl⟩

theorem countingMapper_stops : StopsAboveHeap countingMapper countingMapper_lawful := by
  intro k v p f _ hv _
  simp [countingMapper, Nat.not_le.mpr hv]

def countingMachine : Machine (FlatState Nat) := flat countingMapper fun _ _ _ => 0

def served (rs : List Request) : Option (Client (FlatState Nat)) :=
  rs.foldlM (serve countingMachine) ⟨MemState.initVmm ⟨0, fun _ => 0⟩, []⟩

/-- The ends of the heap and the blocks in use. -/
def Client.summary (c : Client (FlatState Nat)) : Nat × Nat × Option (List (Nat × Block)) :=
  (c.mem.heapStart, c.mem.heapEnd, (blockList countingMachine c.mem).map allocated)

theorem served_three : (served [.kmalloc 100, .kmalloc 200, .kmalloc 300]).map Client.live =
    some [(kernelBase + 372, 300), (kernelBase + 148, 200), (kernelBase + 24, 100)] := by
  decide +kernel

/-- A first block is freed in front of one in use. -/
theorem served_gap :
    (served [.kmalloc 100, .kmalloc 200, .kfree (kernelBase + 24)]).map Client.summary =
      some (kernelBase, kernelBase + 4 * 1024 * 1024, some [(kernelBase + 124, ⟨200, false⟩)]) := by
  decide +kernel

/-- The same behind a third allocation that has been freed. -/
theorem served_gap_behind :
    (served [.kmalloc 100, .kmalloc 200, .kmalloc 300, .kfree (kernelBase + 372),
      .kfree (kernelBase + 24)]).map Client.summary =
      some (kernelBase, kernelBase + 4 * 1024 * 1024, some [(kernelBase + 124, ⟨200, false⟩)]) := by
  decide +kernel

/-- Two neighbours are freed in both orders; and a heap with one block in use is the same
whether or not there has been another behind it. -/
theorem free_order_irrelevant_neighbours :
    (∃ c s₁ s₂ l, served [.kmalloc 100, .kmalloc 200, .kmalloc 300] = some c ∧
      freeAll countingMachine c.mem [kernelBase + 24, kernelBase + 148] = some s₁ ∧
      freeAll countingMachine c.mem [kernelBase + 148, kernelBase + 24] = some s₂ ∧
      blockList countingMachine s₁ = some l ∧ blockList countingMachine s₂ = some l) ∧
    ∃ c c' l, served [.kmalloc 100, .kmalloc 200, .kfree (kernelBase + 24)] = some c ∧
      served [.kmalloc 100, .kmalloc 200, .kmalloc 300, .kfree (kernelBase + 372),
        .kfree (kernelBase + 24)] = some c' ∧
      blockList countingMachine c.mem = some l ∧ blockList countingMachine c'.mem = some l := by
  have hunused : Unused (MemState.initVmm (⟨0, fun _ => 0⟩ : FlatState Nat)) := unused_initVmm _
  constructor
  · obtain ⟨c, hserved, hlive⟩ := Option.map_eq_some_iff.mp served_three
    have hrun := run_of_requests (by decide) hserved
    obtain ⟨s₁, s₂, l, hfree₁, hfree₂, hlist₁, hlist₂⟩ := (free_order_irrelevant countingMapper
      countingMapper_lawful (fun _ _ _ => 0) (stopsAt_flat countingMapper_stops) _ trivial hunused c
      hrun).1 [kernelBase + 24, kernelBase + 148] [kernelBase + 148, kernelBase + 24] (by decide)
      (by rw [hlive]; decide) (by decide)
    exact ⟨c, s₁, s₂, l, hserved, hfree₁, hfree₂, hlist₁, hlist₂⟩
  · obtain ⟨c, hserved, hc⟩ := Option.map_eq_some_iff.mp served_gap
    obtain ⟨c', hserved', hc'⟩ := Option.map_eq_some_iff.mp served_gap_behind
    simp only [Client.summary, Prod.mk.injEq] at hc hc'
    obtain ⟨hlow, hend, hused⟩ := hc
    obtain ⟨hlow', hend', hused'⟩ := hc'
    obtain ⟨l, l', hlist, hlist', hsame⟩ := (free_order_irrelevant countingMapper
      countingMapper_lawful (fun _ _ _ => 0) (stopsAt_flat countingMapper_stops) _ trivial hunused c
      (run_of_requests (by decide) hserved)).2 _ c' trivial hunused
      (run_of_requests (by decide) hserved') (hlow'.trans hlow.symm) (hend'.trans hend.symm)
    change blockList countingMachine c.mem = some l at hlist
    change blockList countingMachine c'.mem = some l' at hlist'
    rw [hlist, Option.map_some, Option.some.injEq] at hused
    rw [hlist', Option.map_some, Option.some.injEq] at hused'
    rw [← hsame (by rw [hused, hused']; exact fun _ => Iff.rfl)] at hlist'
    exact ⟨c, c', l, hserved, hserved', hlist, hlist'⟩

end Kaviz.Heap
