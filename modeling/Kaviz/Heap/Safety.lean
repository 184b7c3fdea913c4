import Kaviz.Heap.Clients

/-! # Heap shape and client safety over whole runs

The results for clients of the allocator, on memory behind any page map. Nothing
is assumed about when `map_page` succeeds, except that it fails above the heap
limit.
-/

namespace Kaviz.Heap

open Bytes Memory Paging Relation

variable {σ τ : Type}

structure Unused (s : MemState σ) : Prop where
  first : s.heapFirstBlock = 0
  start : s.heapStart = kernelBase
  end_eq : s.heapEnd = kernelBase
  aligned : s.nextFreePage % 4096 = 0
  bound : s.nextFreePage < 2 ^ 64

theorem unused_initVmm (x : σ) : Unused (MemState.initVmm x) :=
  ⟨rfl, rfl, rfl, by simp [MemState.initVmm], by simp [MemState.initVmm]⟩

/-- `map_page` fails for every address above `heap_max`. -/
def StopsAboveHeap (P : Mapper τ) (hP : P.Lawful) : Prop :=
  ∀ t v p f, hP.Ok t → heapLimit < v → v < 2 ^ 64 → (P.mapPage t v p f).1 ≠ 0

/-- The list is null, or blocks tile the heap, linked in address order, with no
two neighbours free; without live pointers there is a single free block. -/
def HeapShape (M : Machine σ) (c : Client σ) : Prop :=
  (c.mem.heapFirstBlock = 0 ∧ c.mem.heapEnd = c.mem.heapStart) ∨
  (c.mem.heapFirstBlock = c.mem.heapStart ∧ ∃ bs : List Block, bs ≠ [] ∧
    Mapped M c.mem.mach c.mem.heapStart c.mem.heapEnd ∧
    Layout (view M c.mem.mach) c.mem.heapStart bs ∧
    c.mem.heapStart + span bs = c.mem.heapEnd ∧ NoAdjacentFree bs ∧
    (c.live = [] → ∃ size, bs = [⟨size, true⟩]))

/-- What clients may rely on, for the block list `bs` found in memory. -/
structure ClientSafe (P : Mapper τ) (junk : FlatState τ → Nat → Mem) (c : Client (FlatState τ))
    (bs : List Block) : Prop where
  list : c.mem.heapFirstBlock = link c.mem.heapStart bs ∧
    Layout (view (flat P junk) c.mem.mach) c.mem.heapStart bs
  live_iff : ∀ p, p ∈ c.live.map Prod.fst ↔
    ∃ h b, (h, b) ∈ placed c.mem.heapStart bs ∧ b.free = false ∧ p = h + 24
  nodup : (c.live.map Prod.fst).Nodup
  capacity : ∀ p n, (p, n) ∈ c.live → ∃ cap, (p, cap) ∈ used c.mem.heapStart bs ∧ n ≤ cap ∧
    c.mem.heapStart ≤ p ∧ p + cap ≤ c.mem.heapEnd
  mapped : ∀ x, c.mem.heapStart ≤ x → x < c.mem.heapEnd → ∃ frame,
    P.translate c.mem.mach.tables (pageNumber x) = some (frame, pagePresent ||| pageWritable)
  payloads_apart : ∀ p cap q cap', (p, cap) ∈ used c.mem.heapStart bs →
    (q, cap') ∈ used c.mem.heapStart bs → p ≠ q → p + cap ≤ q ∨ q + cap' ≤ p
  headers_apart : ∀ p cap h b, (p, cap) ∈ used c.mem.heapStart bs →
    (h, b) ∈ placed c.mem.heapStart bs → h + 24 ≤ p ∨ p + cap ≤ h
  kmalloc_quiet : ∀ size p s, size ≤ 2 ^ 63 →
    kmalloc (flat P junk) c.mem size = some (p, s) →
    Untouched (flat P junk) c.mem s (PayloadByte bs)
  kfree_quiet : ∀ p s, (p = 0 ∨ p ∈ c.live.map Prod.fst) →
    kfree (flat P junk) c.mem p = some s → Untouched (flat P junk) c.mem s (PayloadByte bs)

section Runs

variable {P : Mapper τ} {hP : P.Lawful} {junk : FlatState τ → Nat → Mem}
variable {s : MemState (FlatState τ)}

theorem stopsAt_flat (hstop : StopsAboveHeap P hP) :
    StopsAt (flat_lawful junk hP) kernelBase (heapLimit + 1) :=
  fun x p f hok _ => hstop x.tables _ p f hok (Nat.lt_succ_self _) (by decide)

theorem clientInv_unused (junk : FlatState τ → Nat → Mem) (hok : hP.Ok s.mach.tables) (hs : Unused s) :
    ClientInv (flat_lawful junk hP) ⟨s, []⟩ [] := by
  have hend : s.heapEnd = kernelBase := hs.end_eq
  refine ⟨⟨hok, hs.start, hs.first, hend, ?_, ?_, trivial, fun x hlo hhi => ?_⟩,
    ⟨hs.aligned, hs.bound, fun _ _ _ _ _ => trivial⟩, List.isChain_nil, ⟨?_, ?_, ?_⟩⟩
  · dsimp only
    rw [hend]
    decide
  · dsimp only
    rw [hend]
    decide
  · dsimp only at hhi
    omega
  · simp [used, placed]
  · simp
  · simp

theorem ClientInv.heapShape {M : Machine σ} {L : Lawful M} {c : Client σ} {bs : List Block}
    (h : ClientInv L c bs) : HeapShape M c := by
  have hrep := h.heap
  have hstart := hrep.start
  have hfirst := hrep.first
  have hend := hrep.end_eq
  by_cases hbs : bs = []
  · subst hbs
    exact Or.inl ⟨hfirst, by rw [hend, hstart]; rfl⟩
  · rw [link_ne_nil hbs] at hfirst
    refine Or.inr ⟨by rw [hfirst, hstart], bs, hbs, ?_, ?_, by rw [hstart, hend], h.separated,
      fun hnone => single_of_used_nil (a := kernelBase) hbs h.separated ?_⟩
    · rw [hstart, hend]
      exact hrep.holds.mapped
    · rw [hstart]
      exact hrep.layout
    · -- Nothing is live, so no block is in use.
      refine List.eq_nil_iff_forall_not_mem.mpr fun x hx => ?_
      have := (h.live.mem_iff x.1).mpr (List.mem_map_of_mem hx)
      simp [hnone] at this

theorem ClientInv.clientSafe {c : Client (FlatState τ)} {bs : List Block}
    (h : ClientInv (flat_lawful junk hP) c bs) (hstop : StopsAboveHeap P hP) :
    ClientSafe P junk c bs := by
  have hrep := h.heap
  have hend := hrep.end_eq
  have hstart := hrep.start
  refine ⟨?_, fun p => ?_, h.live.nodup, fun p n hmem => ?_, fun x hlo hhi => ?_,
    fun p cap q cap' hp hq hne => ?_, fun p cap a b hp ha => ?_, fun size p s hsize hret => ?_,
    fun p s hp hret => ?_⟩
  · rw [hstart]
    exact ⟨hrep.first, hrep.layout⟩
  · rw [h.live.mem_iff, hstart]
    constructor
    · intro hp
      obtain ⟨⟨q, cap⟩, hmem, rfl⟩ := List.mem_map.mp hp
      obtain ⟨a, b, hplaced, hb, heq, -⟩ := mem_used.mp hmem
      exact ⟨a, b, hplaced, hb, heq⟩
    · rintro ⟨a, b, hplaced, hb, rfl⟩
      exact List.mem_map.mpr ⟨_, mem_used.mpr ⟨a, b, hplaced, hb, rfl, rfl⟩, rfl⟩
  · obtain ⟨cap, hmem, hn⟩ := h.live.capacity p n hmem
    obtain ⟨a, b, hplaced, -, rfl, rfl⟩ := mem_used.mp hmem
    have hb := placed_bounds hplaced
    rw [hstart]
    exact ⟨b.size, hmem, hn, by omega, by omega⟩
  · rw [hstart] at hlo
    have hflags := hrep.flags x hlo hhi
    dsimp only [flat_lawful] at hflags
    split at hflags
    · obtain ⟨⟨frame, f⟩, htr, hf⟩ := Option.map_eq_some_iff.mp hflags
      dsimp only at hf
      exact ⟨frame, by rw [htr, hf]; rfl⟩
    · cases hflags
  · rw [hstart] at hp hq
    obtain ⟨a, b, hplaced, -, rfl, rfl⟩ := mem_used.mp hp
    obtain ⟨a', b', hplaced', -, rfl, rfl⟩ := mem_used.mp hq
    rcases placed_apart hplaced hplaced' with ⟨rfl, rfl⟩ | hapart
    · exact absurd rfl hne
    · omega
  · rw [hstart] at hp ha
    obtain ⟨a', b', hplaced, -, rfl, rfl⟩ := mem_used.mp hp
    rcases placed_apart hplaced ha with ⟨rfl, rfl⟩ | hapart
    · omega
    · omega
  · obtain ⟨p', s', hret', hunt, -⟩ := h.kmalloc (fun _ _ => trivial) (stopsAt_flat hstop)
      (le_sizeLimit hsize)
    cases hret.symm.trans hret'
    exact hunt
  · obtain ⟨s', hret', hunt, -⟩ := h.kfree hp
    cases hret.symm.trans hret'
    exact hunt

/-- In every state of every run the block list has its shape, and every further
call returns. -/
theorem heap_shape_of_run (P : Mapper τ) (hP : P.Lawful) (junk : FlatState τ → Nat → Mem)
    (hstop : StopsAboveHeap P hP) (s : MemState (FlatState τ)) (hok : hP.Ok s.mach.tables)
    (hs : Unused s) (c : Client (FlatState τ))
    (hrun : ReflTransGen (ClientStep (flat P junk)) ⟨s, []⟩ c) :
    HeapShape (flat P junk) c ∧
      (∀ size, size ≤ 2 ^ 63 → (kmalloc (flat P junk) c.mem size).isSome) ∧
      ∀ p, (p = 0 ∨ p ∈ c.live.map Prod.fst) → (kfree (flat P junk) c.mem p).isSome := by
  obtain ⟨bs, -, hinv⟩ := (clientInv_unused junk hok hs).run (fun _ _ => trivial)
    (stopsAt_flat hstop) hrun
  refine ⟨hinv.heapShape, fun size hsize => ?_, fun p hp => ?_⟩
  · obtain ⟨p, t, hret, -⟩ := hinv.kmalloc (fun _ _ => trivial) (stopsAt_flat hstop)
      (le_sizeLimit hsize)
    rw [hret]
    rfl
  · obtain ⟨t, hret, -⟩ := hinv.kfree hp
    rw [hret]
    rfl

/-- A `map_page` that succeeds below the heap limit and fails above it. -/
def boundedMapper : Mapper PageMap where
  translate := id
  mapPage m v p f :=
    if v ≤ heapLimit then (0, m.update (pageNumber v) (some (pageAlign p, f ||| pagePresent)))
    else (-1, m)

def boundedMapper_lawful : boundedMapper.Lawful where
  Ok _ := True
  map_spec := by
    intro m v p f _ _ _
    by_cases hv : v ≤ heapLimit <;> simp [boundedMapper, hv]

theorem boundedMapper_stops : StopsAboveHeap boundedMapper boundedMapper_lawful := by
  intro m v p f _ hv _
  simp [boundedMapper, Nat.not_le.mpr hv]

def emptyFlat : FlatState PageMap := ⟨fun _ => none, fun _ => 0⟩

def boundedMachine : Machine (FlatState PageMap) := flat boundedMapper fun _ _ _ => 0

theorem kmalloc_boundedMachine :
    (kmalloc boundedMachine (MemState.initVmm emptyFlat) 100).map Prod.fst =
      some (kernelBase + 24) := by
  decide +kernel

theorem run_kmalloc_boundedMachine : ∃ s, ReflTransGen (ClientStep boundedMachine)
    ⟨MemState.initVmm emptyFlat, []⟩ ⟨s, [(kernelBase + 24, 100)]⟩ := by
  obtain ⟨⟨p, s⟩, hret, hp⟩ := Option.map_eq_some_iff.mp kmalloc_boundedMachine
  dsimp only at hp
  subst hp
  have hstep := ClientStep.kmalloc (c := ⟨MemState.initVmm emptyFlat, []⟩) (by decide) hret
  rw [if_neg (by decide)] at hstep
  exact ⟨s, ReflTransGen.single hstep⟩

theorem heap_shape_after_free : ∃ s, ReflTransGen (ClientStep boundedMachine)
      ⟨MemState.initVmm emptyFlat, []⟩ ⟨s, []⟩ ∧ HeapShape boundedMachine ⟨s, []⟩ := by
  obtain ⟨s, hrun⟩ := run_kmalloc_boundedMachine
  have hreturns := (heap_shape_of_run boundedMapper boundedMapper_lawful _ boundedMapper_stops _
    trivial (unused_initVmm emptyFlat) _ hrun).2.2 (kernelBase + 24) (Or.inr (by simp))
  obtain ⟨s', hfree⟩ := Option.isSome_iff_exists.mp hreturns
  have hrun' : ReflTransGen (ClientStep boundedMachine) ⟨MemState.initVmm emptyFlat, []⟩ ⟨s', []⟩ := by
    simpa using hrun.tail (ClientStep.kfree (Or.inr (by simp)) hfree)
  exact ⟨s', hrun', (heap_shape_of_run boundedMapper boundedMapper_lawful _ boundedMapper_stops _
    trivial (unused_initVmm emptyFlat) _ hrun').1⟩

/-- In every state of every run live allocations are disjoint, large enough,
mapped, and left alone by the allocator. -/
theorem clients_safe_of_run (P : Mapper τ) (hP : P.Lawful) (junk : FlatState τ → Nat → Mem)
    (hstop : StopsAboveHeap P hP) (s : MemState (FlatState τ)) (hok : hP.Ok s.mach.tables)
    (hs : Unused s) (c : Client (FlatState τ))
    (hrun : ReflTransGen (ClientStep (flat P junk)) ⟨s, []⟩ c) : ∃ bs, ClientSafe P junk c bs := by
  obtain ⟨bs, -, hinv⟩ := (clientInv_unused junk hok hs).run (fun _ _ => trivial)
    (stopsAt_flat hstop) hrun
  exact ⟨bs, hinv.clientSafe hstop⟩

theorem clients_safe_after_kmalloc : ∃ s bs, ReflTransGen (ClientStep boundedMachine)
      ⟨MemState.initVmm emptyFlat, []⟩ ⟨s, [(kernelBase + 24, 100)]⟩ ∧
      ClientSafe boundedMapper (fun _ _ _ => 0) ⟨s, [(kernelBase + 24, 100)]⟩ bs := by
  obtain ⟨s, hrun⟩ := run_kmalloc_boundedMachine
  obtain ⟨bs, hsafe⟩ := clients_safe_of_run boundedMapper boundedMapper_lawful _
    boundedMapper_stops _ trivial (unused_initVmm emptyFlat) _ hrun
  exact ⟨s, bs, hrun, hsafe⟩

end Runs

end Kaviz.Heap
