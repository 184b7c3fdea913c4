import Kaviz.Heap.Canonical
import Kaviz.Memory.Physical

/-! # Runs on the tables of the kernel

The states clients reach from boot with the four-level tables behind the heap. At
boot the upper half of the address space has no tables, so that all of them come
from the pool and no assumption about `map_page` is left to make.
-/

namespace Kaviz.Heap

open Bytes Memory Paging Relation

variable {σ : Type} {M : Machine σ} {L : Lawful M}

/-! ## Sizes -/

/-- All sizes are multiples of four, as `kmalloc` rounds them. -/
def Rounded (bs : List Block) : Prop := ∀ b ∈ bs, b.size % 4 = 0

section Rounding

variable {bs bs' pre post : List Block} {b : Block}

theorem Rounded.opened (h : Rounded bs) : Rounded (opened bs) := by
  unfold Heap.opened
  split
  · intro b hb
    rw [List.mem_singleton.mp hb]
    rfl
  · exact h

theorem Rounded.take {n : Nat} (hb : b.size % 4 = 0) (hn : n % 4 = 0) : Rounded (b.take n) := by
  intro c hc
  unfold Block.take at hc
  split at hc
  · rw [List.mem_singleton.mp hc]
    exact hb
  · simp only [List.mem_cons, List.not_mem_nil, or_false] at hc
    rcases hc with rfl | rfl
    · exact hn
    · dsimp only
      omega

theorem Rounded.absorb (hb : b.size % 4 = 0) (h : Rounded post) : Rounded (b.absorb post) := by
  intro d hd
  cases post with
  | nil =>
      rw [List.mem_singleton.mp hd]
      exact hb
  | cons c post =>
      have hc := h c List.mem_cons_self
      rw [Block.absorb] at hd
      split at hd
      · rcases List.mem_cons.mp hd with rfl | hd
        · dsimp only
          omega
        · exact h d (List.mem_cons_of_mem _ hd)
      · rcases List.mem_cons.mp hd with rfl | hd
        · exact hb
        · exact h d hd

theorem rounded_append : Rounded (pre ++ post) ↔ Rounded pre ∧ Rounded post :=
  List.forall_mem_append

theorem rounded_cons : Rounded (b :: post) ↔ b.size % 4 = 0 ∧ Rounded post :=
  List.forall_mem_cons

theorem Rounded.release (h : Rounded (pre ++ b :: post)) : Rounded (release pre b post) := by
  rw [rounded_append, rounded_cons] at h
  obtain ⟨hpre, hb, hpost⟩ := h
  have hfreed : Rounded (Block.absorb { b with free := true } post) := Rounded.absorb hb hpost
  rcases release_cases pre b post with ⟨heq, -⟩ | ⟨pre', p, rfl, -, heq⟩
  · rw [heq, rounded_append]
    exact ⟨hpre, hfreed⟩
  · rw [rounded_append, rounded_cons] at hpre
    rw [heq, rounded_append]
    exact ⟨hpre.1, Rounded.absorb hpre.2.1 hfreed⟩

theorem roundSize_mod (size : Nat) : roundSize size % 4 = 0 := by
  unfold roundSize
  omega

theorem Rounded.reshapes (h : Rounded bs) (hshape : Reshapes bs bs') : Rounded bs' := by
  cases hshape with
  | same => exact h
  | opens => exact h.opened
  | @allocates size p _ hsize halloc =>
      obtain ⟨pre, b, post, -, -, -, rfl, ⟨hlist, -⟩ | ⟨rfl, rfl, rfl, -⟩⟩ := halloc
      · have hopened := h.opened
        rw [hlist, rounded_append, rounded_cons] at hopened
        rw [rounded_append, rounded_append]
        exact ⟨hopened.1, Rounded.take hopened.2.1 (roundSize_mod size), hopened.2.2⟩
      · rw [rounded_append, rounded_append]
        refine ⟨h.opened, Rounded.take ?_ (roundSize_mod size), by simp [Rounded]⟩
        dsimp only
        omega
  | releases hbs =>
      subst hbs
      exact h.release

theorem Rounded.run (h : Rounded bs) (hshapes : ReflTransGen Reshapes bs bs') : Rounded bs' := by
  induction hshapes with
  | refl => exact h
  | tail _ hshape ih => exact ih.reshapes hshape

end Rounding

/-! ## The machine -/

/-- Some page below the heap limit is never mapped. -/
theorem flat_stops (junk : FlatState PageTables → Nat → Mem) :
    StopsAt (flat_lawful junk kernelTables_lawful) kernelBase (heapLimit + 1) := by
  intro s p f hok hfull
  obtain ⟨a, hlo, hhi, hnone⟩ := tables_stop hok.1 hok.2
  have hload := hfull a hlo hhi
  simp [flat, FlatState.Accessible, tableMapper, hnone] at hload

/-- The clients got here from boot. -/
def Reached (junk : FlatState PageTables → Nat → Mem) (c : Client (FlatState PageTables)) : Prop :=
  ∃ s, Unused s ∧ s.mach.tables.WellFormed ∧ s.mach.tables.FromPool UpperHalf ∧
    ReflTransGen (ClientStep (flat tableMapper junk)) ⟨s, []⟩ c

/-- What a run leaves: the invariant of the clients, with rounded sizes. -/
structure ReachedInv (junk : FlatState PageTables → Nat → Mem) (c : Client (FlatState PageTables))
    (bs : List Block) : Prop where
  inv : ClientInv (flat_lawful junk kernelTables_lawful) c bs
  rounded : Rounded bs

theorem Reached.inv {junk : FlatState PageTables → Nat → Mem} {c : Client (FlatState PageTables)}
    (h : Reached junk c) : ∃ bs, ReachedInv junk c bs := by
  obtain ⟨s, hs, hwf, hpool, hrun⟩ := h
  have hok : kernelTables_lawful.Ok s.mach.tables := ⟨hwf, hpool⟩
  have hstart := clientInv_unused junk hok hs
  obtain ⟨bs, hshapes, hinv⟩ := hstart.run (fun _ _ => trivial) (flat_stops junk) hrun
  have hnil : Rounded [] := by simp [Rounded]
  exact ⟨bs, hinv, hnil.run hshapes⟩

/-! ## Room for the heap -/

section Room

variable {junk : FlatState PageTables → Nat → Mem} {s : MemState (FlatState PageTables)}
variable {f : Nat}

theorem mapPages_add {σ : Type} (M : Machine σ) (f base i n k : Nat) (s : MemState σ) :
    s.mapPages M f base i (n + k) =
      match s.mapPages M f base i n with
      | (true, s) => s.mapPages M f base (i + n) k
      | (false, s) => (false, s) := by
  induction n generalizing i s with
  | zero => rw [Nat.zero_add, MemState.mapPages, Nat.add_zero]
  | succ n ih =>
      rw [Nat.add_right_comm, MemState.mapPages, MemState.mapPages]
      cases s.mapFresh M ((base + 4096 * i) % 2 ^ 64) f with
      | mk done s =>
          cases done with
          | false => rfl
          | true =>
              dsimp only
              rw [ih, Nat.add_assoc i 1 n, Nat.add_comm 1 n]

theorem mapFresh_ok {τ : Type} (P : Mapper τ) (junk : FlatState τ → Nat → Mem)
    {s : MemState (FlatState τ)} {v : Nat} (hal : s.nextFreePage % 4096 = 0)
    (hpos : 0 < s.nextFreePage) (hbound : s.nextFreePage + 4096 < 2 ^ 64)
    (hok : (P.mapPage s.mach.tables v s.nextFreePage f).1 = 0) :
    ∃ s', s.mapFresh (flat P junk) v f = (true, s') ∧
      s'.mach.tables = (P.mapPage s.mach.tables v s.nextFreePage f).2 ∧
      s'.nextFreePage = s.nextFreePage + 4096 := by
  have hnext : (s.nextFreePage + 4096) % 2 ^ 64 = s.nextFreePage + 4096 := Nat.mod_eq_of_lt hbound
  unfold MemState.mapFresh
  rw [alloc_eq s hal (by omega), hnext]
  dsimp only
  rw [if_neg hpos.ne']
  exact ⟨_, Prod.ext (decide_eq_true hok) rfl, rfl, rfl⟩

set_option maxRecDepth 20000 in
/-- Pages below one page table are mapped when the tables missing can be supplied. -/
theorem mapPages_supplied (junk : FlatState PageTables → Nat → Mem) (base i n m : Nat)
    (hf : f < 4096) (hwf : s.mach.tables.WellFormed)
    (hal : s.nextFreePage % 4096 = 0) (hpos : 0 < s.nextFreePage)
    (hbound : s.nextFreePage + 4096 * n < 2 ^ 64)
    (hpath : ∀ j, j < n → tablePath (pageNumber ((base + 4096 * (i + j)) % 2 ^ 64)) = tablePath m)
    (hroom : s.mach.tables.missingTables m ≤ s.mach.tables.freeTables) :
    ∃ s', s.mapPages (flat tableMapper junk) f base i n = (true, s') ∧
      s'.mach.tables.WellFormed ∧ s'.nextFreePage = s.nextFreePage + 4096 * n ∧
      s.mach.tables.freeTables ≤ s'.mach.tables.freeTables + s.mach.tables.missingTables m := by
  induction n generalizing i s with
  | zero => exact ⟨s, rfl, hwf, rfl, Nat.le_add_right _ _⟩
  | succ n ih =>
      have hfirst := hpath 0 (Nat.succ_pos n)
      rw [Nat.add_zero] at hfirst
      generalize hv : (base + 4096 * i) % 2 ^ 64 = v at hfirst
      have hmissing : s.mach.tables.missingTables (pageNumber v) = s.mach.tables.missingTables m := by
        rw [PageTables.missingTables, hfirst]
        rfl
      have hroom' : s.mach.tables.missingTables (pageNumber v) ≤ s.mach.tables.freeTables := by
        rw [hmissing]
        exact hroom
      have hmapper : tableMapper.mapPage = PageTables.mapPage := by dsimp only [tableMapper]
      have hok : (tableMapper.mapPage s.mach.tables v s.nextFreePage f).1 = 0 := by
        rw [hmapper]
        exact (PageTables.mapPage_ok_iff hwf).mpr hroom'
      have hnextBound : s.nextFreePage + 4096 < 2 ^ 64 := by omega
      have hframe : s.nextFreePage < 2 ^ 64 := by omega
      obtain ⟨hzero, hfree, -⟩ := PageTables.mapPage_supplied hwf hframe hf hroom'
      have hwf₁ := (PageTables.mapPage_spec (v := v) hwf hframe hf).1
      obtain ⟨s₁, hone, htables, hnext⟩ := mapFresh_ok tableMapper junk hal hpos hnextBound hok
      rw [hmapper] at htables
      rw [← htables] at hzero hfree hwf₁
      rw [hmissing] at hfree
      have hzero' : s₁.mach.tables.missingTables m = 0 := by
        rw [PageTables.missingTables, hfirst] at hzero
        exact hzero
      obtain ⟨s₂, hrest, hwf₂, hnext₂, hfree₂⟩ := ih (i + 1) hwf₁ (by omega) (by omega)
        (by omega) (fun j hj => by rw [Nat.add_right_comm, Nat.add_assoc]; exact hpath (j + 1) (by omega))
        (by omega)
      refine ⟨s₂, ?_, hwf₂, by omega, by omega⟩
      rw [MemState.mapPages, hv, hone]
      exact hrest

/-- The heap of 4 MiB needs two page tables and what leads to them. -/
theorem heap_supplied (hwf : s.mach.tables.WellFormed) (hal : s.nextFreePage % 4096 = 0)
    (hpos : 0 < s.nextFreePage) (hbound : s.nextFreePage + 2 ^ 22 < 2 ^ 64)
    (hroom : 6 ≤ s.mach.tables.freeTables) :
    (s.mapPages (flat tableMapper junk) heapFlags kernelBase 0 1024).1 = true := by
  have hthree : ∀ (t : PageTables) (k : Nat), t.missingTables k ≤ 3 := fun t k =>
    Radix.missing_le t.childTable t.pml4 (tablePath k)
  have hpath : ∀ i, i < 1024 → tablePath (pageNumber ((kernelBase + 4096 * i) % 2 ^ 64)) =
      tablePath (2 ^ 35 + i / 512 * 512) := by
    intro i hi
    have hstart : kernelBase = 4096 * (2 ^ 52 - 2 ^ 35) := by decide
    have hpage : pageNumber ((kernelBase + 4096 * i) % 2 ^ 64) = 2 ^ 35 + i := by
      unfold pageNumber
      omega
    rw [hpage]
    unfold tablePath
    congr 1
    · omega
    · congr 1
      · omega
      · congr 1
        omega
  obtain ⟨s₁, hrun₁, hwf₁, hnext₁, hfree₁⟩ := mapPages_supplied junk kernelBase 0 512 (2 ^ 35)
    (f := heapFlags) (by decide) hwf hal hpos (by omega)
    (fun j hj => by
      have hregion : (0 + j) / 512 = 0 := by omega
      rw [hpath (0 + j) (by omega), hregion, Nat.zero_mul, Nat.add_zero])
    (Nat.le_trans (hthree _ _) (by omega))
  have hleft := hthree s.mach.tables (2 ^ 35)
  obtain ⟨s₂, hrun₂, -⟩ := mapPages_supplied junk kernelBase 512 512 (2 ^ 35 + 512)
    (f := heapFlags) (by decide) hwf₁ (by omega) (by omega) (by omega)
    (fun j hj => by
      have hregion : (512 + j) / 512 = 1 := by omega
      rw [hpath (512 + j) (by omega), hregion, Nat.one_mul])
    (Nat.le_trans (hthree _ _) (by omega))
  rw [show (1024 : Nat) = 512 + 512 from rfl, mapPages_add, hrun₁]
  dsimp only
  rw [Nat.zero_add, hrun₂]

/-- The first request that fits into the new heap is served from its start. -/
theorem first_kmalloc {junk : FlatState PageTables → Nat → Mem} (hs : Unused s) (hwf : s.mach.tables.WellFormed)
    (hpool : s.mach.tables.FromPool UpperHalf) (hpos : 0 < s.nextFreePage)
    (hbound : s.nextFreePage + 2 ^ 22 < 2 ^ 64) (hroom : 6 ≤ s.mach.tables.freeTables) {size : Nat}
    (hround : roundSize size ≤ 4 * 1024 * 1024 - 24) :
    ∃ s', kmalloc (flat tableMapper junk) s size = some (kernelBase + 24, s') := by
  have hok : kernelTables_lawful.Ok s.mach.tables := ⟨hwf, hpool⟩
  have hempty := clientInv_unused junk hok hs
  have hloop : (s.mapPages (flat tableMapper junk) heapFlags kernelBase 0 1024).1 = true :=
    heap_supplied hwf hs.aligned hpos hbound hroom
  obtain ⟨s₀, hrun⟩ : ∃ s₀, s.mapPages (flat tableMapper junk) heapFlags kernelBase 0 1024 =
      (true, s₀) := ⟨_, Prod.ext hloop rfl⟩
  obtain ⟨s₁, hinit, hrep, -⟩ := initHeap_mapped hempty.heap hempty.frames hrun
  have hbest : bestFit (roundSize size) (placed kernelBase (opened [])) =
      some (kernelBase, ⟨4 * 1024 * 1024 - 24, true⟩) := by
    simp [bestFit, opened, placed, improve, Fits, hround]
  obtain ⟨pre, b, post, s', m, -, hx, -, hret, -⟩ := kmalloc_fits hrep (opened_ne_nil []) hbest
  obtain ⟨haddr, -⟩ := Prod.mk.inj hx
  rw [← haddr] at hret
  exact ⟨s', (kmalloc_opened hinit (hrep.first_ne_zero (opened_ne_nil []))).trans hret⟩

end Room

def bootFlat : FlatState PageTables := ⟨emptyTree, fun _ => 0⟩

theorem emptyTree_fromPool : emptyTree.FromPool UpperHalf := by
  rintro path table ⟨i, rest, rfl, -⟩ - h
  cases (emptyTree_tableAt h).1

theorem boot_start (junk : FlatState PageTables → Nat → Mem) :
    Reached junk ⟨MemState.initVmm bootFlat, []⟩ :=
  ⟨_, unused_initVmm bootFlat, emptyTree_wellFormed, emptyTree_fromPool, .refl⟩

/-- At boot the 4 MiB of the heap can be mapped. -/
theorem boot_heap_supplied (junk : FlatState PageTables → Nat → Mem) :
    ((MemState.initVmm bootFlat).mapPages (flat tableMapper junk) heapFlags kernelBase 0 1024).1 =
      true := by
  refine heap_supplied emptyTree_wellFormed ?_ ?_ ?_ ?_ <;> decide

theorem boot_kmalloc (junk : FlatState PageTables → Nat → Mem) :
    ∃ s, kmalloc (flat tableMapper junk) (MemState.initVmm bootFlat) 100 =
      some (kernelBase + 24, s) := by
  have hround : roundSize 100 ≤ 4 * 1024 * 1024 - 24 := by decide
  exact first_kmalloc (unused_initVmm bootFlat) emptyTree_wellFormed emptyTree_fromPool (by decide)
    (by decide) (by decide) hround

theorem boot_reached (junk : FlatState PageTables → Nat → Mem) : ∃ s, s.heapFirstBlock ≠ 0 ∧
    Reached junk ⟨s, [(kernelBase + 24, 100)]⟩ := by
  obtain ⟨s, hret⟩ := boot_kmalloc junk
  have hstep := ClientStep.kmalloc (c := ⟨MemState.initVmm bootFlat, []⟩) (by decide) hret
  rw [if_neg (by decide)] at hstep
  have hreached : Reached junk ⟨s, [(kernelBase + 24, 100)]⟩ :=
    ⟨_, unused_initVmm bootFlat, emptyTree_wellFormed, emptyTree_fromPool, .single hstep⟩
  obtain ⟨bs, hinv, -⟩ := hreached.inv
  refine ⟨s, hinv.heap.first_ne_zero ?_, hreached⟩
  rintro rfl
  have hmem := (hinv.live.mem_iff (kernelBase + 24)).mp (by simp)
  simp [used, placed] at hmem

end Kaviz.Heap
