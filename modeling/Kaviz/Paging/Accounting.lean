import Mathlib.Data.Set.Card
import Kaviz.Paging.Pool
import Kaviz.Paging.Tlb

/-! # Accounting of the bootstrap pool

`map_page` takes one table at a time from the pool and links it before it takes
the next one. Every table below `bootstrap_memory_used` is therefore reached from
the root, also when a later level of the same call fails, and a page finds no
room exactly when its path misses more tables than are left.
-/

namespace Kaviz.Paging

open Bytes Radix Runs

namespace PageTables

/-- The tables of the tree that lie in the pool. -/
def poolTables (t : PageTables) : Set Nat :=
  {x | t.poolBase ≤ x ∧ x < t.poolBase + poolSize ∧
    ∃ path, Within 512 3 path ∧ t.tableAt path = some x}

/-- Entry `e.2` of the directory `e.1` of the tree points to a table. -/
def PointsTo (t : PageTables) (e : Nat × Nat) (x : Nat) : Prop :=
  (∃ path, Within 512 2 path ∧ t.tableAt path = some e.1) ∧ e.2 < 512 ∧
    t.childTable e.1 e.2 = some x

/-- Every table taken from the pool is reached from the root, which lies elsewhere. -/
structure Accounted (t : PageTables) : Prop where
  wf : t.WellFormed
  rootOutside : t.pml4 < t.poolBase ∨ t.poolBase + poolSize ≤ t.pml4
  reached : ∀ k, 4096 * k < t.poolUsed →
    ∃ path, Within 512 3 path ∧ t.tableAt path = some (t.poolBase + 4096 * k)

variable {t t' : PageTables} {path : List Nat} {table i x : Nat}

/-! ## Links and leaf entries -/

/-- A link leaves every table where it was. -/
theorem MissingAt.tableAt_keep (h : t.MissingAt path table i) {p : List Nat} (hp : Within 512 3 p)
    (hx : t.tableAt p = some x) : (t.linkPoolTable table i).tableAt p = some x := by
  have habove : ¬ (path ++ [i]) <+: p := by
    rintro ⟨rest, rfl⟩
    have hreach : walk t.childTable t.pml4 path = some table := h.reached
    have hnone : t.childTable table i = none := if_neg h.absent
    rw [tableAt, walk_append, walk_snoc, hreach, Option.bind_some, hnone] at hx
    cases hx
  rw [← hx, tableAt, link_pml4]
  exact walk_frame h.wf.separated h.within₃ h.reached h.child_agree p hp habove

theorem MissingAt.accounted (h : t.MissingAt path table i) (ht : t.Accounted) :
    (t.linkPoolTable table i).Accounted := by
  refine ⟨h.wellFormed, ?_, ?_⟩
  · rw [link_pml4, link_poolBase]
    exact ht.rootOutside
  · intro k hk
    rw [link_poolUsed] at hk
    rw [link_poolBase]
    have hused := h.wf.usedAligned
    by_cases hold : 4096 * k < t.poolUsed
    · obtain ⟨p, hp, hat⟩ := ht.reached k hold
      exact ⟨p, hp, h.tableAt_keep hp hat⟩
    · have hlast : 4096 * k = t.poolUsed := by omega
      refine ⟨path ++ [i], ⟨?_, ?_⟩, ?_⟩
      · have := h.within.1
        rw [List.length_append, List.length_singleton]
        omega
      · intro j hj
        rcases List.mem_append.mp hj with hj | hj
        · exact h.within.2 j hj
        · rw [List.mem_singleton.mp hj]
          exact h.index
      · rw [hlast]
        exact h.tableAt_link

theorem Accounted.flushTlb (ht : t.Accounted) : t.flushTlb.Accounted :=
  ⟨ht.wf.flushTlb, ht.rootOutside, ht.reached⟩

theorem Linked.accounted {target : List Nat} (h : Linked target t t') (ht : t.Accounted) :
    t'.Accounted := by
  induction h with
  | refl => exact ht
  | link _ hm _ ih => exact (hm.accounted ih).flushTlb

theorem Accounted.setEntry_leaf (ht : t.Accounted) {n e : Nat}
    (htable : t.tableAt (tablePath n) = some table) (hi : i < 512) (he : e < 2 ^ 64) (a : Nat) :
    ((t.setEntry table i e).flushTlbSingle a).Accounted := by
  refine ⟨(ht.wf.setEntry_leaf htable hi he).flushTlbSingle a, ht.rootOutside, ?_⟩
  intro k hk
  obtain ⟨p, hp, hat⟩ := ht.reached k hk
  exact ⟨p, hp, (setEntry_leaf_tableAt ht.wf htable hi he p hp).trans hat⟩

/-! ## The operations -/

theorem Accounted.mapPage {v p f : Nat} (ht : t.Accounted) (hp : p < 2 ^ 64) (hf : f < 2 ^ 64) :
    (t.mapPage v p f).2.Accounted := by
  rcases mapPage_cases (v := v) (p := p) (f := f) ht.wf with
    ⟨t', heq, hlinked, -⟩ | ⟨t', pt, hlinked, hpt, heq⟩
  · rw [heq]
    exact hlinked.accounted ht
  · rw [heq]
    exact (hlinked.accounted ht).setEntry_leaf hpt (Nat.mod_lt _ (by decide))
      (leafEntry_lt_of_lt hp hf) _

theorem Accounted.editLeaf {v : Nat} (ht : t.Accounted) (edit : Nat → Nat)
    (hedit : ∀ e, e < 2 ^ 64 → edit e < 2 ^ 64) : (t.editLeaf v edit).2.Accounted := by
  rcases editLeaf_cases t v edit with ⟨pt, hpt, -, heq⟩ | ⟨-, heq⟩
  · rw [heq]
    exact ht.setEntry_leaf hpt (Nat.mod_lt _ (by decide)) (hedit _ (t.entry_lt _ _)) _
  · rw [heq]
    exact ht

end PageTables

/-- Arguments of the C types. -/
def PageOp.InRange : PageOp → Prop
  | .map _ p f => p < 2 ^ 64 ∧ f < 2 ^ 64
  | .unmap _ => True
  | .setFlags _ f => f < 2 ^ 64

namespace PageTables

variable {t : PageTables}

theorem Accounted.exec (ht : t.Accounted) {op : PageOp} (hop : op.InRange) :
    (t.exec op).2.Accounted := by
  cases op with
  | map v p f =>
      simp only [PageOp.InRange] at hop
      rw [PageTables.exec]
      exact ht.mapPage hop.1 hop.2
  | unmap v =>
      rw [PageTables.exec, unmapPage]
      exact ht.editLeaf _ fun _ _ => by decide
  | setFlags v f =>
      rw [PageTables.exec, setPageFlags]
      exact ht.editLeaf _ fun e he => leafEntry_lt_of_lt he hop

theorem Accounted.run (ht : t.Accounted) {ops : List PageOp} (hops : ∀ op ∈ ops, op.InRange) :
    (Runs.run PageTables.exec t ops).2.Accounted := by
  induction ops generalizing t with
  | nil => exact ht
  | cons op ops ih =>
      rw [List.forall_mem_cons] at hops
      exact ih (ht.exec hops.1) hops.2

theorem accounted_start (hwf : t.WellFormed) (hempty : t.poolUsed = 0) : t.Accounted := by
  refine ⟨hwf, ?_, ?_⟩
  · have hout := hwf.outsidePool [] t.pml4 ⟨by simp, by simp⟩ rfl
    omega
  · intro k hk
    omega

/-! ## Counting -/

/-- The pool tables in the tree are the slots handed out. -/
theorem Accounted.poolTables_eq (ht : t.Accounted) :
    t.poolTables = (fun k => t.poolBase + 4096 * k) '' ↑(Finset.range (t.poolUsed / 4096)) := by
  have hused := ht.wf.usedAligned
  have hbound := ht.wf.usedBound
  ext x
  constructor
  · rintro ⟨hlo, hhi, p, hp, hat⟩
    have hout := ht.wf.outsidePool p x hp hat
    have hal := tableAt_aligned ht.wf hat
    have hbase := ht.wf.poolAligned
    refine ⟨(x - t.poolBase) / 4096, ?_, ?_⟩
    · rw [Finset.mem_coe, Finset.mem_range]
      omega
    · dsimp only
      omega
  · rintro ⟨k, hk, rfl⟩
    rw [Finset.mem_coe, Finset.mem_range] at hk
    refine ⟨by dsimp only; omega, by dsimp only; omega, ?_⟩
    exact ht.reached k (by omega)

theorem Accounted.ncard (ht : t.Accounted) : t.poolTables.ncard = t.poolUsed / 4096 := by
  have hinj : Set.InjOn (fun k => t.poolBase + 4096 * k) ↑(Finset.range (t.poolUsed / 4096)) := by
    intro j _ k _ heq
    dsimp only at heq
    omega
  rw [ht.poolTables_eq, hinj.ncard_image, Set.ncard_coe_finset, Finset.card_range]

/-- One entry of the tree points to a pool table. -/
theorem Accounted.one_entry (ht : t.Accounted) {x : Nat} (hx : x ∈ t.poolTables) :
    ∃! e, t.PointsTo e x := by
  obtain ⟨hlo, hhi, p, hp, hat⟩ := hx
  have hsnoc : ∀ {q : List Nat} {y j : Nat}, t.tableAt q = some y → t.childTable y j = some x →
      t.tableAt (q ++ [j]) = some x := by
    intro q y j hq hchild
    have hreach : walk t.childTable t.pml4 q = some y := hq
    rw [tableAt, walk_snoc, hreach, Option.bind_some, hchild]
  rcases List.eq_nil_or_concat p with rfl | ⟨q, j, rfl⟩
  · have hself : t.tableAt [] = some t.pml4 := rfl
    rw [hself] at hat
    have hx := Option.some.inj hat
    have hroot := ht.rootOutside
    omega
  · rw [List.concat_eq_append] at hp hat
    have hwalk := hat
    rw [tableAt, walk_snoc] at hwalk
    obtain ⟨y, hy, hchild⟩ := Option.bind_eq_some_iff.mp hwalk
    have hlen := hp.1
    rw [List.length_append, List.length_singleton] at hlen
    refine ⟨(y, j), ⟨⟨q, ⟨by omega, hp.of_append.2⟩, hy⟩, hp.last_lt, hchild⟩, ?_⟩
    rintro ⟨y', j'⟩ ⟨⟨q', hq', hy'⟩, hj', hchild'⟩
    have hwithin : Within 512 3 (q' ++ [j']) := by
      refine ⟨?_, ?_⟩
      · have := hq'.1
        rw [List.length_append, List.length_singleton]
        omega
      · intro k hk
        rcases List.mem_append.mp hk with hk | hk
        · exact hq'.2 k hk
        · rw [List.mem_singleton.mp hk]
          exact hj'
    have hpath := ht.wf.separated _ _ x hwithin hp (hsnoc hy' hchild') hat
    obtain ⟨rfl, hlast⟩ := List.append_inj' hpath rfl
    have htable : some y' = some y := hy'.symm.trans hy
    rw [Option.some.inj htable, List.singleton_inj.mp hlast]

theorem Accounted.mapPage_failed_iff (ht : t.Accounted) (v p f : Nat) :
    (t.mapPage v p f).1 = -1 ↔ 16 - t.poolTables.ncard < t.missingTables (pageNumber v) := by
  have hok := mapPage_ok_iff (v := v) (p := p) (f := f) ht.wf
  have hbound := ht.wf.usedBound
  have hused := ht.wf.usedAligned
  have hfree : t.freeTables = 16 - t.poolTables.ncard := by
    rw [ht.ncard, freeTables, poolSize]
    rw [poolSize] at hbound
    omega
  rw [← hfree, ← Nat.not_le, ← hok]
  rcases mapPage_cases (v := v) (p := p) (f := f) ht.wf with ⟨t', heq, -⟩ | ⟨t', pt, -, -, heq⟩
  · simp [heq]
  · simp [heq]

end PageTables

/-- After every run of the paging operations on a tree with an unused pool, the counter
of the pool counts the pool tables in the tree, each of them is behind exactly one
entry, and `map_page` fails exactly when the tables missing exceed those left. -/
theorem pool_accounting (t : PageTables) (hwf : t.WellFormed) (hempty : t.poolUsed = 0)
    (ops : List PageOp) (hops : ∀ op ∈ ops, op.InRange) (t' : PageTables)
    (hrun : (run PageTables.exec t ops).2 = t') :
    t'.poolUsed = 4096 * t'.poolTables.ncard ∧
    (∀ k, 4096 * k < t'.poolUsed → t'.poolBase + 4096 * k ∈ t'.poolTables) ∧
    (∀ x ∈ t'.poolTables, ∃! e, t'.PointsTo e x) ∧
    ∀ v p f, p < 2 ^ 64 → f < 2 ^ 64 → ((t'.mapPage v p f).1 = -1 ↔
      16 - t'.poolTables.ncard < t'.missingTables (pageNumber v)) := by
  have ht : t'.Accounted := hrun ▸ (PageTables.accounted_start hwf hempty).run hops
  have hused := ht.wf.usedAligned
  have hbound := ht.wf.usedBound
  refine ⟨?_, ?_, fun x hx => ht.one_entry hx, fun v p f _ _ => ht.mapPage_failed_iff v p f⟩
  · rw [ht.ncard]
    omega
  · intro k hk
    exact ⟨Nat.le_add_right _ _, by omega, ht.reached k hk⟩

/-- A page mapped in an empty tree takes three tables. -/
theorem pool_accounting_emptyTree :
    (run PageTables.exec emptyTree [.map 0x400123 0x200000 3]).2.poolTables.ncard = 3 := by
  have hused := (pool_accounting emptyTree emptyTree_wellFormed rfl [.map 0x400123 0x200000 3]
    (by simp [PageOp.InRange]) _ rfl).1
  have hmiss : emptyTree.missingTables (pageNumber 0x400123) = 3 := by decide
  have hfree : (emptyTree.mapPage 0x400123 0x200000 3).2.freeTables + _ = emptyTree.freeTables :=
    (PageTables.mapPage_supplied emptyTree_wellFormed (by decide) (by decide)
      (by rw [hmiss]; decide)).2.1
  have hone : ∀ (t : PageTables) (v p f : Nat),
      (run PageTables.exec t [.map v p f]).2 = (t.mapPage v p f).2 := by
    intro t v p f
    simp only [run, PageTables.exec]
  have hall : emptyTree.freeTables = 16 := by decide
  rw [hone] at hused ⊢
  rw [hmiss, hall, PageTables.freeTables, hused] at hfree
  unfold poolSize at hfree
  omega

end Kaviz.Paging
