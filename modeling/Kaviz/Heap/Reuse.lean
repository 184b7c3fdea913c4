import Mathlib.Order.Bounds.Defs
import Kaviz.Heap.Reachable

/-! # Best fit, reuse and undo

What a request does to the block list is read off the list: the smallest block
that fits is taken, and the heap grows only when none does. Freeing joins a block
with its free neighbours, so that nothing a block offered is lost, and a block
just taken is put back exactly as it was.
-/

namespace Kaviz.Heap

open Bytes Memory Paging Relation

/-- No page was mapped and the heap ends where it did. -/
structure NotExtended {σ : Type} (s s' : MemState σ) : Prop where
  heapEnd : s'.heapEnd = s.heapEnd
  trace : ∃ es, s'.trace = es ++ s.trace ∧ ∀ e ∈ es, ∃ a, e = .store a

theorem notExtended_of_stores {σ : Type} {M : Machine σ} {L : Lawful M} {s s' : MemState σ} {m : Mem}
    {W : Nat → Prop} (h : Stores L s s' m W) : NotExtended s s' := by
  obtain ⟨es, htrace, hes⟩ := h.trace
  refine ⟨h.heapEnd, es, htrace, fun e he => ?_⟩
  obtain ⟨a, rfl, -⟩ := hes e he
  exact ⟨a, rfl⟩

/-! ## Lists -/

section Lists

variable {pre post bs : List Block} {b : Block} {n : Nat}

theorem mem_placed (a : Nat) (hb : b ∈ bs) : ∃ q, (q, b) ∈ placed a bs := by
  induction bs generalizing a with
  | nil => cases hb
  | cons c bs ih =>
      rcases List.mem_cons.mp hb with rfl | hb
      · exact ⟨a, List.mem_cons_self⟩
      · obtain ⟨q, hq⟩ := ih (a + c.extent) hb
        exact ⟨q, List.mem_cons_of_mem _ hq⟩

/-- After a release some free block offers what the freed one did. -/
theorem release_room (pre : List Block) (b : Block) (post : List Block) :
    ∃ c ∈ release pre b post, c.free = true ∧ b.size ≤ c.size := by
  obtain ⟨c, rest, hfreed, hc, hsize⟩ := absorb_head { b with free := true } post
  rcases release_cases pre b post with ⟨heq, -⟩ | ⟨pre', p, rfl, hp, heq⟩
  · exact ⟨c, by rw [heq, hfreed]; simp, hc, hsize⟩
  · have hjoined : ⟨p.size + (24 + c.size), p.free⟩ ∈ p.absorb (c :: rest) := by
      simp [Block.absorb, hc]
    refine ⟨⟨p.size + (24 + c.size), p.free⟩, ?_, hp, Nat.le_trans hsize ?_⟩
    · rw [heq, hfreed]
      exact List.mem_append_right _ hjoined
    · dsimp only
      omega

/-- What is taken from a block starts with a block in use; freeing it gives the block back. -/
theorem absorb_take (hb : b.free = true) (n : Nat) :
    ∃ c rest, b.take n = c :: rest ∧ c.free = false ∧
      ∀ post, (∀ d ∈ post.head?, d.free = false) →
        Block.absorb { c with free := true } (rest ++ post) = b :: post := by
  have hsame : ({ b with free := true } : Block) = b := by rw [← hb]
  by_cases hwhole : b.size ≤ n + 24 + 16
  · refine ⟨{ b with free := false }, [], if_pos hwhole, rfl, fun post hpost => ?_⟩
    cases post with
    | nil => exact congrArg (fun x => [x]) hsame
    | cons d post =>
        have hd := hpost d rfl
        rw [List.nil_append, Block.absorb, hd]
        exact congrArg (fun x => x :: d :: post) hsame
  · refine ⟨⟨n, false⟩, [⟨b.size - n - 24, true⟩], if_neg hwhole, rfl, fun post _ => ?_⟩
    have hsize : n + (24 + (b.size - n - 24)) = b.size := by omega
    rw [List.singleton_append, Block.absorb, if_pos rfl, hsize]
    exact congrArg (fun x => x :: post) hsame

/-- `release` puts a block just taken back, joined with a free block in front. -/
theorem release_take (pre : List Block) (hb : b.free = true) (n : Nat)
    (hpost : ∀ d ∈ post.head?, d.free = false) :
    ∃ c rest, b.take n = c :: rest ∧ c.free = false ∧
      ((release pre c (rest ++ post) = pre ++ b :: post ∧ ∀ p ∈ pre.getLast?, p.free = false) ∨
        ∃ pre' p, pre = pre' ++ [p] ∧ p.free = true ∧
          release pre c (rest ++ post) = pre' ++ ⟨p.size + (24 + b.size), true⟩ :: post) := by
  obtain ⟨c, rest, htake, hc, habsorb⟩ := absorb_take hb n
  refine ⟨c, rest, htake, hc, ?_⟩
  rcases release_cases pre c (rest ++ post) with ⟨heq, hlast⟩ | ⟨pre', p, hpre, hp, heq⟩
  · rw [heq, habsorb post hpost]
    exact Or.inl ⟨rfl, hlast⟩
  · rw [heq, habsorb post hpost, Block.absorb, if_pos hb, hp]
    exact Or.inr ⟨pre', p, hpre, hp, rfl⟩

/-- In a list without free neighbours the block is put back as it was. -/
theorem release_take_same (h : NoAdjacentFree (pre ++ b :: post)) (hb : b.free = true) (n : Nat) :
    ∃ c rest, b.take n = c :: rest ∧ c.free = false ∧
      release pre c (rest ++ post) = pre ++ b :: post := by
  obtain ⟨-, hmid, hjoin⟩ := noAdjacentFree_append.mp h
  have hpost : ∀ d ∈ post.head?, d.free = false := fun d hd =>
    Bool.eq_false_iff.mpr fun hfree => (noAdjacentFree_cons.mp hmid).1 d hd ⟨hb, hfree⟩
  obtain ⟨c, rest, htake, hc, ⟨heq, -⟩ | ⟨pre', p, rfl, hp, -⟩⟩ := release_take pre hb n hpost
  · exact ⟨c, rest, htake, hc, heq⟩
  · exact absurd ⟨hp, hb⟩ (hjoin p (by simp) b rfl)

end Lists

/-! ## Best fit -/

section Requests

variable {junk : FlatState PageTables → Nat → Mem} {c : Client (FlatState PageTables)}
variable {bs : List Block} {size n k : Nat}

theorem ReachedInv.first_zero_iff (h : ReachedInv junk c bs) :
    c.mem.heapFirstBlock = 0 ↔ bs = [] := by
  rw [h.inv.heap.first]
  cases bs with
  | nil => simp [link]
  | cons b bs => simp [link, kernelBase]

/-- Pages are counted without waste. -/
theorem pagesNeeded_least (hn : n ≤ sizeLimit) (hk : IsLeast {k | 24 + n ≤ 4096 * k} k) :
    pagesNeeded n = k := by
  have hpages := pagesNeeded_spec hn
  have hle : 24 + n ≤ 4096 * k := hk.1
  have hleast : k ≤ pagesNeeded n := hk.2 hpages.1
  omega

theorem bestFit_of_fits {l : List (Nat × Block)} {x : Nat × Block} (hx : x ∈ l) (hfit : Fits n x) :
    ∃ y, bestFit n l = some y ∧ IsBestFit n l (some y) := by
  have hbest := bestFit_isBestFit n l
  cases hres : bestFit n l with
  | none =>
      rw [hres] at hbest
      exact absurd hfit (hbest x hx)
  | some y =>
      rw [hres] at hbest
      exact ⟨y, rfl, hbest⟩

theorem bestFit_none {l : List (Nat × Block)} (h : ∀ x ∈ l, ¬ Fits n x) : bestFit n l = none := by
  have hbest := bestFit_isBestFit n l
  cases hres : bestFit n l with
  | none => rfl
  | some y =>
      rw [hres] at hbest
      obtain ⟨hfit, before, after, heq, -⟩ := hbest
      exact absurd hfit (h y (by rw [heq]; simp))

/-- After a free, requests up to the capacity that was freed need no extension. -/
theorem ReachedInv.reuse (h : ReachedInv junk c bs) {p : Nat} (hp : p ∈ c.live.map Prod.fst) :
    ∃ b s, (p - 24, b) ∈ placed kernelBase bs ∧ b.free = false ∧
      kfree (flat tableMapper junk) c.mem p = some s ∧
      ∀ size, size ≤ b.size → ∃ q s', kmalloc (flat tableMapper junk) s size = some (q, s') ∧
        q ≠ 0 ∧ NotExtended s s' := by
  obtain ⟨⟨p', cap⟩, hused, rfl⟩ := List.mem_map.mp ((h.inv.live.mem_iff p).mp hp)
  obtain ⟨q, b, hplaced, hb, rfl, rfl⟩ := mem_used.mp hused
  obtain ⟨pre, post, rfl, rfl⟩ := placed_split hplaced
  obtain ⟨s, hret, hrep, -⟩ := kfree_spec h.inv.heap h.inv.frames
  have hbounds := h.inv.heap.holds.bounds
  have hrounded := h.rounded b (by simp)
  refine ⟨b, s, by simpa using hplaced, hb, hret, fun size hsize => ?_⟩
  have hround : roundSize size ≤ b.size := by
    unfold roundSize
    omega
  obtain ⟨c', hmem, hfree, hroom⟩ := release_room pre b post
  obtain ⟨q, hq⟩ := mem_placed kernelBase hmem
  obtain ⟨y, hbest, -⟩ := bestFit_of_fits hq ⟨hfree, Nat.le_trans hround hroom⟩
  obtain ⟨pre', b', post', s', m, -, -, -, hret', hst, -⟩ :=
    kmalloc_fits hrep (List.ne_nil_of_mem hmem) hbest
  exact ⟨_, s', hret', by omega, notExtended_of_stores hst⟩

end Requests

/-- On a created heap `kmalloc` takes the smallest block that fits, the first among equals,
and otherwise grows the heap by the least number of pages; and what `kfree` takes back is
there for the next request. -/
theorem kmalloc_best_fit (junk : FlatState PageTables → Nat → Mem)
    (c : Client (FlatState PageTables)) (hc : Reached junk c) (hinit : c.mem.heapFirstBlock ≠ 0) :
    ∃ l, blockList (flat tableMapper junk) c.mem = some l ∧
      (∀ size n, size ≤ 2 ^ 63 → n = (size + 3) / 4 * 4 →
        ((∃ x ∈ l, Fits n x) → ∃ x s, IsBestFit n l (some x) ∧
          kmalloc (flat tableMapper junk) c.mem size = some (x.1 + 24, s) ∧ NotExtended c.mem s) ∧
        ((∀ x ∈ l, ¬ Fits n x) → ∀ k, IsLeast {k | 24 + n ≤ 4096 * k} k →
          (c.mem.mapPages (flat tableMapper junk) heapFlags c.mem.heapEnd 0 k).1 = true →
          ∃ s, kmalloc (flat tableMapper junk) c.mem size = some (c.mem.heapEnd + 24, s) ∧
            s.heapEnd = c.mem.heapEnd + 4096 * k ∧ blockList (flat tableMapper junk) s =
              some (l ++ placed c.mem.heapEnd (Block.take ⟨4096 * k - 24, true⟩ n)))) ∧
      ∀ p ∈ c.live.map Prod.fst, ∃ b s, (p - 24, b) ∈ l ∧ b.free = false ∧
        kfree (flat tableMapper junk) c.mem p = some s ∧
        ∀ size, size ≤ b.size → ∃ q s', kmalloc (flat tableMapper junk) s size = some (q, s') ∧
          q ≠ 0 ∧ NotExtended s s' := by
  obtain ⟨bs, h⟩ := hc.inv
  have hrep := h.inv.heap
  have hbs : bs ≠ [] := fun hnil => hinit (h.first_zero_iff.mpr hnil)
  refine ⟨_, hrep.blockList_eq, fun size n hsize hn => ?_, fun p hp => h.reuse hp⟩
  obtain ⟨-, hlimit, hround⟩ := roundSize_spec (le_sizeLimit hsize)
  rw [← hround] at hn
  subst hn
  refine ⟨?_, fun hnone k hk hrun => ?_⟩
  · rintro ⟨x, hx, hfit⟩
    obtain ⟨y, hbest, hbestfit⟩ := bestFit_of_fits hx hfit
    obtain ⟨pre, b, post, s, m, -, rfl, -, hret, hst, -⟩ := kmalloc_fits hrep hbs hbest
    exact ⟨_, s, hbestfit, hret, notExtended_of_stores hst⟩
  · obtain rfl := pagesNeeded_least hlimit hk
    obtain ⟨s, hret, -, -, hrep'⟩ := kmalloc_extends hrep hbs h.inv.frames (flat_stops junk)
      (le_sizeLimit hsize) (bestFit_none hnone) (Prod.ext hrun rfl)
    have hend := hrep.end_eq
    have hend' := hrep'.end_eq
    have hpages := pagesNeeded_spec hlimit
    rw [span_append, span_take] at hend'
    dsimp only at hend'
    refine ⟨s, hret, by omega, ?_⟩
    rw [hrep'.blockList_eq, placed_append, hend]

/-- The first allocation after boot is freed and its room used again. -/
theorem kmalloc_best_fit_boot : ∃ s s₁ q s₂, Reached (fun _ _ _ => 0) ⟨s, [(kernelBase + 24, 100)]⟩ ∧
    kfree (flat tableMapper fun _ _ _ => 0) s (kernelBase + 24) = some s₁ ∧
    kmalloc (flat tableMapper fun _ _ _ => 0) s₁ 0 = some (q, s₂) ∧ q ≠ 0 ∧
    NotExtended s₁ s₂ := by
  obtain ⟨s, hinit, hreached⟩ := boot_reached fun _ _ _ => 0
  obtain ⟨l, -, -, hfree⟩ := kmalloc_best_fit _ _ hreached hinit
  obtain ⟨b, s₁, -, -, hret, hreuse⟩ := hfree (kernelBase + 24) (by simp)
  obtain ⟨q, s₂, hret', hq, hkeep⟩ := hreuse 0 (Nat.zero_le _)
  exact ⟨s, s₁, q, s₂, hreached, hret, hret', hq, hkeep⟩

/-! ## Undo -/

/-- The list with new pages behind it, joined with a last block that is free. -/
def grown (bs : List Block) (bytes : Nat) : List Block :=
  if bytes = 0 then bs
  else
    match bs.getLast? with
    | none => [⟨bytes - 24, true⟩]
    | some p =>
        if p.free = true then bs.dropLast ++ [⟨p.size + bytes, true⟩]
        else bs ++ [⟨bytes - 24, true⟩]

section Undo

variable {bs bs' : List Block} {n p : Nat}

theorem grown_zero (bs : List Block) : grown bs 0 = bs := if_pos rfl

/-- Creating the heap is one way of growing it. -/
theorem grown_opened (bs : List Block) (bytes : Nat) :
    grown (opened bs) bytes = grown bs (span (opened bs) - span bs + bytes) := by
  by_cases hbs : bs = []
  · subst hbs
    by_cases hzero : bytes = 0
    · subst hzero
      rfl
    · have hopened : opened [] = [⟨4 * 1024 * 1024 - 24, true⟩] := rfl
      have hspan : span (opened []) - span [] + bytes = 4 * 1024 * 1024 + bytes := rfl
      have hsize : 4 * 1024 * 1024 + bytes - 24 = 4 * 1024 * 1024 - 24 + bytes := by omega
      rw [hspan, hopened]
      simp [grown, hzero, hsize]
  · rw [opened, if_neg hbs, Nat.sub_self, Nat.zero_add]

/-- A block taken from new pages goes back to them. -/
theorem release_grown (bs : List Block) (b : Block) (hb : b.free = true) (n : Nat) :
    ∃ c rest, b.take n = c :: rest ∧ c.free = false ∧
      release bs c rest = grown bs (24 + b.size) := by
  have hpost : ∀ d ∈ ([] : List Block).head?, d.free = false := by simp
  have hsame : (⟨b.size, true⟩ : Block) = b := by rw [← hb]
  have hbytes : 24 + b.size - 24 = b.size := by omega
  have hne : ¬ 24 + b.size = 0 := by omega
  obtain ⟨c, rest, htake, hc, hcase⟩ := release_take bs hb n hpost
  rw [List.append_nil] at hcase
  refine ⟨c, rest, htake, hc, ?_⟩
  rcases hcase with ⟨heq, hlast⟩ | ⟨pre, q, rfl, hq, heq⟩
  · rw [heq, grown, if_neg hne, hbytes, hsame]
    cases hres : bs.getLast? with
    | none => rw [List.getLast?_eq_none_iff.mp hres, List.nil_append]
    | some q => simp [hlast q hres]
  · rw [heq, grown, if_neg hne]
    simp [hq]

/-- Freeing what was just allocated leaves the old blocks, and new pages as one. -/
theorem Allocates.undo (h : Allocates n (opened bs) bs' p) (hsep : NoAdjacentFree (opened bs)) :
    ∃ pre c post, bs' = pre ++ c :: post ∧ c.free = false ∧ p = kernelBase + span pre + 24 ∧
      span bs ≤ span bs' ∧ release pre c post = grown bs (span bs' - span bs) := by
  obtain ⟨pre, b, post, hb, -, hp, rfl, hcase⟩ := h
  have hspan : span bs ≤ span (opened bs) := by
    unfold opened
    split
    next hbs => simp [hbs]
    next => exact Nat.le_refl _
  rcases hcase with ⟨hlist, -⟩ | ⟨rfl, rfl, rfl, -⟩
  · rw [hlist] at hsep
    obtain ⟨c, rest, htake, hc, heq⟩ := release_take_same hsep hb n
    have hsame : span (pre ++ (b.take n ++ post)) = span (opened bs) := by
      rw [hlist]
      simp only [span_append, span_take, span_cons]
    refine ⟨pre, c, rest ++ post, by rw [htake, List.cons_append], hc, hp, hsame ▸ hspan, ?_⟩
    rw [heq, ← hlist, hsame, ← Nat.add_zero (span (opened bs) - span bs), ← grown_opened, grown_zero]
  · obtain ⟨c, rest, htake, hc, heq⟩ := release_grown (opened bs) _ hb n
    refine ⟨opened bs, c, rest, by rw [htake, List.append_nil], hc, hp, ?_, ?_⟩
    · rw [span_append]
      omega
    · have hmore : ∀ y, span (opened bs) + y - span bs = span (opened bs) - span bs + y := by omega
      rw [heq, span_append, List.append_nil, span_take, hmore, grown_opened]

end Undo

/-- `kfree` directly after `kmalloc` restores the block list, with the pages the heap
grew by as one free block at the end. -/
theorem kfree_undoes_kmalloc (junk : FlatState PageTables → Nat → Mem)
    (c : Client (FlatState PageTables)) (hc : Reached junk c) (size : Nat) (hsize : size ≤ 2 ^ 63)
    (p : Nat) (s : MemState (FlatState PageTables))
    (hret : kmalloc (flat tableMapper junk) c.mem size = some (p, s)) (hp : p ≠ 0) :
    ∃ bs s', blockList (flat tableMapper junk) c.mem = some (placed c.mem.heapStart bs) ∧
      c.mem.heapEnd ≤ s.heapEnd ∧ kfree (flat tableMapper junk) s p = some s' ∧
      blockList (flat tableMapper junk) s' =
        some (placed c.mem.heapStart (grown bs (s.heapEnd - c.mem.heapEnd))) ∧
      (s.heapEnd = c.mem.heapEnd →
        blockList (flat tableMapper junk) s' = blockList (flat tableMapper junk) c.mem ∧
          s'.heapFirstBlock = c.mem.heapFirstBlock) := by
  obtain ⟨bs, h⟩ := hc.inv
  have hrep := h.inv.heap
  obtain ⟨p', s₁, hret', -, -, -, hcase⟩ := kmalloc_spec hrep h.inv.frames (flat_stops junk)
    (le_sizeLimit hsize)
  cases hret.symm.trans hret'
  rcases hcase with ⟨hzero, -⟩ | ⟨hfr, bs', halloc, hrep₁⟩
  · exact absurd hzero hp
  · obtain ⟨pre, d, post, rfl, hd, rfl, hspan, heq⟩ := halloc.undo h.inv.opened_separated
    obtain ⟨s', hfree, hrep', -⟩ := kfree_spec hrep₁ hfr
    have hbytes : span (pre ++ d :: post) - span bs = s.heapEnd - c.mem.heapEnd := by
      rw [hrep₁.end_eq, hrep.end_eq]
      omega
    rw [heq, hbytes] at hrep'
    refine ⟨bs, s', by rw [hrep.start]; exact hrep.blockList_eq, ?_, hfree,
      by rw [hrep.start]; exact hrep'.blockList_eq, fun hsame => ?_⟩
    · rw [hrep₁.end_eq, hrep.end_eq]
      omega
    · rw [hsame, Nat.sub_self, grown_zero] at hrep'
      exact ⟨hrep'.blockList_eq.trans hrep.blockList_eq.symm, hrep'.first.trans hrep.first.symm⟩

theorem kfree_undoes_kmalloc_boot : ∃ s s' bs, kmalloc (flat tableMapper fun _ _ _ => 0)
      (MemState.initVmm bootFlat) 100 = some (kernelBase + 24, s) ∧
    kfree (flat tableMapper fun _ _ _ => 0) s (kernelBase + 24) = some s' ∧
    blockList (flat tableMapper fun _ _ _ => 0) s' = some (placed kernelBase bs) := by
  obtain ⟨s, hret⟩ := boot_kmalloc fun _ _ _ => 0
  obtain ⟨bs, s', -, -, hfree, hlist, -⟩ := kfree_undoes_kmalloc _ _ (boot_start _) 100 (by decide)
    (kernelBase + 24) s hret (by decide)
  exact ⟨s, s', _, hret, hfree, hlist⟩

end Kaviz.Heap
