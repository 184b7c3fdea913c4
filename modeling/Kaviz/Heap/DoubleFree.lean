import Kaviz.Heap.Reachable

/-! # Freeing twice

A freed block is part of one free block of the list, at its start or swallowed by
the block before it. Its header keeps the link it had before the predecessor was
looked at, and that link leads to a block in use or nowhere. A second `kfree`
therefore finds its flag set, nothing to absorb and no predecessor to join.
-/

namespace Kaviz.Heap

open Bytes Memory Paging

/-! ## Where the freed block went -/

section Lists

variable {pre post : List Block} {b : Block} {a q next : Nat}

/-- The freed block lies in a free block of the new list, which ends where it ends. -/
theorem release_holder (pre : List Block) (b : Block) (post : List Block) :
    ∃ c rest front d, Block.absorb { b with free := true } post = c :: rest ∧ c.free = true ∧
      release pre b post = front ++ d :: rest ∧ d.free = true ∧ span front ≤ span pre ∧
      span front + d.extent = span pre + c.extent := by
  obtain ⟨c, rest, habsorb, hc, -⟩ := absorb_head { b with free := true } post
  rcases release_cases pre b post with ⟨heq, -⟩ | ⟨front, p, rfl, hp, heq⟩
  · exact ⟨c, rest, pre, c, habsorb, hc, by rw [heq, habsorb], hc, Nat.le_refl _, rfl⟩
  · refine ⟨c, rest, front, ⟨p.size + (24 + c.size), p.free⟩, habsorb, hc, ?_, hp, ?_, ?_⟩
    · rw [heq, habsorb, Block.absorb, if_pos hc]
    · simp
    · simp only [span_append, span_cons, span_nil, Block.extent]
      omega

/-- A free header at `q` that no merge concerns: its link leads to a block in use, and
only blocks in use are linked to it. -/
structure Settled (bs : List Block) (a q next : Nat) : Prop where
  next_used : next = 0 ∨ ∃ pre c post, bs = pre ++ c :: post ∧ next = a + span pre ∧ c.free = false
  prev_used : ∀ pre p c post, bs = pre ++ p :: c :: post → q = a + span pre + p.extent →
    p.free = false

/-- In a list without free neighbours all of that holds for what lies inside a free block. -/
theorem settled_of_holder {front rest : List Block} {c d : Block}
    (hsep : NoAdjacentFree (front ++ d :: rest)) (hd : d.free = true) (hlo : a + span front ≤ q)
    (hend : a + span front + d.extent = q + c.extent) :
    Settled (front ++ d :: rest) a q (link (q + c.extent) rest) := by
  obtain ⟨-, hmid, -⟩ := noAdjacentFree_append.mp hsep
  refine ⟨?_, fun pre p e post heq hq => ?_⟩
  · cases rest with
    | nil => exact Or.inl rfl
    | cons e rest =>
        have hfree := (noAdjacentFree_cons.mp hmid).1 e rfl
        refine Or.inr ⟨front ++ [d], e, rest, by simp, ?_, Bool.eq_false_iff.mpr fun he => hfree ⟨hd, he⟩⟩
        rw [link, ← hend, span_append, span_cons, span_nil, Block.extent]
        omega
  · have hholder : (a + span front, d) ∈ placed a (front ++ d :: rest) := by
      simp [placed_append, placed]
    have hlinked : (q, e) ∈ placed a (front ++ d :: rest) := by
      rw [heq, hq]
      simp [placed_append, placed]
    -- Blocks do not overlap, so that the block linked to is the holder itself.
    rcases placed_apart hholder hlinked with ⟨-, rfl⟩ | hapart | hapart
    · rw [heq] at hsep
      obtain ⟨-, hpair, -⟩ := noAdjacentFree_append.mp hsep
      exact Bool.eq_false_iff.mpr fun hp => (noAdjacentFree_cons.mp hpair).1 d rfl ⟨hp, hd⟩
    · simp only [Block.extent] at hend
      omega
    · omega

end Lists

/-! ## The second call -/

section SecondCall

variable {σ : Type} {M : Machine σ} {L : Lawful M} {s : MemState σ}
variable {base q next : Nat} {b : Block} {bs : List Block}

theorem mergeNext_idle (h : Holds L s base bs) (hhead : Header (view M s.mach) q b next)
    (hq : Mapped M s.mach q (q + 24)) (hset : Settled bs base q next) : mergeNext M s q = some s := by
  have hnext := blockNext_eq hhead hq
  rcases hset.next_used with rfl | ⟨pre, c, post, rfl, rfl, hc⟩
  · simp [mergeNext, hnext]
  · have hfree := blockFree_eq h.layout.header h.mapped_header
    rw [hc] at hfree
    simp [mergeNext, hnext, hfree]

theorem mergePrev_idle (h : Holds L s base bs) (hfirst : s.heapFirstBlock = link base bs)
    (hq : q ≠ 0) (hset : Settled bs base q next) : mergePrev M s q = some s := by
  obtain ⟨r, hret, rfl | ⟨pre, p, c, post, rfl, rfl, hlink⟩⟩ :=
    findPrev_cases h.layout h.mapped h.pos hq h.fuel
  · simp [mergePrev, hfirst, hret]
  · have hfree := blockFree_eq h.layout.header h.mapped_header
    rw [hset.prev_used pre p c post rfl hlink] at hfree
    simp [mergePrev, hfirst, hret, hfree]

/-- Freeing a settled header stores the flag that is already there. -/
theorem kfree_settled (h : Holds L s base bs) (hfirst : s.heapFirstBlock = link base bs)
    (hhead : Header (view M s.mach) q b next) (hb : b.free = true) (hlo : base ≤ q)
    (hhi : q + 24 ≤ base + span bs) (hset : Settled bs base q next) :
    ∃ s', kfree M s (q + 24) = some s' ∧
      Stores L s s' (view M s.mach) fun x => q ≤ x ∧ x < q + 24 := by
  have hpos := h.pos
  have hbelow := h.below
  have hblock : (q + 24 + 2 ^ 64 - 24) % 2 ^ 64 = q := by omega
  have hmapped : Mapped M s.mach q (q + 24) := h.mapped.mono hlo hhi
  obtain ⟨s', hstore, hst⟩ := setBlockFree_spec 1 h.ok hmapped
  have hflag : readLE (view M s.mach) (q + 16) 4 = 1 := by rw [hhead.free_eq, hb, if_pos rfl]
  rw [← hflag, writeLE_readLE] at hst
  have h' : Holds L s' base bs := h.of_stores hst h.layout rfl
  have hfirst' : s'.heapFirstBlock = link base bs := hst.heapFirstBlock.trans hfirst
  have hhead' : Header (view M s'.mach) q b next := hst.view_eq ▸ hhead
  have hidle := mergeNext_idle h' hhead' (hst.mapped hmapped) hset
  have hidle' := mergePrev_idle h' hfirst' (by omega) hset
  refine ⟨s', ?_, hst⟩
  rw [kfree, if_neg (by omega), hblock]
  simp only [Option.bind_eq_bind, hstore, Option.bind_some, hidle, hidle']

/-- What was just freed is settled. -/
theorem kfree_twice {pre post : List Block} (h : Represents L s (pre ++ b :: post))
    (hsep : NoAdjacentFree (pre ++ b :: post)) :
    ∃ s₁ s₂, kfree M s (kernelBase + span pre + 24) = some s₁ ∧
      kfree M s₁ (kernelBase + span pre + 24) = some s₂ ∧
      Stores L s₁ s₂ (view M s₁.mach) fun x =>
        kernelBase + span pre ≤ x ∧ x < kernelBase + span pre + 24 := by
  have hspan := span_release pre b post
  have hsep' := noAdjacentFree_release hsep
  have hfirst : s.heapFirstBlock = kernelBase := by rw [h.first, link_append]
  obtain ⟨s₁, m, hret, hst, hlay, hhead⟩ := kfree_holds h.holds hfirst
  have h₁ := h.holds.of_stores hst hlay hspan
  obtain ⟨c, rest, front, d, habsorb, hc, heq, hd, hlo, hend⟩ := release_holder pre b post
  have hhead₁ := hhead c rest habsorb
  rw [← hst.view_eq] at hhead₁
  rw [heq] at h₁ hsep' hspan
  have hfirst₁ : s₁.heapFirstBlock = link kernelBase (front ++ d :: rest) := by
    rw [hst.heapFirstBlock, hfirst, link_append]
  simp only [span_append, span_cons] at hspan
  obtain ⟨s₂, hret', hst'⟩ := kfree_settled h₁ hfirst₁ hhead₁ hc (Nat.le_add_right _ _)
    (by simp only [span_append, span_cons]; omega)
    (settled_of_holder hsep' hd (by omega) (by omega))
  exact ⟨s₁, s₂, hret, hret', hst'⟩

end SecondCall

/-- Stores that leave the bytes as they are leave every load as it is. -/
theorem load_of_stores {σ : Type} {M : Machine σ} {L : Lawful M} {s s' : MemState σ}
    {W : Nat → Prop} (h : Stores L s s' (view M s.mach) W) : M.load s'.mach = M.load s.mach := by
  funext a
  have hflags : (M.load s'.mach a).isSome = (M.load s.mach a).isSome := by
    rw [← L.flags_isSome, ← L.flags_isSome, h.flags]
  cases hload : (M.load s.mach a).isSome with
  | false =>
      rw [hload] at hflags
      rw [Option.not_isSome_iff_eq_none.mp (Bool.eq_false_iff.mp hload),
        Option.not_isSome_iff_eq_none.mp (Bool.eq_false_iff.mp hflags)]
  | true =>
      rw [hload] at hflags
      rw [load_eq_view hload, load_eq_view hflags, h.view_eq]

/-- Calling `kfree` a second time right away changes neither a byte of memory nor a variable
of the heap. -/
theorem kfree_kfree (junk : FlatState PageTables → Nat → Mem) (c : Client (FlatState PageTables))
    (hc : Reached junk c) (p : Nat) (hp : p ∈ c.live.map Prod.fst) :
    ∃ s₁ s₂, kfree (flat tableMapper junk) c.mem p = some s₁ ∧
      kfree (flat tableMapper junk) s₁ p = some s₂ ∧
      (flat tableMapper junk).load s₂.mach = (flat tableMapper junk).load s₁.mach ∧
      s₂ = { s₁ with mach := s₂.mach, trace := s₂.trace } := by
  obtain ⟨bs, h⟩ := hc.inv
  obtain ⟨⟨p', cap⟩, hused, rfl⟩ := List.mem_map.mp ((h.inv.live.mem_iff p).mp hp)
  obtain ⟨q, b, hplaced, -, rfl, rfl⟩ := mem_used.mp hused
  obtain ⟨pre, post, rfl, rfl⟩ := placed_split hplaced
  obtain ⟨s₁, s₂, hret, hret', hst⟩ := kfree_twice h.inv.heap h.inv.separated
  exact ⟨s₁, s₂, hret, hret', load_of_stores hst, hst.vars⟩

/-- The first allocation after boot, freed twice. -/
theorem kfree_kfree_boot : ∃ s s₁ s₂, Reached (fun _ _ _ => 0) ⟨s, [(kernelBase + 24, 100)]⟩ ∧
    kfree (flat tableMapper fun _ _ _ => 0) s (kernelBase + 24) = some s₁ ∧
    kfree (flat tableMapper fun _ _ _ => 0) s₁ (kernelBase + 24) = some s₂ ∧
    (flat tableMapper fun _ _ _ => 0).load s₂.mach =
      (flat tableMapper fun _ _ _ => 0).load s₁.mach := by
  obtain ⟨s, -, hreached⟩ := boot_reached fun _ _ _ => 0
  obtain ⟨s₁, s₂, hret, hret', hload, -⟩ := kfree_kfree _ _ hreached (kernelBase + 24) (by simp)
  exact ⟨s, s₁, s₂, hreached, hret, hret', hload⟩

end Kaviz.Heap
