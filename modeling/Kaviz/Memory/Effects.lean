import Kaviz.Memory.State

/-! # Effects of stores and mapping loops

Two kinds of kernel code touch memory. `Stores` describes code that only writes
bytes; `Mapping` describes the frame-and-map loops. Both say what the bytes and
page flags are afterwards, which addresses were touched and that no other
variable of the memory manager changed, and both compose.
-/

namespace Kaviz.Memory

open Bytes Paging

variable {σ : Type} {M : Machine σ} (L : Lawful M)

/-! ## Byte stores -/

/-- `s'` is `s` after writing bytes at addresses in `W` only, leaving contents `m`. -/
structure Stores (s s' : MemState σ) (m : Mem) (W : Nat → Prop) : Prop where
  ok : L.Ok s'.mach
  view_eq : view M s'.mach = m
  keep : ∀ x, ¬ W x → m x = view M s.mach x
  flags : L.flags s'.mach = L.flags s.mach
  fresh : ∀ p, L.Fresh s.mach p → L.Fresh s'.mach p
  vars : s' = { s with mach := s'.mach, trace := s'.trace }
  trace : ∃ es, s'.trace = es ++ s.trace ∧ ∀ e ∈ es, ∃ a, e = .store a ∧ W a

variable {L}

theorem mapped_of_flags {x y : σ} (h : L.flags x = L.flags y) {lo hi : Nat}
    (hm : Mapped M y lo hi) : Mapped M x lo hi := by
  intro a hlo hhi
  rw [← L.flags_isSome, h, L.flags_isSome]
  exact hm a hlo hhi

namespace Stores

variable {s s' s'' : MemState σ} {m m' : Mem} {W W' : Nat → Prop}

theorem refl (hok : L.Ok s.mach) : Stores L s s (view M s.mach) W :=
  ⟨hok, rfl, fun _ _ => rfl, rfl, fun _ h => h, rfl, [], rfl, by simp⟩

theorem mono (h : Stores L s s' m W) (hsub : ∀ a, W a → W' a) : Stores L s s' m W' := by
  obtain ⟨es, htrace, hes⟩ := h.trace
  refine ⟨h.ok, h.view_eq, fun x hx => h.keep x fun hw => hx (hsub x hw), h.flags, h.fresh, h.vars,
    es, htrace, fun e he => ?_⟩
  obtain ⟨a, rfl, ha⟩ := hes e he
  exact ⟨a, rfl, hsub a ha⟩

theorem trans (h : Stores L s s' m W) (h' : Stores L s' s'' m' W) : Stores L s s'' m' W := by
  obtain ⟨es, htrace, hes⟩ := h.trace
  obtain ⟨es', htrace', hes'⟩ := h'.trace
  refine ⟨h'.ok, h'.view_eq, fun x hx => ?_, h'.flags.trans h.flags,
    fun p hp => h'.fresh p (h.fresh p hp), ?_, es' ++ es, ?_, ?_⟩
  · rw [h'.keep x hx, h.view_eq, h.keep x hx]
  · rw [h'.vars, h.vars]
  · rw [htrace', htrace, List.append_assoc]
  · intro e he
    rcases List.mem_append.mp he with he | he
    · exact hes' e he
    · exact hes e he

theorem heapEnd (h : Stores L s s' m W) : s'.heapEnd = s.heapEnd := by
  rw [h.vars]

theorem heapFirstBlock (h : Stores L s s' m W) : s'.heapFirstBlock = s.heapFirstBlock := by
  rw [h.vars]

theorem nextFreePage (h : Stores L s s' m W) : s'.nextFreePage = s.nextFreePage := by
  rw [h.vars]

theorem mapped (h : Stores L s s' m W) {lo hi : Nat} (hm : Mapped M s.mach lo hi) :
    Mapped M s'.mach lo hi := mapped_of_flags h.flags hm

end Stores

theorem store8_spec {s : MemState σ} {a : Nat} (b : UInt8) (hok : L.Ok s.mach)
    (ha : (M.load s.mach a).isSome) :
    ∃ s', s.store8 M a b = some s' ∧ Stores L s s' (setByte (view M s.mach) a b) (· = a) := by
  obtain ⟨x, hx, hok', hload, hflags, hfresh⟩ := L.store_spec s.mach a b hok ha
  refine ⟨{ s with mach := x, trace := .store a :: s.trace }, by simp [MemState.store8, hx],
    hok', ?_, fun y hy => setByte_other _ b hy, hflags, hfresh, rfl, [.store a], rfl, by simp⟩
  funext y
  simp only [view, setByte, hload]
  split <;> rfl

/-- A word store on mapped memory succeeds and writes exactly its bytes. -/
theorem storeLE_spec {s : MemState σ} {a n : Nat} (v : Nat) (hok : L.Ok s.mach)
    (hm : Mapped M s.mach a (a + n)) :
    ∃ s', s.storeLE M a n v = some s' ∧
      Stores L s s' (writeLE (view M s.mach) a n v) (fun x => a ≤ x ∧ x < a + n) := by
  induction n generalizing s a v with
  | zero => exact ⟨s, rfl, Stores.refl hok⟩
  | succ n ih =>
      obtain ⟨s₁, hs₁, hstep⟩ := store8_spec (UInt8.ofNat v) hok (hm a (Nat.le_refl a) (by omega))
      have hm₁ : Mapped M s₁.mach (a + 1) (a + 1 + n) :=
        (hstep.mapped hm).mono (by omega) (by omega)
      obtain ⟨s₂, hs₂, hrest⟩ := ih (v / 256) hstep.ok hm₁
      refine ⟨s₂, by simp [MemState.storeLE, hs₁, hs₂], ?_⟩
      rw [hstep.view_eq] at hrest
      exact (hstep.mono (fun x hx => by omega)).trans (hrest.mono (fun x hx => by omega))

/-! ## Frames and mappings -/

/-- The frame counter is a page address and everything from it on is unused. A
counter of zero has wrapped: the next frame handed out is `NULL`. -/
structure FramesOk (L : Lawful M) (s : MemState σ) : Prop where
  aligned : s.nextFreePage % 4096 = 0
  bound : s.nextFreePage < 2 ^ 64
  fresh : s.nextFreePage ≠ 0 → ∀ p, s.nextFreePage ≤ p → p < 2 ^ 64 → p % 4096 = 0 →
    L.Fresh s.mach p

/-- `s'` is `s` after `map_page` calls for addresses in `P` only. -/
structure Mapping (L : Lawful M) (s s' : MemState σ) (P : Nat → Prop) : Prop where
  ok : L.Ok s'.mach
  keep : ∀ x, ¬ P x → M.load s'.mach x = M.load s.mach x ∧ L.flags s'.mach x = L.flags s.mach x
  vars : s' = { s with mach := s'.mach, nextFreePage := s'.nextFreePage, trace := s'.trace }
  aligned : s'.nextFreePage % 4096 = 0
  bound : s'.nextFreePage < 2 ^ 64
  trace : ∃ es, s'.trace = es ++ s.trace ∧ ∀ e ∈ es, ∃ v p f r, e = .map v p f r ∧ P v

namespace Mapping

variable {s s' s'' : MemState σ} {P Q : Nat → Prop}

theorem mono (h : Mapping L s s' P) (hsub : ∀ a, P a → Q a) : Mapping L s s' Q := by
  obtain ⟨es, htrace, hes⟩ := h.trace
  refine ⟨h.ok, fun x hx => h.keep x (fun hp => hx (hsub x hp)), h.vars, h.aligned, h.bound, es,
    htrace, fun e he => ?_⟩
  obtain ⟨v, p, f, r, rfl, hv⟩ := hes e he
  exact ⟨v, p, f, r, rfl, hsub v hv⟩

theorem trans (h : Mapping L s s' P) (h' : Mapping L s' s'' P) : Mapping L s s'' P := by
  obtain ⟨es, htrace, hes⟩ := h.trace
  obtain ⟨es', htrace', hes'⟩ := h'.trace
  refine ⟨h'.ok, fun x hx => ?_, ?_, h'.aligned, h'.bound, es' ++ es, ?_, ?_⟩
  · obtain ⟨hl, hf⟩ := h.keep x hx
    obtain ⟨hl', hf'⟩ := h'.keep x hx
    exact ⟨hl'.trans hl, hf'.trans hf⟩
  · rw [h'.vars, h.vars]
  · rw [htrace', htrace, List.append_assoc]
  · intro e he
    rcases List.mem_append.mp he with he | he
    · exact hes' e he
    · exact hes e he

theorem heapEnd (h : Mapping L s s' P) : s'.heapEnd = s.heapEnd := by
  rw [h.vars]

theorem heapFirstBlock (h : Mapping L s s' P) : s'.heapFirstBlock = s.heapFirstBlock := by
  rw [h.vars]

theorem view_keep (h : Mapping L s s' P) {x : Nat} (hx : ¬ P x) :
    view M s'.mach x = view M s.mach x := by
  rw [view, view, (h.keep x hx).1]

end Mapping

theorem mapFresh_failed {s : MemState σ} {v f : Nat} (hok : L.Ok s.mach) (hfr : FramesOk L s)
    (hf : f < 4096) (hfail : (s.mapFresh M v f).1 = false) :
    Mapping L s (s.mapFresh M v f).2 (fun x => x = v) ∧
      M.load (s.mapFresh M v f).2.mach = M.load s.mach := by
  have hal := hfr.aligned
  have hbd := hfr.bound
  unfold MemState.mapFresh at hfail ⊢
  rw [alloc_eq s hal hbd] at hfail ⊢
  dsimp only at hfail ⊢
  by_cases hnull : s.nextFreePage = 0
  · rw [if_pos hnull]
    exact ⟨⟨hok, fun x _ => ⟨rfl, rfl⟩, rfl, by dsimp only; omega, by dsimp only; omega, [], rfl,
      by simp⟩, rfl⟩
  · rw [if_neg hnull] at hfail ⊢
    dsimp only [MemState.mapPage] at hfail ⊢
    obtain ⟨hok', hload, hflags, _⟩ := L.map_fail s.mach v s.nextFreePage f hok hbd hf
      (of_decide_eq_false hfail)
    exact ⟨⟨hok', fun x _ => ⟨congrFun hload x, congrFun hflags x⟩, rfl, by dsimp only; omega,
      by dsimp only; omega, [_], rfl, by simp⟩, hload⟩

/-- A frame mapped at a page address replaces that page and nothing else. -/
theorem mapFresh_mapped {s : MemState σ} {v f : Nat} (hok : L.Ok s.mach) (hfr : FramesOk L s)
    (hv : Canonical v) (hva : v % 4096 = 0) (hf : f < 4096) (hdone : (s.mapFresh M v f).1 = true) :
    Mapping L s (s.mapFresh M v f).2 (fun x => v ≤ x ∧ x < v + 4096) ∧
      FramesOk L (s.mapFresh M v f).2 ∧
      ∀ x, v ≤ x → x < v + 4096 → L.flags (s.mapFresh M v f).2.mach x = some (f ||| 1) ∧
        ∀ z ∈ L.blank, M.load (s.mapFresh M v f).2.mach x = some z := by
  have hal := hfr.aligned
  have hbd := hfr.bound
  unfold MemState.mapFresh at hdone ⊢
  rw [alloc_eq s hal hbd] at hdone ⊢
  dsimp only at hdone ⊢
  by_cases hnull : s.nextFreePage = 0
  · rw [if_pos hnull] at hdone
    cases hdone
  · rw [if_neg hnull] at hdone ⊢
    have hpage := hfr.fresh hnull _ (Nat.le_refl _) hbd hal
    dsimp only [MemState.mapPage] at hdone ⊢
    obtain ⟨hok', hkeep, hmap, hfresh⟩ :=
      L.map_ok s.mach v s.nextFreePage f hok hv hbd hal hf hpage (of_decide_eq_true hdone)
    refine ⟨⟨hok', fun x hx => hkeep x (by omega), rfl, by dsimp only; omega, by dsimp only; omega,
      [_], rfl, by simp⟩, ⟨by dsimp only; omega, by dsimp only; omega, ?_⟩, ?_⟩
    · intro hne p hp hp64 hpa
      dsimp only at hne hp ⊢
      exact hfresh p (by omega) (hfr.fresh hnull p (by omega) hp64 hpa)
    · intro x hx hx'
      exact hmap x (by omega)

/-! ## What stays untouched -/

/-- Bytes in `K` keep their values, no store goes to them and no page holding
one of them is mapped anew. -/
structure Untouched (M : Machine σ) (s s' : MemState σ) (K : Nat → Prop) : Prop where
  load_eq : ∀ x, K x → M.load s'.mach x = M.load s.mach x
  trace : ∃ es, s'.trace = es ++ s.trace ∧ (∀ a, .store a ∈ es → ¬ K a) ∧
    ∀ v p f r, .map v p f r ∈ es → ∀ x, x / 4096 = v / 4096 → ¬ K x

theorem Untouched.refl (M : Machine σ) (s : MemState σ) (K : Nat → Prop) : Untouched M s s K :=
  ⟨fun _ _ => rfl, [], rfl, by simp, by simp⟩

theorem Untouched.trans {s s' s'' : MemState σ} {K : Nat → Prop} (h : Untouched M s s' K)
    (h' : Untouched M s' s'' K) : Untouched M s s'' K := by
  obtain ⟨es, htrace, hstore, hmap⟩ := h.trace
  obtain ⟨es', htrace', hstore', hmap'⟩ := h'.trace
  refine ⟨fun x hx => (h'.load_eq x hx).trans (h.load_eq x hx), es' ++ es,
    by rw [htrace', htrace, List.append_assoc], fun a ha => ?_, fun v p f r he => ?_⟩
  · exact (List.mem_append.mp ha).elim (hstore' a) (hstore a)
  · exact (List.mem_append.mp he).elim (hmap' v p f r) (hmap v p f r)

theorem Untouched.mono {s s' : MemState σ} {K K' : Nat → Prop} (h : Untouched M s s' K)
    (hsub : ∀ x, K' x → K x) : Untouched M s s' K' := by
  obtain ⟨es, htrace, hstore, hmap⟩ := h.trace
  exact ⟨fun x hx => h.load_eq x (hsub x hx), es, htrace, fun a ha hk => hstore a ha (hsub a hk),
    fun v p f r he x hx hk => hmap v p f r he x hx (hsub x hk)⟩

/-- Only the machine and the trace matter. -/
theorem Untouched.of_eq {s s' s'' : MemState σ} {K : Nat → Prop} (h : Untouched M s s' K)
    (hmach : s''.mach = s'.mach) (htrace : s''.trace = s'.trace) : Untouched M s s'' K :=
  ⟨hmach ▸ h.load_eq, htrace ▸ h.trace⟩

theorem Stores.untouched {s s' : MemState σ} {m : Mem} {W K : Nat → Prop}
    (h : Stores L s s' m W) (hdisj : ∀ x, W x → ¬ K x) : Untouched M s s' K := by
  obtain ⟨es, htrace, hes⟩ := h.trace
  refine ⟨fun x hx => ?_, es, htrace, fun a ha => ?_, fun v p f r he => ?_⟩
  · have hview : view M s'.mach x = view M s.mach x := by
      rw [h.view_eq]
      exact h.keep x fun hw => hdisj x hw hx
    have hsome : (M.load s'.mach x).isSome = (M.load s.mach x).isSome := by
      rw [← L.flags_isSome, ← L.flags_isSome, h.flags]
    cases hl : M.load s.mach x <;> cases hl' : M.load s'.mach x <;> simp_all [view]
  · obtain ⟨b, hb, hw⟩ := hes _ ha
    cases hb
    exact hdisj a hw
  · obtain ⟨b, hb, -⟩ := hes _ he
    cases hb

/-- A mapping loop over whole pages leaves everything else untouched. -/
theorem Mapping.untouched {s s' : MemState σ} {lo hi : Nat} {K : Nat → Prop}
    (h : Mapping L s s' fun x => lo ≤ x ∧ x < hi) (hlo : lo % 4096 = 0) (hhi : hi % 4096 = 0)
    (hdisj : ∀ x, lo ≤ x → x < hi → ¬ K x) : Untouched M s s' K := by
  obtain ⟨es, htrace, hes⟩ := h.trace
  refine ⟨fun x hx => (h.keep x fun hp => hdisj x hp.1 hp.2 hx).1, es, htrace, fun a ha => ?_,
    fun v p f r he => ?_⟩
  · obtain ⟨v, p, f, r, hb, -⟩ := hes _ ha
    cases hb
  · obtain ⟨v', p', f', r', hb, hv⟩ := hes _ he
    cases hb
    exact fun x hx => hdisj x (by omega) (by omega)

/-! ## Mapping loops -/

/-- The range a mapping loop works in: page addresses from `base` up to `limit`,
all of them canonical. -/
structure PageRange (base limit : Nat) : Prop where
  base_aligned : base % 4096 = 0
  limit_aligned : limit % 4096 = 0
  below : limit ≤ 2 ^ 64 - 4096
  canonical : ∀ a, base ≤ a → a < limit → Canonical a

/-- With every page from `lo` up to `limit` mapped, mapping the next one fails. -/
def StopsAt (L : Lawful M) (lo limit : Nat) : Prop :=
  ∀ s p f, L.Ok s → Mapped M s lo limit → (M.mapPage s limit p f).1 ≠ 0

theorem mapFresh_stops {lo limit : Nat} (hstop : StopsAt L lo limit) {s : MemState σ} {f : Nat}
    (hok : L.Ok s.mach) (hfr : FramesOk L s) (hfull : Mapped M s.mach lo limit) :
    (s.mapFresh M limit f).1 ≠ true := by
  unfold MemState.mapFresh
  rw [alloc_eq s hfr.aligned hfr.bound]
  dsimp only
  split
  · exact Bool.false_ne_true
  · exact fun h => hstop s.mach s.nextFreePage f hok hfull (of_decide_eq_true h)

/-- Pages mapped one after the other extend what was mapped before them. -/
theorem Mapping.extend {s s' : MemState σ} {lo a f : Nat}
    (h : Mapping L s s' fun x => a ≤ x ∧ x < a + 4096)
    (hnew : ∀ x, a ≤ x → x < a + 4096 → L.flags s'.mach x = some f)
    (hold : Mapped M s.mach lo a) : Mapped M s'.mach lo (a + 4096) := by
  intro x hlo hhi
  by_cases hx : x < a
  · rw [(h.keep x (by omega)).1]
    exact hold x hlo hx
  · rw [← L.flags_isSome, hnew x (by omega) hhi]
    rfl

set_option maxRecDepth 20000 in
/-- A mapping loop changes only pages of its range, and when it succeeds all of
them are mapped and lie below the limit. -/
theorem mapPages_spec {f base limit lo : Nat} (hrange : PageRange base limit) (hf : f < 4096)
    {i n : Nat} (hi : base + 4096 * i ≤ limit) {s : MemState σ}
    (hstop : base + 4096 * (i + n) ≤ limit ∨
      (StopsAt L lo limit ∧ Mapped M s.mach lo (base + 4096 * i)))
    (hok : L.Ok s.mach) (hfr : FramesOk L s) :
    Mapping L s (s.mapPages M f base i n).2
        (fun x => base + 4096 * i ≤ x ∧ x < base + 4096 * (i + n)) ∧
      ((s.mapPages M f base i n).1 = true → base + 4096 * (i + n) ≤ limit ∧
        FramesOk L (s.mapPages M f base i n).2 ∧
        ∀ x, base + 4096 * i ≤ x → x < base + 4096 * (i + n) →
          L.flags (s.mapPages M f base i n).2.mach x = some (f ||| 1) ∧
          ∀ z ∈ L.blank, M.load (s.mapPages M f base i n).2.mach x = some z) := by
  induction n generalizing i s with
  | zero =>
      refine ⟨⟨hok, fun _ _ => ⟨rfl, rfl⟩, rfl, hfr.aligned, hfr.bound, [], rfl, by simp⟩,
        fun _ => ⟨by simpa using hi, hfr, fun x hx hx' => by omega⟩⟩
  | succ n ih =>
      have hbelow := hrange.below
      have hb := hrange.base_aligned
      have hl := hrange.limit_aligned
      have haddr : (base + 4096 * i) % 2 ^ 64 = base + 4096 * i := Nat.mod_eq_of_lt (by omega)
      have hpages : base + 4096 * (i + 1) = base + 4096 * i + 4096 := by omega
      have hlast : i + 1 + n = i + (n + 1) := Nat.succ_add_eq_add_succ i n
      unfold MemState.mapPages
      rw [haddr]
      cases hone : s.mapFresh M (base + 4096 * i) f with
      | mk done s₁ =>
        cases done with
        | false =>
            have hfail := mapFresh_failed (v := base + 4096 * i) hok hfr hf (by rw [hone])
            rw [hone] at hfail
            exact ⟨hfail.1.mono (fun x hx => by omega), fun h => by cases h⟩
        | true =>
            -- The page was mapped, so it cannot be the one at the limit.
            have hlt : base + 4096 * i < limit := by
              rcases hstop with hle | ⟨hstop, hfull⟩
              · omega
              · by_contra hge
                have hend : base + 4096 * i = limit := by omega
                have hret : (s.mapFresh M limit f).1 = true := by rw [← hend, hone]
                exact mapFresh_stops hstop hok hfr (hend ▸ hfull) hret
            have hnext : base + 4096 * (i + 1) ≤ limit := by omega
            have hmap := mapFresh_mapped (v := base + 4096 * i) hok hfr
              (hrange.canonical _ (by omega) hlt) (by omega) hf (by rw [hone])
            rw [hone] at hmap
            obtain ⟨hmap, hfr₁, hpage₁⟩ := hmap
            have hstop' : base + 4096 * (i + 1 + n) ≤ limit ∨
                (StopsAt L lo limit ∧ Mapped M s₁.mach lo (base + 4096 * (i + 1))) := by
              rw [hlast, hpages]
              refine hstop.imp_right fun h => ⟨h.1, ?_⟩
              exact hmap.extend (fun x hx hx' => (hpage₁ x hx hx').1) h.2
            obtain ⟨hrest, hdone⟩ := ih hnext hstop' hmap.ok hfr₁
            refine ⟨(hmap.mono (fun x hx => by omega)).trans (hrest.mono (fun x hx => by omega)),
              fun h => ?_⟩
            rw [hlast] at hdone
            obtain ⟨hle, hfr₂, hpage₂⟩ := hdone h
            refine ⟨hle, hfr₂, fun x hx hx' => ?_⟩
            by_cases hpage : x < base + 4096 * (i + 1)
            · obtain ⟨hload, hflags⟩ := hrest.keep x (by omega)
              rw [hflags, hload]
              exact hpage₁ x hx (hpages ▸ hpage)
            · exact hpage₂ x (Nat.le_of_not_lt hpage) hx'

theorem mapPages_all (lo : Nat) {f base limit : Nat} (hrange : PageRange base limit) (hf : f < 4096)
    {n : Nat} (hbase : base ≤ limit) {s : MemState σ}
    (hstop : base + 4096 * n ≤ limit ∨ (StopsAt L lo limit ∧ Mapped M s.mach lo base))
    (hok : L.Ok s.mach) (hfr : FramesOk L s) {done : Bool} {s' : MemState σ}
    (hrun : s.mapPages M f base 0 n = (done, s')) :
    Mapping L s s' (fun x => base ≤ x ∧ x < base + 4096 * n) ∧
      (done = true → base + 4096 * n ≤ limit ∧ FramesOk L s' ∧
        ∀ x, base ≤ x → x < base + 4096 * n → L.flags s'.mach x = some (f ||| 1) ∧
          ∀ z ∈ L.blank, M.load s'.mach x = some z) := by
  have h := mapPages_spec (i := 0) (n := n) hrange hf (by omega) (by simpa using hstop) hok hfr
  simpa [hrun] using h

end Kaviz.Memory
