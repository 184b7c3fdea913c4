import Kaviz.Elf.Image
import Kaviz.Heap.Ownership

/-! # What loading one segment does

Effects of the loader's loops and of the body of its loop over program headers,
on any lawful machine. The headers lie in an allocation of their own and are
read again and again while pages are mapped and buffers come and go; `Loading`
says that they stay readable. The file system is described by what it delivers.
-/

namespace Kaviz.Elf

open Bytes Memory Paging Heap

variable {σ φ : Type} {M : Machine σ} {L : Lawful M} {s s' : MemState σ} {bs : List Block}

/-! ## Memory functions -/

theorem storeBytes_spec {a : Nat} {bytes : List UInt8} (hok : L.Ok s.mach)
    (hm : Mapped M s.mach a (a + bytes.length)) (ha : a + bytes.length ≤ 2 ^ 64) :
    ∃ s', storeBytes M s a bytes = some s' ∧
      Stores L s s' (view M s'.mach) (fun x => a ≤ x ∧ x < a + bytes.length) ∧
      ∀ i, i < bytes.length → M.load s'.mach (a + i) = bytes[i]? := by
  induction bytes generalizing s a with
  | nil => exact ⟨s, rfl, Stores.refl hok, fun i hi => absurd hi (Nat.not_lt_zero i)⟩
  | cons b bytes ih =>
      rw [List.length_cons] at hm ha
      have hmod : a % 2 ^ 64 = a := Nat.mod_eq_of_lt (by omega)
      obtain ⟨s₁, hs₁, hst⟩ := store8_spec b hok (hm a (Nat.le_refl a) (by omega))
      have hm₁ := hst.mapped hm
      have htail : Mapped M s₁.mach (a + 1) (a + 1 + bytes.length) := hm₁.mono (by omega) (by omega)
      obtain ⟨s₂, hs₂, hrest, hbytes⟩ := ih hst.ok htail (by omega)
      have hview := hst.view_eq
      rw [← hview] at hst
      refine ⟨s₂, by simp only [storeBytes, hmod, hs₁, Option.bind_eq_bind, Option.bind_some, hs₂],
        ?_, fun i hi => ?_⟩
      · rw [List.length_cons]
        exact (hst.mono fun x hx => by omega).trans (hrest.mono fun x hx => by omega)
      · cases i with
        | zero =>
            have hkeep : Untouched M s₁ s₂ (· = a) := hrest.untouched fun x hx => by omega
            rw [Nat.add_zero, hkeep.load_eq a rfl, load_eq_view (hm₁ a (Nat.le_refl a) (by omega)),
              hview, setByte_same]
            rfl
        | succ i =>
            rw [List.length_cons] at hi
            have hbyte := hbytes i (by omega)
            rw [Nat.add_right_comm] at hbyte
            rw [List.getElem?_cons_succ]
            exact hbyte

theorem storeBytes_load {a : Nat} {bytes : List UInt8} (hok : L.Ok s.mach)
    (hm : Mapped M s.mach a (a + bytes.length)) (ha : a + bytes.length ≤ 2 ^ 64) :
    ∃ s', storeBytes M s a bytes = some s' ∧
      Stores L s s' (view M s'.mach) (fun x => a ≤ x ∧ x < a + bytes.length) ∧
      ∀ x, M.load s'.mach x =
        if a ≤ x ∧ x < a + bytes.length then bytes[x - a]? else M.load s.mach x := by
  obtain ⟨s', hs', hst, hbytes⟩ := storeBytes_spec hok hm ha
  refine ⟨s', hs', hst, fun x => ?_⟩
  by_cases hx : a ≤ x ∧ x < a + bytes.length
  · have hbyte := hbytes (x - a) (by omega)
    rw [Nat.add_sub_cancel' hx.1] at hbyte
    rw [if_pos hx, hbyte]
  · have hkeep : Untouched M s s' (· = x) := hst.untouched fun y hy hyx => hx (hyx ▸ hy)
    rw [if_neg hx, hkeep.load_eq x rfl]

theorem memzero_eq (s : MemState σ) (dst n : Nat) :
    memzero M s dst n = storeBytes M s dst (List.replicate n 0) := by
  induction n generalizing s dst with
  | zero => rfl
  | succ n ih => simp only [memzero, List.replicate_succ, storeBytes, ih]

theorem memcpy_eq {dst src : Nat} {bytes : List UInt8} (hok : L.Ok s.mach)
    (hsrc : ∀ i, i < bytes.length → M.load s.mach (src + i) = bytes[i]?)
    (hm : Mapped M s.mach dst (dst + bytes.length))
    (hapart : dst + bytes.length ≤ src ∨ src + bytes.length ≤ dst)
    (hd : dst + bytes.length ≤ 2 ^ 64) (hs : src + bytes.length ≤ 2 ^ 64) :
    memcpy M s dst src bytes.length = storeBytes M s dst bytes := by
  induction bytes generalizing s dst src with
  | nil => rfl
  | cons b bytes ih =>
      rw [List.length_cons] at *
      have hdmod : dst % 2 ^ 64 = dst := Nat.mod_eq_of_lt (by omega)
      have hsmod : src % 2 ^ 64 = src := Nat.mod_eq_of_lt (by omega)
      have hload : M.load s.mach src = some b := hsrc 0 (by omega)
      obtain ⟨s₁, hs₁, hst⟩ := store8_spec b hok (hm dst (Nat.le_refl dst) (by omega))
      have hkeep : Untouched M s s₁ (· ≠ dst) := hst.untouched fun x hx hne => hne hx
      have hrest : memcpy M s₁ (dst + 1) (src + 1) bytes.length = storeBytes M s₁ (dst + 1) bytes := by
        refine ih hst.ok ?_ ((hst.mapped hm).mono (by omega) (by omega)) (by omega) (by omega) (by omega)
        intro i hi
        rw [hkeep.load_eq _ (by omega), Nat.add_right_comm]
        exact hsrc (i + 1) (by omega)
      simp only [memcpy, storeBytes, hdmod, hsmod, hload, Option.bind_eq_bind, Option.bind_some,
          hs₁, hrest]

/-! ## Headers in memory -/

/-- The six fields the loader reads at `a` are those of `h`. -/
structure HeaderAt (M : Machine σ) (x : σ) (a : Nat) (h : Phdr) : Prop where
  type : pType M x a = some h.type
  flags : pFlags M x a = some h.flags
  offset : pOffset M x a = some h.offset
  vaddr : pVaddr M x a = some h.vaddr
  filesz : pFilesz M x a = some h.filesz
  memsz : pMemsz M x a = some h.memsz

theorem loadLE_congr {x y : σ} {a n : Nat}
    (h : ∀ i, a ≤ i → i < a + n → M.load y i = M.load x i) : loadLE M y a n = loadLE M x a n := by
  induction n generalizing a with
  | zero => rfl
  | succ n ih =>
      have hrest := ih (a := a + 1) fun i hlo hhi => h i (by omega) (by omega)
      simp only [loadLE, h a (Nat.le_refl a) (by omega), hrest]

theorem HeaderAt.congr {x y : σ} {a : Nat} {h : Phdr} (hx : HeaderAt M x a h)
    (heq : ∀ i, a ≤ i → i < a + 56 → M.load y i = M.load x i) : HeaderAt M y a h where
  type := (loadLE_congr fun i hlo hhi => heq i (by omega) (by omega)).trans hx.type
  flags := (loadLE_congr fun i hlo hhi => heq i (by omega) (by omega)).trans hx.flags
  offset := (loadLE_congr fun i hlo hhi => heq i (by omega) (by omega)).trans hx.offset
  vaddr := (loadLE_congr fun i hlo hhi => heq i (by omega) (by omega)).trans hx.vaddr
  filesz := (loadLE_congr fun i hlo hhi => heq i (by omega) (by omega)).trans hx.filesz
  memsz := (loadLE_congr fun i hlo hhi => heq i (by omega) (by omega)).trans hx.memsz

theorem loadLE_of_bytes {x : σ} {m : Mem} {a b n : Nat}
    (h : ∀ i, i < n → M.load x (a + i) = some (m (b + i))) :
    loadLE M x a n = some (readLE m b n) := by
  induction n generalizing a b with
  | zero => rfl
  | succ n ih =>
      have hfirst := h 0 (by omega)
      have hrest := ih (a := a + 1) (b := b + 1) fun i hi => by
        have := h (i + 1) (by omega)
        rwa [Nat.add_right_comm, Nat.add_right_comm b]
      rw [Nat.add_zero, Nat.add_zero] at hfirst
      simp [loadLE, readLE, hfirst, hrest]

theorem headerAt_of_bytes {x : σ} {m : Mem} {a b : Nat}
    (h : ∀ i, i < 56 → M.load x (a + i) = some (m (b + i))) :
    HeaderAt M x a (Phdr.read m b) := by
  have hfield : ∀ off n, off + n ≤ 56 →
      loadLE M x (a + off) n = some (readLE m (b + off) n) := by
    intro off n hoff
    refine loadLE_of_bytes fun i hi => ?_
    rw [Nat.add_assoc, Nat.add_assoc]
    exact h (off + i) (by omega)
  exact ⟨hfield 0 4 (by omega), hfield 4 4 (by omega), hfield 8 8 (by omega),
    hfield 16 8 (by omega), hfield 32 8 (by omega), hfield 40 8 (by omega)⟩

/-! ## The file -/

/-- The file system delivers `file`: `Ahead x rest` says that `rest` is what
remains to be read. Reads may be short, and any call may fail. -/
structure Vfs.Delivers (V : Vfs φ) (filename : String) (file : List UInt8)
    (Ahead : φ → List UInt8 → Prop) : Prop where
  opened : ∀ x, V.openFile filename = some x → Ahead x file
  read : ∀ x rest n bytes x', Ahead x rest → V.read x n = (some bytes, x') →
    bytes.length ≤ n ∧ ∃ rest', rest = bytes ++ rest' ∧ Ahead x' rest'
  seek : ∀ x rest off x', Ahead x rest → 0 ≤ off → V.seek x off 0 = (true, x') →
    Ahead x' (file.drop off.toNat)

/-- The loader between two steps: headers `hs` in an allocation at `phdrs`. -/
structure Loading (L : Lawful M) (phdrs : Nat) (hs : List Phdr) (s : MemState σ)
    (bs : List Block) : Prop where
  ready : Ready L s bs
  table : Owned bs phdrs (56 * hs.length)
  headers : ∀ i (hi : i < hs.length), HeaderAt M s.mach (phdrs + 56 * i) hs[i]

namespace Loading

variable {phdrs : Nat} {hs : List Phdr}

/-- A step that keeps the bytes of the table keeps the headers. -/
theorem keep (h : Loading L phdrs hs s bs) {bs' : List Block} (hready : Ready L s' bs')
    (htable : Owned bs' phdrs (56 * hs.length))
    (hload : ∀ x, phdrs ≤ x → x < phdrs + 56 * hs.length → M.load s'.mach x = M.load s.mach x) :
    Loading L phdrs hs s' bs' :=
  ⟨hready, htable, fun i hi => (h.headers i hi).congr fun x hlo hhi =>
    hload x (by omega) (by omega)⟩

theorem stores (h : Loading L phdrs hs s bs) {m : Mem} {W : Nat → Prop}
    (hst : Stores L s s' m W) (hW : ∀ x, W x → Guarded bs x)
    (hout : ∀ x, W x → ¬ (phdrs ≤ x ∧ x < phdrs + 56 * hs.length)) :
    Loading L phdrs hs s' bs := by
  have hkeep : Untouched M s s' fun x => phdrs ≤ x ∧ x < phdrs + 56 * hs.length :=
    hst.untouched hout
  exact h.keep (h.ready.stores hst hW) h.table fun x hlo hhi => hkeep.load_eq x ⟨hlo, hhi⟩

end Loading

/-! ## Mapping the pages of a segment -/

theorem segmentFlags_user {flags a : Nat} (ha : userBase ≤ a) :
    segmentFlags flags a = segmentFlags flags userBase := by
  simp only [segmentFlags, ge_iff_le, ha, Nat.le_refl, if_true]

theorem segmentFlags_lt (flags a : Nat) : segmentFlags flags a < 4096 := by
  unfold segmentFlags
  split <;> split <;> decide

theorem user_pageRange {start : Nat} (haligned : start % 4096 = 0) : PageRange start (2 ^ 47) :=
  ⟨haligned, by decide, by decide, fun _ _ hx => Or.inl hx⟩

/-- The flags are read again for every page, and are the same each time. -/
theorem mapSegment_eq {phdr start flags : Nat} (hlow : userBase ≤ start)
    (haligned : start % 4096 = 0) (hphdr : kernelBase ≤ phdr) {i n : Nat}
    (hhigh : start + 4096 * (i + n) ≤ 2 ^ 47) (hok : L.Ok s.mach) (hfr : FramesOk L s)
    (hflags : pFlags M s.mach phdr = some flags) :
    mapSegment M phdr start i n s =
      some (s.mapPages M (segmentFlags flags userBase) start i n) := by
  induction n generalizing i s with
  | zero => rfl
  | succ n ih =>
      have hmod : (start + 4096 * i) % 2 ^ 64 = start + 4096 * i := Nat.mod_eq_of_lt (by omega)
      have hseg : segmentFlags flags (start + 4096 * i) = segmentFlags flags userBase :=
        segmentFlags_user (Nat.le_add_right_of_le hlow)
      simp only [mapSegment, MemState.mapPages, hflags, Option.bind_eq_bind, Option.bind_some, hmod,
        hseg]
      cases hone : s.mapFresh M (start + 4096 * i) (segmentFlags flags userBase) with
      | mk done s₁ =>
        cases done with
        | false => rfl
        | true =>
            have hmap := mapFresh_mapped (v := start + 4096 * i) hok hfr (Or.inl (by omega))
              (by omega) (segmentFlags_lt flags userBase) (by rw [hone])
            rw [hone] at hmap
            obtain ⟨hmap, hfr₁, -⟩ := hmap
            refine ih (by omega) hmap.ok hfr₁ (Eq.trans (loadLE_congr fun x hlo _ => ?_) hflags)
            have hbase : (2 ^ 47 : Nat) ≤ kernelBase := by decide
            exact (hmap.keep x (by omega)).1

theorem numPages_spec {h : Phdr} (huser : h.InUserSpace) :
    pageAlign h.vaddr + 4096 * numPages h.vaddr h.memsz = pageAlign (h.vaddr + h.memsz + 4095) ∧
      pageAlign (h.vaddr + h.memsz + 4095) ≤ 2 ^ 47 ∧ userBase ≤ pageAlign h.vaddr := by
  have hlow := huser.low
  have hhigh := huser.high
  unfold numPages pageAlign
  unfold userBase at *
  omega

namespace Loading

variable {phdrs i : Nat} {hs : List Phdr}

theorem phdr_high (h : Loading L phdrs hs s bs) : kernelBase ≤ phdrs + 56 * i :=
  Nat.le_add_right_of_le (h.table.bounds h.ready.heap).1

/-- The page loop replaces the pages of the segment and nothing else. -/
theorem mapSegment (h : Loading L phdrs hs s bs) (hi : i < hs.length)
    (huser : (hs[i]).InUserSpace)
    (hrun : Elf.mapSegment M (phdrs + 56 * i) (pageAlign hs[i].vaddr) 0
      (numPages hs[i].vaddr hs[i].memsz) s = some (true, s')) :
    Loading L phdrs hs s' bs ∧
      (∀ x, ¬ hs[i].Occupies x → M.load s'.mach x = M.load s.mach x) ∧
      ∀ x, hs[i].Occupies x → (M.load s'.mach x).isSome ∧
        ∀ z ∈ L.blank, M.load s'.mach x = some z := by
  obtain ⟨hpages, hhigh, hlow⟩ := numPages_spec huser
  have haligned := pageAlign_mod hs[i].vaddr
  have hbase : (2 ^ 47 : Nat) ≤ kernelBase := by decide
  rw [mapSegment_eq hlow haligned h.phdr_high (by omega) h.ready.heap.ok h.ready.frames
    (h.headers i hi).flags, Option.some.injEq] at hrun
  obtain ⟨hmap, hdone⟩ := mapPages_all kernelBase (user_pageRange haligned)
    (segmentFlags_lt _ _) (by omega) (Or.inl (by omega)) h.ready.heap.ok h.ready.frames hrun
  obtain ⟨-, hfr, hpage⟩ := hdone rfl
  rw [hpages] at hmap hpage
  have hkeep : ∀ x, ¬ hs[i].Occupies x → M.load s'.mach x = M.load s.mach x :=
    fun x hx => (hmap.keep x hx).1
  refine ⟨?_, hkeep, fun x hx => ?_⟩
  · refine h.keep (h.ready.mapping hmap (fun x hx => by omega) hfr) h.table fun x hlo _ => ?_
    have hhalf := h.phdr_high (i := 0)
    refine hkeep x fun hx => ?_
    have := hx.2
    omega
  · obtain ⟨hflags, hblank⟩ := hpage x hx.1 hx.2
    refine ⟨?_, hblank⟩
    rw [← L.flags_isSome, hflags]
    rfl

theorem storeUser (h : Loading L phdrs hs s bs) {a : Nat} {bytes : List UInt8}
    (hm : Mapped M s.mach a (a + bytes.length)) (ha : a + bytes.length ≤ 2 ^ 47) :
    ∃ s', storeBytes M s a bytes = some s' ∧ Loading L phdrs hs s' bs ∧
      ∀ x, M.load s'.mach x =
        if a ≤ x ∧ x < a + bytes.length then bytes[x - a]? else M.load s.mach x := by
  have hbase : (2 ^ 47 : Nat) ≤ kernelBase := by decide
  have hhalf := h.phdr_high (i := 0)
  obtain ⟨s', hs', hst, hload⟩ := storeBytes_load h.ready.heap.ok hm (by omega)
  refine ⟨s', hs', h.stores hst (fun x hx => Or.inl (by omega)) fun x hx hin => by omega, hload⟩

theorem storeBuffer (h : Loading L phdrs hs s bs) {p n : Nat} {bytes : List UInt8}
    (hp : Owned bs p n) (hne : phdrs ≠ p) (hn : bytes.length ≤ n) :
    ∃ s', storeBytes M s p bytes = some s' ∧ Loading L phdrs hs s' bs ∧
      ∀ x, M.load s'.mach x =
        if p ≤ x ∧ x < p + bytes.length then bytes[x - p]? else M.load s.mach x := by
  have hbelow := hp.below h.ready.heap
  have hapart := owned_apart h.table hp hne
  have hm : Mapped M s.mach p (p + bytes.length) :=
    (hp.mapped h.ready.heap).mono (Nat.le_refl p) (by omega)
  obtain ⟨s', hs', hst, hload⟩ := storeBytes_load h.ready.heap.ok hm (by omega)
  exact ⟨s', hs', h.stores hst (fun x hx => hp.guarded hx.1 (by omega)) fun x hx hin => by omega,
    hload⟩

theorem copyOut (h : Loading L phdrs hs s bs) {p n a : Nat} {bytes : List UInt8}
    (hp : Owned bs p n) (hn : bytes.length ≤ n)
    (hbytes : ∀ i, i < bytes.length → M.load s.mach (p + i) = bytes[i]?)
    (hm : Mapped M s.mach a (a + bytes.length)) (ha : a + bytes.length ≤ 2 ^ 47) :
    ∃ s', memcpy M s a p bytes.length = some s' ∧ Loading L phdrs hs s' bs ∧
      ∀ x, M.load s'.mach x =
        if a ≤ x ∧ x < a + bytes.length then bytes[x - a]? else M.load s.mach x := by
  have hbase : (2 ^ 47 : Nat) ≤ kernelBase := by decide
  have hbounds := hp.bounds h.ready.heap
  have hbelow := hp.below h.ready.heap
  rw [memcpy_eq h.ready.heap.ok hbytes hm (Or.inl (by omega)) (by omega) (by omega)]
  exact h.storeUser hm ha

end Loading

/-! ## Reading the file part -/

theorem toInt32_of_lt {n : Nat} (h : n < 2 ^ 31) : toInt32 n = n := by
  unfold toInt32
  apply Int.bmod_eq_of_le_mul_two
  · omega
  · omega

section Copy

variable {V : Vfs φ} {filename : String} {file : List UInt8} {Ahead : φ → List UInt8 → Prop}
variable {phdrs i : Nat} {hs : List Phdr} {st st' : LoadState σ φ}

theorem giveUp_false : giveUp V M phdrs st ≠ some (true, st') := by
  intro h
  obtain ⟨mem, -, hret⟩ := Option.bind_eq_some_iff.mp h
  cases hret

/-- The buffer holds what the file has at the segment's offset, and is copied to
the segment's address. -/
theorem copySegment_spec (hstop : StopsAt L kernelBase (heapLimit + 1))
    (hV : V.Delivers filename file Ahead) (h : Loading L phdrs hs st.mem bs) (hi : i < hs.length)
    (huser : (hs[i]).InUserSpace) (hfile : Ahead st.file (file.drop hs[i].offset))
    (hm : Mapped M st.mem.mach hs[i].vaddr (hs[i].vaddr + hs[i].memsz))
    (hrun : copySegment V M phdrs (phdrs + 56 * i) st = some (true, st')) :
    ∃ bs', Loading L phdrs hs st'.mem bs' ∧ (∃ rest, Ahead st'.file rest) ∧
      (∀ j, j < hs[i].filesz → (file[hs[i].offset + j]?).isSome) ∧
      ∀ x, x < kernelBase → M.load st'.mem.mach x =
        if hs[i].vaddr ≤ x ∧ x < hs[i].vaddr + hs[i].filesz then
          file[hs[i].offset + (x - hs[i].vaddr)]?
        else M.load st.mem.mach x := by
  have hsize := huser.filesz_lt
  have hle := huser.filesz_le
  have hhigh := huser.high
  have hbase : (2 ^ 47 : Nat) ≤ kernelBase := by decide
  unfold copySegment at hrun
  simp only [(h.headers i hi).filesz, Option.bind_eq_bind, Option.bind_some] at hrun
  by_cases hzero : hs[i].filesz = 0
  · rw [if_pos hzero] at hrun
    cases hrun
    refine ⟨bs, h, ⟨_, hfile⟩, fun j hj => by omega, fun x _ => ?_⟩
    rw [if_neg (by omega)]
  · rw [if_neg hzero] at hrun
    obtain ⟨⟨buffer, mem₁⟩, hmalloc, hrun⟩ := Option.bind_eq_some_iff.mp hrun
    dsimp only at hrun
    by_cases hnull : buffer = 0
    · rw [if_pos hnull] at hrun
      exact absurd hrun giveUp_false
    · rw [if_neg hnull] at hrun
      obtain ⟨bs₁, hready₁, hbuf, hkeep₁, hold₁⟩ := h.ready.kmalloc hstop (by omega) hmalloc hnull
      obtain ⟨htable₁, hne⟩ := hold₁ _ _ h.table
      have hbounds := hbuf.bounds hready₁.heap
      have h₁ : Loading L phdrs hs mem₁ bs₁ := h.keep hready₁ htable₁ fun x hlo hhi =>
        hkeep₁ x (h.table.guarded hlo hhi)
      have hcount : hs[i].filesz % 2 ^ 32 = hs[i].filesz := Nat.mod_eq_of_lt (by omega)
      simp only [(h₁.headers i hi).filesz, Option.bind_some, hcount] at hrun
      cases hread : V.read st.file hs[i].filesz with
      | mk res file₁ =>
        rw [hread] at hrun
        cases res with
        | none =>
            obtain ⟨mem₂, -, hrun⟩ := Option.bind_eq_some_iff.mp hrun
            exact absurd hrun giveUp_false
        | some bytes =>
            obtain ⟨hlen, rest, hrest, hahead⟩ := hV.read _ _ _ _ _ hfile hread
            obtain ⟨mem₂, hmem₂, h₂, hload₂⟩ := h₁.storeBuffer hbuf hne hlen
            simp only [hmem₂, (h₂.headers i hi).filesz, Option.bind_some] at hrun
            by_cases hshort : bytes.length ≠ hs[i].filesz
            · rw [if_pos hshort] at hrun
              obtain ⟨mem₃, -, hrun⟩ := Option.bind_eq_some_iff.mp hrun
              exact absurd hrun giveUp_false
            · have hsame : hs[i].filesz = bytes.length := (Decidable.not_not.mp hshort).symm
              have huser₂ : ∀ x, x < kernelBase → M.load mem₂.mach x = M.load st.mem.mach x := by
                intro x hx
                rw [hload₂ x, if_neg (by omega)]
                exact hkeep₁ x (Or.inl hx)
              rw [if_neg hshort] at hrun
              simp only [(h₂.headers i hi).vaddr, Option.bind_some, hsame] at hrun
              obtain ⟨mem₃, hmem₃, h₃, hload₃⟩ := h₂.copyOut (a := hs[i].vaddr) hbuf hlen
                (fun j hj => by rw [hload₂, if_pos (by omega), Nat.add_sub_cancel_left])
                (fun x hlo hhi => by rw [huser₂ x (by omega)]; exact hm x hlo (by omega)) (by omega)
              simp only [hmem₃, Option.bind_some] at hrun
              obtain ⟨mem₄, hfree, hrun⟩ := Option.bind_eq_some_iff.mp hrun
              cases hrun
              obtain ⟨bs₄, hready₄, hkeep₄, hold₄⟩ := h₃.ready.kfree hbuf hfree
              refine ⟨bs₄, h₃.keep hready₄ (hold₄ _ _ h₃.table hne) fun x hlo hhi =>
                hkeep₄ x (h₃.table.guarded hlo hhi), ⟨rest, hahead⟩, fun j hj => ?_, fun x hx => ?_⟩
              · rw [← List.getElem?_drop, hrest, List.getElem?_append_left (by omega)]
                simpa using Nat.lt_of_lt_of_eq hj hsame
              · rw [hkeep₄ x (Or.inl hx), hload₃ x, huser₂ x hx, hsame, ← List.getElem?_drop, hrest]
                by_cases hin : hs[i].vaddr ≤ x ∧ x < hs[i].vaddr + bytes.length
                · rw [if_pos hin, if_pos hin, List.getElem?_append_left (by omega)]
                · rw [if_neg hin, if_neg hin]

theorem clearBss_spec {s s' : MemState σ} (h : Loading L phdrs hs s bs) (hi : i < hs.length)
    (huser : (hs[i]).InUserSpace)
    (hm : Mapped M s.mach hs[i].vaddr (hs[i].vaddr + hs[i].memsz))
    (hrun : clearBss M (phdrs + 56 * i) s = some s') :
    Loading L phdrs hs s' bs ∧ ∀ x, M.load s'.mach x =
      if hs[i].vaddr + hs[i].filesz ≤ x ∧ x < hs[i].vaddr + hs[i].memsz then some 0
      else M.load s.mach x := by
  have hle := huser.filesz_le
  have hhigh := huser.high
  unfold clearBss at hrun
  simp only [(h.headers i hi).memsz, (h.headers i hi).filesz, (h.headers i hi).vaddr,
    Option.bind_eq_bind, Option.bind_some] at hrun
  by_cases hbss : hs[i].memsz > hs[i].filesz
  · rw [if_pos hbss, memzero_eq] at hrun
    generalize hzeros : List.replicate (hs[i].memsz - hs[i].filesz) (0 : UInt8) = zeros at hrun
    have hend : hs[i].vaddr + hs[i].filesz + zeros.length = hs[i].vaddr + hs[i].memsz := by
      rw [← hzeros, List.length_replicate]
      omega
    have hm' : Mapped M s.mach (hs[i].vaddr + hs[i].filesz)
        (hs[i].vaddr + hs[i].filesz + zeros.length) := hm.mono (by omega) (by omega)
    obtain ⟨t, ht, hload, hbytes⟩ := h.storeUser hm' (by omega)
    cases hrun.symm.trans ht
    refine ⟨hload, fun x => ?_⟩
    rw [hbytes x, hend, ← hzeros]
    by_cases hx : hs[i].vaddr + hs[i].filesz ≤ x ∧ x < hs[i].vaddr + hs[i].memsz
    · rw [if_pos hx, if_pos hx, List.getElem?_replicate, if_pos (by omega)]
    · rw [if_neg hx, if_neg hx]
  · rw [if_neg hbss] at hrun
    cases hrun
    refine ⟨h, fun x => ?_⟩
    rw [if_neg (by omega)]

/-- One segment, seen from user space. -/
structure PlacedBy (L : Lawful M) (file : List UInt8) (h : Phdr) (x y : σ) : Prop where
  covered : ∀ a, h.Covers a → M.load y a = h.prescribed file a
  blank : ∀ a, h.Occupies a → ¬ h.Covers a → ∀ z ∈ L.blank, M.load y a = some z
  kept : ∀ a, a < kernelBase → ¬ h.Occupies a → M.load y a = M.load x a

theorem placedBy_of_loads {h : Phdr} {x₀ x₁ x₂ x₃ : σ} (huser : h.InUserSpace)
    (hkeep : ∀ a, ¬ h.Occupies a → M.load x₁ a = M.load x₀ a)
    (hpages : ∀ a, h.Occupies a → (M.load x₁ a).isSome ∧ ∀ z ∈ L.blank, M.load x₁ a = some z)
    (hcopy : ∀ a, a < kernelBase → M.load x₂ a =
      if h.vaddr ≤ a ∧ a < h.vaddr + h.filesz then file[h.offset + (a - h.vaddr)]?
      else M.load x₁ a)
    (hclear : ∀ a, M.load x₃ a =
      if h.vaddr + h.filesz ≤ a ∧ a < h.vaddr + h.memsz then some 0 else M.load x₂ a) :
    PlacedBy L file h x₀ x₃ := by
  have hle := huser.filesz_le
  have hbase : (2 ^ 47 : Nat) ≤ kernelBase := by decide
  have htop := (numPages_spec huser).2.1
  have hout : ∀ a, a < kernelBase → ¬ h.Covers a → M.load x₃ a = M.load x₁ a := by
    intro a ha hnot
    unfold Phdr.Covers at hnot
    rw [hclear a, if_neg (by omega), hcopy a ha, if_neg (by omega)]
  refine ⟨fun a ha => ?_, fun a ha hnot => ?_, fun a ha hnot => ?_⟩
  · have hlow : a < kernelBase := by
      have := (Phdr.occupies_of_covers ha).2
      omega
    unfold Phdr.Covers at ha
    rw [hclear a, hcopy a hlow, Phdr.prescribed]
    by_cases hfile : a < h.vaddr + h.filesz
    · rw [if_neg (by omega), if_pos ⟨ha.1, hfile⟩, if_pos hfile]
    · rw [if_pos (by omega), if_neg hfile]
  · have hlow : a < kernelBase := by
      have := ha.2
      omega
    rw [hout a hlow hnot]
    exact (hpages a ha).2
  · rw [hout a ha fun hc => hnot (Phdr.occupies_of_covers hc)]
    exact hkeep a hnot

theorem loadSegment_spec (hstop : StopsAt L kernelBase (heapLimit + 1))
    (hV : V.Delivers filename file Ahead) (h : Loading L phdrs hs st.mem bs) (hi : i < hs.length)
    (hload : (hs[i]).type = ptLoad) (huser : (hs[i]).InUserSpace)
    (hfile : ∃ rest, Ahead st.file rest)
    (hrun : loadSegment V M phdrs (phdrs + 56 * i) st = some (true, st')) :
    ∃ bs', Loading L phdrs hs st'.mem bs' ∧ (∃ rest, Ahead st'.file rest) ∧
      PlacedBy L file hs[i] st.mem.mach st'.mem.mach := by
  obtain ⟨rest, hrest⟩ := hfile
  have hoff := huser.offset_lt
  have hle := huser.filesz_le
  have hhigh := huser.high
  have hbase : (2 ^ 47 : Nat) ≤ kernelBase := by decide
  unfold loadSegment at hrun
  rw [(h.headers i hi).type, Option.bind_eq_bind, Option.bind_some,
    if_neg (fun hne => hne hload), (h.headers i hi).vaddr, Option.bind_eq_bind, Option.bind_some,
    (h.headers i hi).memsz, Option.bind_eq_bind, Option.bind_some] at hrun
  obtain ⟨⟨mapped, mem₁⟩, hmap, hrun⟩ := Option.bind_eq_some_iff.mp hrun
  cases mapped with
  | false =>
      dsimp only at hrun
      exact absurd hrun giveUp_false
  | true =>
      obtain ⟨h₁, hkeep₁, hpages⟩ := h.mapSegment hi huser hmap
      simp only [(h₁.headers i hi).offset, Option.bind_some] at hrun
      cases hseek : V.seek st.file (toInt32 hs[i].offset) 0 with
      | mk found file₁ =>
        rw [hseek] at hrun
        cases found with
        | false =>
            dsimp only at hrun
            exact absurd hrun giveUp_false
        | true =>
            rw [toInt32_of_lt hoff] at hseek
            have hahead := hV.seek _ _ _ _ hrest (Int.natCast_nonneg _) hseek
            rw [Int.toNat_natCast] at hahead
            have hcovered : ∀ x, hs[i].Covers x → (M.load mem₁.mach x).isSome := fun x hx =>
              (hpages x (Phdr.occupies_of_covers hx)).1
            obtain ⟨⟨copied, st₂⟩, hcopy, hrun⟩ := Option.bind_eq_some_iff.mp hrun
            cases copied with
            | false =>
                dsimp only at hrun
                cases hrun
            | true =>
                obtain ⟨bs₂, h₂, hahead₂, hsome, hload₂⟩ := copySegment_spec hstop hV h₁ hi huser
                  hahead (fun x hlo hhi => hcovered x ⟨hlo, hhi⟩) hcopy
                have hm₂ : Mapped M st₂.mem.mach hs[i].vaddr (hs[i].vaddr + hs[i].memsz) := by
                  intro x hlo hhi
                  rw [hload₂ x (by omega)]
                  split
                  · exact hsome _ (by omega)
                  · exact hcovered x ⟨hlo, hhi⟩
                dsimp only at hrun
                obtain ⟨mem₃, hclear, hrun⟩ := Option.bind_eq_some_iff.mp hrun
                cases hrun
                obtain ⟨h₃, hload₃⟩ := clearBss_spec h₂ hi huser hm₂ hclear
                exact ⟨bs₂, h₃, hahead₂, placedBy_of_loads huser hkeep₁ hpages hload₂ hload₃⟩

end Copy

end Kaviz.Elf
