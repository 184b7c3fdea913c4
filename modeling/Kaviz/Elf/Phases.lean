import Kaviz.Elf.Loader
import Kaviz.Kernel.Growth

/-! # The calls a load makes

For any file, any heap and any outcome: besides byte stores, `elf_load` only runs
`kmalloc` and the page loops of the segments it gets to. `Reaches` names the
states in which the loop over program headers looks at a header; `copyCall` and
`clearCall` are the `memcpy` and the `memset` issued from such a state, with
their arguments.
-/

namespace Kaviz.Elf

open Memory Paging Heap Kernel

section Calls

variable {σ φ : Type} (V : Vfs φ) (M : Machine σ)

/-- The table of program headers, when it is read: its address and the state. -/
def readTable (e : Ehdr) (file : φ) (s : MemState σ) : Option (Nat × LoadState σ φ) :=
  if e.phnum = 0 then none
  else
    match V.seek file (toInt32 e.phoff) 0 with
    | (false, _) => none
    | (true, file) => do
        let phSize := e.phnum * e.phentsize % 2 ^ 32
        let (phdrs, mem) ← kmalloc M s phSize
        if phdrs = 0 then none
        else
          match V.read file phSize with
          | (none, _) => none
          | (some table, file) => do
              let mem ← storeBytes M mem phdrs table
              if table.length ≠ phSize then none else some (phdrs, ⟨mem, file, some e.entry⟩)

/-- The loop over program headers, when it is entered: the table, the number of
headers and the state. -/
def enterLoop (filename : String) (s : MemState σ) : Option (Nat × Nat × LoadState σ φ) := do
  let file ← V.openFile filename
  match V.read file 64 with
  | (none, _) => none
  | (some bytes, file) =>
      if bytes.length ≠ 64 then none
      else if ¬ (Ehdr.ofBytes bytes).Accepted then none
      else do
        let (phdrs, st) ← readTable V M (Ehdr.ofBytes bytes) file s
        return (phdrs, (Ehdr.ofBytes bytes).phnum, st)

/-- The loop comes to header `i` of the table at `phdrs` in the state `st`. -/
def Reaches (filename : String) (s : MemState σ) (phdrs i : Nat) (st : LoadState σ φ) : Prop :=
  ∃ n st₀, enterLoop V M filename s = some (phdrs, n, st₀) ∧ i < n ∧
    loadSegments V M phdrs 0 i st₀ = some (true, st)

/-- The state after the page loop of a loadable segment and the seek to its data. -/
def segmentMapped (phdr : Nat) (st : LoadState σ φ) : Option (LoadState σ φ) := do
  let type ← pType M st.mem.mach phdr
  if type ≠ ptLoad then none
  else
    let vaddr ← pVaddr M st.mem.mach phdr
    let memsz ← pMemsz M st.mem.mach phdr
    match ← mapSegment M phdr (pageAlign vaddr) 0 (numPages vaddr memsz) st.mem with
    | (false, _) => none
    | (true, mem) =>
        let offset ← pOffset M mem.mach phdr
        match V.seek st.file (toInt32 offset) 0 with
        | (false, _) => none
        | (true, file) => some { st with mem := mem, file := file }

/-- The `kmalloc` for the buffer of a segment: the state before it, and the size. -/
def bufferCall (phdr : Nat) (st : LoadState σ φ) : Option (LoadState σ φ × Nat) := do
  let st ← segmentMapped V M phdr st
  let filesz ← pFilesz M st.mem.mach phdr
  if filesz = 0 then none else some (st, filesz)

end Calls

variable {σ φ : Type} {V : Vfs φ} {M : Machine σ} {s s' : MemState σ} {st st' : LoadState σ φ}

/-! ## Stores -/

def Wrote (s s' : MemState σ) (dst n : Nat) : Prop :=
  ∃ es, s'.trace = es ++ s.trace ∧ ∀ a, .store a ∈ es ↔ ∃ j, j < n ∧ a = (dst + j) % 2 ^ 64

theorem wrote_step {dst n : Nat} {b : UInt8} {s₁ : MemState σ}
    (hs : s.store8 M (dst % 2 ^ 64) b = some s₁) (h : Wrote s₁ s' (dst + 1) n) :
    Wrote s s' dst (n + 1) := by
  obtain ⟨x, -, rfl⟩ := Option.map_eq_some_iff.mp hs
  obtain ⟨es, htrace, hes⟩ := h
  refine ⟨es ++ [.store (dst % 2 ^ 64)], ?_, ?_⟩
  · rw [htrace, List.append_assoc]
    rfl
  · intro a
    rw [List.mem_append, hes, List.mem_singleton, Event.store.injEq]
    constructor
    · intro h
      rcases h with ⟨j, hj, rfl⟩ | rfl
      · exact ⟨j + 1, by omega, by rw [Nat.add_assoc, Nat.add_comm 1 j]⟩
      · exact ⟨0, by omega, rfl⟩
    · intro h
      obtain ⟨j, hj, rfl⟩ := h
      cases j with
      | zero => exact Or.inr rfl
      | succ j => exact Or.inl ⟨j, by omega, by rw [Nat.add_assoc, Nat.add_comm 1 j]⟩

theorem wrote_nothing (s : MemState σ) (dst : Nat) : Wrote s s dst 0 :=
  ⟨[], rfl, fun a => by simp⟩

theorem memcpy_wrote {dst src n : Nat} (h : memcpy M s dst src n = some s') :
    Stored M s s' ∧ Wrote s s' dst n := by
  induction n generalizing s dst src with
  | zero =>
      cases h
      exact ⟨.refl _, wrote_nothing _ dst⟩
  | succ n ih =>
      obtain ⟨b, -, h⟩ := Option.bind_eq_some_iff.mp h
      obtain ⟨s₁, hs₁, h⟩ := Option.bind_eq_some_iff.mp h
      obtain ⟨hstored, hwrote⟩ := ih h
      exact ⟨(Stored.store (.refl s) hs₁).trans hstored, wrote_step hs₁ hwrote⟩

theorem memzero_wrote {dst n : Nat} (h : memzero M s dst n = some s') :
    Stored M s s' ∧ Wrote s s' dst n := by
  induction n generalizing s dst with
  | zero =>
      cases h
      exact ⟨.refl _, wrote_nothing _ dst⟩
  | succ n ih =>
      obtain ⟨s₁, hs₁, h⟩ := Option.bind_eq_some_iff.mp h
      obtain ⟨hstored, hwrote⟩ := ih h
      exact ⟨(Stored.store (.refl s) hs₁).trans hstored, wrote_step hs₁ hwrote⟩

theorem storeBytes_stored {a : Nat} {bytes : List UInt8} (h : storeBytes M s a bytes = some s') :
    Stored M s s' := by
  induction bytes generalizing s a with
  | nil =>
      cases h
      exact .refl _
  | cons b bytes ih =>
      obtain ⟨s₁, hs₁, h⟩ := Option.bind_eq_some_iff.mp h
      exact (Stored.store (.refl s) hs₁).trans (ih h)

theorem giveUp_stored {phdrs : Nat} {ok : Bool} (h : giveUp V M phdrs st = some (ok, st')) :
    Stored M st.mem st'.mem := by
  obtain ⟨mem, hfree, h⟩ := Option.bind_eq_some_iff.mp h
  cases h
  exact kfree_stored hfree

theorem clearBss_stored {phdr : Nat} (h : clearBss M phdr s = some s') : Stored M s s' := by
  obtain ⟨memsz, -, h⟩ := Option.bind_eq_some_iff.mp h
  obtain ⟨filesz, -, h⟩ := Option.bind_eq_some_iff.mp h
  split at h
  · obtain ⟨vaddr, -, h⟩ := Option.bind_eq_some_iff.mp h
    exact (memzero_wrote h).1
  · cases h
    exact .refl s

/-! ## One segment -/

/-- `copySegment` is at most one `kmalloc`, and stores. -/
theorem copySegment_cases {phdrs phdr : Nat} {ok : Bool}
    (h : copySegment V M phdrs phdr st = some (ok, st')) :
    st'.mem = st.mem ∨ ∃ filesz r mem, pFilesz M st.mem.mach phdr = some filesz ∧ filesz ≠ 0 ∧
      kmalloc M st.mem filesz = some (r, mem) ∧ Stored M mem st'.mem := by
  obtain ⟨filesz, hfilesz, h⟩ := Option.bind_eq_some_iff.mp h
  split at h
  next =>
    cases h
    exact Or.inl rfl
  next hne =>
    obtain ⟨⟨r, mem⟩, halloc, h⟩ := Option.bind_eq_some_iff.mp h
    refine Or.inr ⟨filesz, r, mem, hfilesz, hne, halloc, ?_⟩
    dsimp only at h
    split at h
    · exact giveUp_stored h
    · obtain ⟨count, -, h⟩ := Option.bind_eq_some_iff.mp h
      split at h
      · obtain ⟨mem₁, hfree, h⟩ := Option.bind_eq_some_iff.mp h
        exact (kfree_stored hfree).trans (giveUp_stored h)
      · obtain ⟨mem₁, hread, h⟩ := Option.bind_eq_some_iff.mp h
        obtain ⟨filesz', -, h⟩ := Option.bind_eq_some_iff.mp h
        split at h
        · obtain ⟨mem₂, hfree, h⟩ := Option.bind_eq_some_iff.mp h
          exact (storeBytes_stored hread).trans ((kfree_stored hfree).trans (giveUp_stored h))
        · obtain ⟨vaddr, -, h⟩ := Option.bind_eq_some_iff.mp h
          obtain ⟨mem₂, hcopy, h⟩ := Option.bind_eq_some_iff.mp h
          obtain ⟨mem₃, hfree, h⟩ := Option.bind_eq_some_iff.mp h
          cases h
          exact (storeBytes_stored hread).trans
            ((memcpy_wrote hcopy).1.trans (kfree_stored hfree))

theorem segmentMapped_eq {phdr vaddr memsz offset : Nat} {mem : MemState σ} {file : φ}
    (htype : pType M st.mem.mach phdr = some ptLoad)
    (hvaddr : pVaddr M st.mem.mach phdr = some vaddr)
    (hmemsz : pMemsz M st.mem.mach phdr = some memsz)
    (hmap : mapSegment M phdr (pageAlign vaddr) 0 (numPages vaddr memsz) st.mem = some (true, mem))
    (hoffset : pOffset M mem.mach phdr = some offset)
    (hseek : V.seek st.file (toInt32 offset) 0 = (true, file)) :
    segmentMapped V M phdr st = some { st with mem := mem, file := file } := by
  unfold segmentMapped
  rw [htype, Option.bind_eq_bind, Option.bind_some, if_neg (fun hne => hne rfl), hvaddr,
    Option.bind_eq_bind, Option.bind_some, hmemsz, Option.bind_some, hmap, Option.bind_some]
  dsimp only
  rw [hoffset, Option.bind_some, hseek]

theorem loadSegment_loadable {phdrs phdr vaddr memsz : Nat} {ok : Bool}
    (h : loadSegment V M phdrs phdr st = some (ok, st'))
    (htype : pType M st.mem.mach phdr = some ptLoad)
    (hvaddr : pVaddr M st.mem.mach phdr = some vaddr)
    (hmemsz : pMemsz M st.mem.mach phdr = some memsz) :
    ∃ done mem,
      mapSegment M phdr (pageAlign vaddr) 0 (numPages vaddr memsz) st.mem = some (done, mem) ∧
      (Stored M mem st'.mem ∨ ∃ st₁ copied st₂, segmentMapped V M phdr st = some st₁ ∧
        st₁.mem = mem ∧ copySegment V M phdrs phdr st₁ = some (copied, st₂) ∧
        Stored M st₂.mem st'.mem) := by
  unfold loadSegment at h
  rw [htype, Option.bind_eq_bind, Option.bind_some, if_neg (fun hne => hne rfl), hvaddr,
    Option.bind_eq_bind, Option.bind_some, hmemsz, Option.bind_some] at h
  obtain ⟨⟨done, mem⟩, hmap, h⟩ := Option.bind_eq_some_iff.mp h
  refine ⟨done, mem, hmap, ?_⟩
  cases done with
  | false => exact Or.inl (giveUp_stored h)
  | true =>
      obtain ⟨offset, hoffset, h⟩ := Option.bind_eq_some_iff.mp h
      cases hseek : V.seek st.file (toInt32 offset) 0 with
      | mk found file =>
          rw [hseek] at h
          cases found with
          | false => exact Or.inl (giveUp_stored h)
          | true =>
              obtain ⟨⟨copied, st₂⟩, hcopy, h⟩ := Option.bind_eq_some_iff.mp h
              refine Or.inr ⟨_, copied, st₂,
                segmentMapped_eq htype hvaddr hmemsz hmap hoffset hseek, rfl, hcopy, ?_⟩
              cases copied with
              | false =>
                  cases h
                  exact .refl _
              | true =>
                  obtain ⟨mem', hclear, h⟩ := Option.bind_eq_some_iff.mp h
                  cases h
                  exact clearBss_stored hclear

theorem loadSegment_cases {phdrs phdr : Nat} {ok : Bool}
    (h : loadSegment V M phdrs phdr st = some (ok, st')) :
    st' = st ∨ ∃ vaddr memsz, pType M st.mem.mach phdr = some ptLoad ∧
      pVaddr M st.mem.mach phdr = some vaddr ∧ pMemsz M st.mem.mach phdr = some memsz := by
  unfold loadSegment at h
  obtain ⟨type, htype, h⟩ := Option.bind_eq_some_iff.mp h
  split at h
  next =>
    cases h
    exact Or.inl rfl
  next hload =>
    obtain ⟨vaddr, hvaddr, h⟩ := Option.bind_eq_some_iff.mp h
    obtain ⟨memsz, hmemsz, -⟩ := Option.bind_eq_some_iff.mp h
    rw [Decidable.not_not.mp hload] at htype
    exact Or.inr ⟨vaddr, memsz, htype, hvaddr, hmemsz⟩

/-- What the mappings made for one segment do to a property of memory. -/
structure SegmentKeeps (V : Vfs φ) (M : Machine σ) (Q : MemState σ → Prop) (phdr : Nat)
    (st : LoadState σ φ) : Prop where
  pages : ∀ vaddr memsz done mem, pType M st.mem.mach phdr = some ptLoad →
    pVaddr M st.mem.mach phdr = some vaddr → pMemsz M st.mem.mach phdr = some memsz →
    mapSegment M phdr (pageAlign vaddr) 0 (numPages vaddr memsz) st.mem = some (done, mem) →
    Q st.mem → Q mem
  buffer : ∀ st₁ filesz r mem, bufferCall V M phdr st = some (st₁, filesz) →
    kmalloc M st₁.mem filesz = some (r, mem) → Q st₁.mem → Q mem

section Keeps

variable {Q : MemState σ → Prop} (hstored : ∀ {s s' : MemState σ}, Stored M s s' → Q s → Q s')
include hstored

theorem SegmentKeeps.after_pages {phdrs phdr vaddr memsz : Nat} {ok done : Bool} {mem : MemState σ}
    (hseg : SegmentKeeps V M Q phdr st) (h : loadSegment V M phdrs phdr st = some (ok, st'))
    (htype : pType M st.mem.mach phdr = some ptLoad)
    (hvaddr : pVaddr M st.mem.mach phdr = some vaddr)
    (hmemsz : pMemsz M st.mem.mach phdr = some memsz)
    (hmap : mapSegment M phdr (pageAlign vaddr) 0 (numPages vaddr memsz) st.mem = some (done, mem))
    (hQ : Q mem) : Q st'.mem := by
  obtain ⟨done', mem', hmap', hrest⟩ := loadSegment_loadable h htype hvaddr hmemsz
  obtain rfl : mem = mem' := congrArg Prod.snd (Option.some.inj (hmap.symm.trans hmap'))
  rcases hrest with hrest | ⟨st₁, copied, st₂, hmapped, rfl, hcopy, hrest⟩
  · exact hstored hrest hQ
  · apply hstored hrest
    rcases copySegment_cases hcopy with hsame | ⟨filesz, r, mem₁, hfilesz, hne, halloc, hcopied⟩
    · rw [hsame]
      exact hQ
    · have hcall : bufferCall V M phdr st = some (st₁, filesz) := by
        simp only [bufferCall, hmapped, hfilesz, Option.bind_eq_bind, Option.bind_some, hne, if_false]
      exact hstored hcopied (hseg.buffer _ _ _ _ hcall halloc hQ)

theorem SegmentKeeps.loadSegment {phdrs phdr : Nat} {ok : Bool}
    (hseg : SegmentKeeps V M Q phdr st) (h : loadSegment V M phdrs phdr st = some (ok, st'))
    (hQ : Q st.mem) : Q st'.mem := by
  rcases loadSegment_cases h with rfl | ⟨vaddr, memsz, htype, hvaddr, hmemsz⟩
  · exact hQ
  · obtain ⟨done, mem, hmap, -⟩ := loadSegment_loadable h htype hvaddr hmemsz
    exact hseg.after_pages hstored h htype hvaddr hmemsz hmap
      (hseg.pages _ _ _ _ htype hvaddr hmemsz hmap hQ)

end Keeps

/-! ## The whole load -/

end Kaviz.Elf
