import Kaviz.Elf.Records
import Kaviz.Kernel.HeapRoom

/-! # Buffers of the ELF loader

`elf_load` reads the program headers into one buffer and each segment into
another. The table is allocated with `e_phentsize` bytes a header and indexed as
an array of `Elf64_Phdr`; a segment's buffer is allocated with a 64-bit size and
filled with a 32-bit count. The services log what happens to the buffers.
-/

namespace Kaviz.Elf

open Calls Paging Memory Heap Kernel

variable {ω : Type}

/-- What `elf_load` does with its buffers. -/
inductive Access
  /-- `kmalloc` has handed out a buffer. -/
  | granted (size pointer : Nat)
  /-- `vfs_read` is asked for so many bytes, into the buffer handed out last. -/
  | read (count : Nat)
  /-- A field of a program header is read. -/
  | look (address length : Nat)
  deriving DecidableEq

/-- The same services, with a log. -/
def Services.watched (S : Services ω) : Services (ω × List Access) where
  vfsOpen filename := noted (S.vfsOpen filename) fun _ log => log
  vfsRead n := noted (S.vfsRead n) fun _ log => .read n :: log
  vfsSeek offset whence := noted (S.vfsSeek offset whence) fun _ log => log
  vfsClose := noted S.vfsClose fun _ log => log
  kmalloc n := noted (S.kmalloc n) fun p log =>
    if p = 0 then log else .granted (n % 2 ^ 64) p :: log
  kfree p := noted (S.kfree p) fun _ log => log
  allocPhysicalPage := noted S.allocPhysicalPage fun _ log => log
  mapPage v p f := noted (S.mapPage v p f) fun _ log => log
  load a n := noted (S.load a n) fun _ log => .look a n :: log
  store a bytes := noted (S.store a bytes) fun _ log => log
  memcpy dst src n := noted (S.memcpy dst src n) fun _ log => log
  memzero dst n := noted (S.memzero dst n) fun _ log => log
  setEntry entry := noted (S.setEntry entry) fun _ log => log

/-! ## The log changes no run -/

section Erasure

variable (S : Services ω) (phdrs phdr : Nat)

theorem closeOnly_erases : Erases S.watched.closeOnly S.closeOnly :=
  (Erases.call _ _ _).bind fun _ => Erases.pure false

theorem giveUp_erases : Erases (S.watched.giveUp phdrs) (S.giveUp phdrs) :=
  (Erases.call _ _ _).bind fun _ => (Erases.call _ _ _).bind fun _ => Erases.pure false

theorem mapSegment_erases (startPage i n : Nat) :
    Erases (S.watched.mapSegment phdr startPage i n) (S.mapSegment phdr startPage i n) := by
  induction n generalizing i with
  | zero => exact Erases.pure true
  | succ n ih =>
      refine (Erases.call _ _ _).bind ?_
      intro page
      by_cases hnull : page = 0
      · rw [if_pos hnull, if_pos hnull]
        exact Erases.pure false
      · rw [if_neg hnull, if_neg hnull]
        refine (Erases.silent _ _).bind ?_
        intro flags
        refine (Erases.call _ _ _).bind ?_
        intro ret
        by_cases hret : ret ≠ 0
        · rw [if_pos hret, if_pos hret]
          exact Erases.pure false
        · rw [if_neg hret, if_neg hret]
          exact ih (i + 1)

theorem copySegment_erases : Erases (S.watched.copySegment phdrs phdr) (S.copySegment phdrs phdr) := by
  refine (Erases.silent _ _).bind ?_
  intro filesz
  by_cases hempty : filesz = 0
  · rw [if_pos hempty, if_pos hempty]
    exact Erases.pure true
  · rw [if_neg hempty, if_neg hempty]
    refine (Erases.call _ _ _).bind ?_
    intro buffer
    by_cases hnull : buffer = 0
    · rw [if_pos hnull, if_pos hnull]
      exact giveUp_erases S phdrs
    · rw [if_neg hnull, if_neg hnull]
      refine (Erases.silent _ _).bind ?_
      intro count
      refine (Erases.call _ _ _).bind ?_
      intro answer
      cases answer with
      | none => exact (Erases.call _ _ _).bind fun _ => giveUp_erases S phdrs
      | some bytes =>
          refine (Erases.silent _ _).bind ?_
          intro _
          refine (Erases.silent _ _).bind ?_
          intro filesz'
          by_cases hshort : bytes.length ≠ filesz'
          · rw [if_pos hshort, if_pos hshort]
            exact (Erases.call _ _ _).bind fun _ => giveUp_erases S phdrs
          · rw [if_neg hshort, if_neg hshort]
            refine (Erases.silent _ _).bind ?_
            intro vaddr
            refine (Erases.silent _ _).bind ?_
            intro _
            exact (Erases.call _ _ _).bind fun _ => Erases.pure true

theorem clearBss_erases : Erases (S.watched.clearBss phdr) (S.clearBss phdr) := by
  refine (Erases.silent _ _).bind ?_
  intro memsz
  refine (Erases.silent _ _).bind ?_
  intro filesz
  by_cases hbss : memsz > filesz
  · rw [if_pos hbss, if_pos hbss]
    refine (Erases.silent _ _).bind ?_
    intro vaddr
    exact (Erases.silent _ _).bind fun _ => Erases.pure true
  · rw [if_neg hbss, if_neg hbss]
    exact Erases.pure true

theorem loadSegment_erases : Erases (S.watched.loadSegment phdrs phdr) (S.loadSegment phdrs phdr) := by
  refine (Erases.silent _ _).bind ?_
  intro type
  by_cases hload : type ≠ ptLoad
  · rw [if_pos hload, if_pos hload]
    exact Erases.pure true
  · rw [if_neg hload, if_neg hload]
    refine (Erases.silent _ _).bind ?_
    intro vaddr
    refine (Erases.silent _ _).bind ?_
    intro memsz
    refine (mapSegment_erases S phdr (pageAlign vaddr) 0 (numPages vaddr memsz)).bind ?_
    intro mapped
    cases mapped with
    | false => exact giveUp_erases S phdrs
    | true =>
        refine (Erases.silent _ _).bind ?_
        intro offset
        refine (Erases.call _ _ _).bind ?_
        intro ok
        cases ok with
        | false => exact giveUp_erases S phdrs
        | true =>
            refine (copySegment_erases S phdrs phdr).bind ?_
            intro copied
            cases copied with
            | false => exact Erases.pure false
            | true => exact clearBss_erases S phdr

theorem loadSegments_erases (i n : Nat) :
    Erases (S.watched.loadSegments phdrs i n) (S.loadSegments phdrs i n) := by
  induction n generalizing i with
  | zero => exact Erases.pure true
  | succ n ih =>
      refine (loadSegment_erases S phdrs (phdrs + 56 * i)).bind ?_
      intro go
      cases go with
      | false => exact Erases.pure false
      | true => exact ih (i + 1)

theorem loadProgram_erases (e : Ehdr) : Erases (S.watched.loadProgram e) (S.loadProgram e) := by
  refine (Erases.silent _ _).bind ?_
  intro _
  by_cases hnone : e.phnum = 0
  · rw [if_pos hnone, if_pos hnone]
    exact closeOnly_erases S
  · rw [if_neg hnone, if_neg hnone]
    refine (Erases.call _ _ _).bind ?_
    intro ok
    cases ok with
    | false => exact closeOnly_erases S
    | true =>
        refine (Erases.call _ _ _).bind ?_
        intro phdrs
        by_cases hnull : phdrs = 0
        · rw [if_pos hnull, if_pos hnull]
          exact closeOnly_erases S
        · rw [if_neg hnull, if_neg hnull]
          refine (Erases.call _ _ _).bind ?_
          intro answer
          cases answer with
          | none => exact giveUp_erases S phdrs
          | some bytes =>
              refine (Erases.silent _ _).bind ?_
              intro _
              by_cases hshort : bytes.length ≠ e.phnum * e.phentsize % 2 ^ 32
              · rw [if_pos hshort, if_pos hshort]
                exact giveUp_erases S phdrs
              · rw [if_neg hshort, if_neg hshort]
                refine (loadSegments_erases S phdrs 0 e.phnum).bind ?_
                intro go
                cases go with
                | false => exact Erases.pure false
                | true =>
                    exact (Erases.call _ _ _).bind fun _ => (Erases.call _ _ _).bind fun _ =>
                      Erases.pure true

theorem elfLoad_erases (filename : String) :
    Erases (S.watched.elfLoad filename) (S.elfLoad filename) := by
  refine (Erases.call _ _ _).bind ?_
  intro ok
  cases ok with
  | false => exact Erases.pure false
  | true =>
      refine (Erases.call _ _ _).bind ?_
      intro answer
      cases answer with
      | none => exact closeOnly_erases S
      | some bytes =>
          rw [Services.checkHeader, Services.checkHeader]
          by_cases hshort : bytes.length ≠ 64
          · rw [if_pos hshort, if_pos hshort]
            exact closeOnly_erases S
          · rw [if_neg hshort, if_neg hshort]
            by_cases hbad : ¬ (Ehdr.ofBytes bytes).Accepted
            · rw [if_pos hbad, if_pos hbad]
              exact closeOnly_erases S
            · rw [if_neg hbad, if_neg hbad]
              exact loadProgram_erases S (Ehdr.ofBytes bytes)

end Erasure

theorem elfLoad_logged {σ φ : Type} {V : Vfs φ} {M : Memory.Machine σ} {filename : String}
    {s s' : Memory.MemState σ} {ok : Bool} {entry : Option Nat}
    (h : elfLoad V M filename s = some (ok, s', entry)) :
    ∃ cs file log, (machineServices V M).watched.elfLoad filename ([], (s, none, none), []) =
      some (ok, cs, (s', file, entry), log) := by
  obtain ⟨cs, file, hrun⟩ := elfLoad_records filename s h
  obtain ⟨log, hlog⟩ := (elfLoad_erases (machineServices V M) filename).exists_log hrun []
  exact ⟨cs, file, log, hlog⟩

/-- On a machine whose heap is intact, with the program header in a block in use, `kmalloc`
leaves the `p_filesz` alone that it is called for. -/
theorem machine_keeps_filesz {σ φ : Type} {V : Vfs φ} {M : Memory.Machine σ} {L : Memory.Lawful M}
    {s s' : Memory.MemState σ} {bs : List Block} (h : Represents L s bs) (hfr : Memory.FramesOk L s)
    (hstop : Memory.StopsAt L kernelBase (heapLimit + 1)) {phdr filesz p : Nat}
    (hused : ∀ x, phdr + 32 ≤ x → x < phdr + 32 + 8 → PayloadByte bs x) (hsize : filesz ≤ sizeLimit)
    {rest : Option φ × Option Nat}
    (hload : (machineServices V M).load (phdr + 32) 8 (s, rest) = some (filesz, s, rest))
    (hret : (machineServices V M).kmalloc filesz (s, rest) = some (p, s', rest)) :
    (machineServices V M).load (phdr + 32) 8 (s', rest) = some (filesz, s', rest) := by
  obtain ⟨x, hx, hload⟩ := Option.map_eq_some_iff.mp hload
  obtain ⟨r, hr, hret⟩ := Option.map_eq_some_iff.mp hret
  cases hload
  cases hret
  have hsame := kmalloc_keeps h hfr hstop hsize hr hused
  exact Option.map_eq_some_iff.mpr ⟨filesz, hsame.trans hx, rfl⟩

/-! ## Inside the buffers -/

/-- Size and address of the table of program headers, which is allocated first. -/
def tableOf : List Access → Option (Nat × Nat)
  | [] => none
  | .granted size p :: log => (tableOf log).or (some (size, p))
  | _ :: log => tableOf log

def requested : List Access → Option Nat
  | [] => none
  | .granted size _ :: _ => some size
  | _ :: log => requested log

/-- Room at the place where `vfs_read` puts its bytes: the last buffer, or `ehdr`. -/
def room (log : List Access) : Nat :=
  match requested log with
  | none => 64
  | some size => capacity size

/-- The bytes from `a` to `a + n` belong to an element of an array of `Elf64_Phdr` at `p`,
and the element to the first `size` bytes. -/
def InTable (size p a n : Nat) : Prop :=
  ∃ i, p + 56 * i ≤ a ∧ a + n ≤ p + 56 * (i + 1) ∧ 56 * (i + 1) ≤ size

/-- Every program header looked at lies in the table. -/
def LooksInside (log : List Access) : Prop :=
  ∀ a n, .look a n ∈ log → ∃ size p, tableOf log = some (size, p) ∧ InTable size p a n

/-- Every `vfs_read` is asked for no more than there is room for. -/
def ReadsFit : List Access → Prop
  | [] => True
  | .read count :: log => count ≤ room log ∧ ReadsFit log
  | _ :: log => ReadsFit log

/-- Every `vfs_read` is asked for the size its buffer was requested with, in 32 bits. -/
def Unchanged : List Access → Prop
  | [] => True
  | .read count :: log => (∀ size ∈ requested log, count = size % 2 ^ 32) ∧ Unchanged log
  | _ :: log => Unchanged log

/-- The loop comes to no program header that reaches beyond the bytes of the table. -/
def StaysInTable (e : Ehdr) (log : List Access) : Prop :=
  ∀ size p i, tableOf log = some (size, p) → .look (p + 56 * i) 4 ∈ log →
    56 * (i + 1) ≤ e.phnum * e.phentsize

/-- No size of a buffer that was handed out has made the sums of `kmalloc` wrap. -/
def SizesFit (log : List Access) : Prop := ∀ size p, .granted size p ∈ log → size ≤ sizeLimit

theorem sizesFit_granted {size p : Nat} {log : List Access} :
    SizesFit (.granted size p :: log) ↔ size ≤ sizeLimit ∧ SizesFit log := by
  constructor
  · intro h
    exact ⟨h size p List.mem_cons_self, fun s q hmem => h s q (List.mem_cons_of_mem _ hmem)⟩
  · rintro ⟨hsize, hrest⟩ s q hmem
    rcases List.mem_cons.mp hmem with heq | hmem
    · cases heq
      exact hsize
    · exact hrest s q hmem

theorem sizesFit_cons {x : Access} {log : List Access} (hx : ∀ size p, x ≠ .granted size p) :
    SizesFit (x :: log) ↔ SizesFit log := by
  constructor
  · intro h s q hmem
    exact h s q (List.mem_cons_of_mem _ hmem)
  · intro h s q hmem
    rcases List.mem_cons.mp hmem with heq | hmem
    · exact absurd heq.symm (hx s q)
    · exact h s q hmem

/-- The log while the loop works on a table of `size` bytes at `p` and has come to the
first `k` program headers. Between a buffer and the read into it the log is not balanced. -/
structure Walk (size p k : Nat) (log : List Access) : Prop where
  table : tableOf log = some (size, p)
  looks : ∀ a n, .look a n ∈ log → ∃ i < k, p + 56 * i ≤ a ∧ a + n ≤ p + 56 * (i + 1)
  comes : ∀ i < k, .look (p + 56 * i) 4 ∈ log
  balanced : Unchanged log → (ReadsFit log ↔ SizesFit log)

namespace Walk

variable {size p k : Nat} {log : List Access}

/-- A look at a header the loop has come to. -/
theorem look (h : Walk size p k log) {i a n : Nat} (hi : i < k) (hlo : p + 56 * i ≤ a)
    (hhi : a + n ≤ p + 56 * (i + 1)) : Walk size p k (.look a n :: log) := by
  refine ⟨h.table, ?_, fun j hj => List.mem_cons_of_mem _ (h.comes j hj), ?_⟩
  · intro b m hmem
    rcases List.mem_cons.mp hmem with heq | hmem
    · cases heq
      exact ⟨i, hi, hlo, hhi⟩
    · exact h.looks b m hmem
  · intro hkeep
    rw [sizesFit_cons (by simp)]
    exact h.balanced hkeep

/-- The first look at the next header. -/
theorem next (h : Walk size p k log) : Walk size p (k + 1) (.look (p + 56 * k) 4 :: log) := by
  refine ⟨h.table, ?_, ?_, ?_⟩
  · intro b m hmem
    rcases List.mem_cons.mp hmem with heq | hmem
    · cases heq
      exact ⟨k, Nat.lt_succ_self k, Nat.le_refl _, by omega⟩
    · obtain ⟨i, hi, hin⟩ := h.looks b m hmem
      exact ⟨i, Nat.lt_succ_of_lt hi, hin⟩
  · intro i hi
    by_cases hlast : i = k
    · rw [hlast]
      exact List.mem_cons_self
    · exact List.mem_cons_of_mem _ (h.comes i (by omega))
  · intro hkeep
    rw [sizesFit_cons (by simp)]
    exact h.balanced hkeep

/-- A buffer for a segment, a look at `p_filesz`, and the read. -/
theorem segment (h : Walk size p k log) {i a n filesz buffer count : Nat} (hi : i < k)
    (hlo : p + 56 * i ≤ a) (hhi : a + n ≤ p + 56 * (i + 1)) (hsize : filesz < 2 ^ 64) :
    Walk size p k (.read count :: .look a n :: .granted filesz buffer :: log) := by
  refine ⟨?_, ?_, ?_, ?_⟩
  · show (tableOf log).or _ = _
    rw [h.table]
    rfl
  · intro b m hmem
    rcases List.mem_cons.mp hmem with heq | hmem
    · cases heq
    · rcases List.mem_cons.mp hmem with heq | hmem
      · cases heq
        exact ⟨i, hi, hlo, hhi⟩
      · rcases List.mem_cons.mp hmem with heq | hmem
        · cases heq
        · exact h.looks b m hmem
  · intro j hj
    simp [h.comes j hj]
  · rintro ⟨hcount, hkeep⟩
    obtain rfl := hcount filesz rfl
    rw [sizesFit_cons (by simp), sizesFit_cons (by simp), sizesFit_granted]
    exact and_congr (count_le_capacity_iff hsize) (h.balanced hkeep)

/-- The table read, before the first header. -/
theorem start {bytes : Nat} (hsize : size < 2 ^ 32) (hbytes : bytes ≤ 64) :
    Walk size p 0 [.read size, .granted size p, .read bytes] := by
  have hfit : size ≤ sizeLimit := le_sizeLimit (hsize.le.trans (by decide))
  refine ⟨rfl, by simp, by simp, fun _ => iff_of_true ?_ ?_⟩
  · exact ⟨le_capacity hfit, hbytes, trivial⟩
  · intro s q hmem
    simp only [List.mem_cons, reduceCtorEq, Access.granted.injEq, List.not_mem_nil, or_false,
      false_or] at hmem
    rw [hmem.1]
    exact hfit

theorem looksInside_iff (h : Walk size p k log) : LooksInside log ↔ 56 * k ≤ size := by
  constructor
  · intro hin
    cases k with
    | zero => exact Nat.zero_le _
    | succ k =>
        obtain ⟨size', p', htable, i, hlo, hhi, hsize⟩ := hin _ _ (h.comes k (Nat.lt_succ_self k))
        cases h.table.symm.trans htable
        omega
  · intro hk a n hmem
    obtain ⟨i, hi, hlo, hhi⟩ := h.looks a n hmem
    exact ⟨size, p, h.table, i, hlo, hhi, by omega⟩

theorem staysInTable_iff {e : Ehdr} (h : Walk size p k log) :
    StaysInTable e log ↔ 56 * k ≤ e.phnum * e.phentsize := by
  constructor
  · intro hin
    cases k with
    | zero => exact Nat.zero_le _
    | succ k => exact hin size p k h.table (h.comes k (Nat.lt_succ_self k))
  · intro hk size' p' i htable hmem
    cases h.table.symm.trans htable
    obtain ⟨j, hj, hlo, hhi⟩ := h.looks _ _ hmem
    have hij : i = j := by omega
    omega

end Walk

/-! ## Along the loop -/

section Loop

variable {S : Services ω} {size p k j : Nat} {log : List Access}

theorem closeOnly_leaves {Q : Bool → List Access → Prop} (h : Q false log) :
    Leaves log S.watched.closeOnly Q := by
  refine Leaves.call_bind ?_
  intro _
  exact Leaves.pure h

theorem giveUp_leaves_log {Q : Bool → List Access → Prop} (h : Q false log) (phdrs : Nat) :
    Leaves log (S.watched.giveUp phdrs) Q := by
  refine Leaves.call_bind ?_
  intro _
  refine Leaves.call_bind ?_
  intro _
  exact Leaves.pure h

theorem mapSegment_walks (h : Walk size p k log) (hj : j < k) (startPage i n : Nat) :
    Leaves log (S.watched.mapSegment (p + 56 * j) startPage i n) fun _ log' =>
      Walk size p k log' := by
  induction n generalizing log i with
  | zero => exact Leaves.pure h
  | succ n ih =>
      refine Leaves.call_bind ?_
      intro page
      by_cases hnull : page = 0
      · rw [if_pos hnull]
        exact Leaves.pure h
      · rw [if_neg hnull]
        refine Leaves.silent_bind ?_
        intro flags
        have hlook := h.look (a := p + 56 * j + 4) (n := 4) hj (by omega) (by omega)
        refine Leaves.call_bind ?_
        intro ret
        by_cases hret : ret ≠ 0
        · rw [if_pos hret]
          exact Leaves.pure hlook
        · rw [if_neg hret]
          exact ih hlook (i + 1)

theorem copySegment_walks (h : Walk size p k log) (hj : j < k) (phdrs : Nat) :
    Leaves log (S.watched.copySegment phdrs (p + 56 * j)) fun _ log' => Walk size p k log' := by
  have hfilesz : ∀ {log}, Walk size p k log → Walk size p k (.look (p + 56 * j + 32) 8 :: log) :=
    fun h => h.look hj (by omega) (by omega)
  refine Leaves.silent_bind ?_
  intro filesz
  have h₁ := hfilesz h
  by_cases hempty : filesz = 0
  · rw [if_pos hempty]
    exact Leaves.pure h₁
  · rw [if_neg hempty]
    refine Leaves.call_bind ?_
    intro buffer
    by_cases hnull : buffer = 0
    · rw [if_pos hnull, if_pos hnull]
      exact giveUp_leaves_log h₁ phdrs
    · rw [if_neg hnull, if_neg hnull]
      refine Leaves.silent_bind ?_
      intro count
      refine Leaves.call_bind ?_
      intro answer
      have h₂ : Walk size p k (.read (count % 2 ^ 32) :: .look (p + 56 * j + 32) 8 ::
          .granted (filesz % 2 ^ 64) buffer :: .look (p + 56 * j + 32) 8 :: log) :=
        h₁.segment hj (by omega) (by omega) (Nat.mod_lt filesz (by decide))
      cases answer with
      | none =>
          refine Leaves.call_bind ?_
          intro _
          exact giveUp_leaves_log h₂ phdrs
      | some bytes =>
          refine Leaves.silent_bind ?_
          intro _
          refine Leaves.silent_bind ?_
          intro filesz'
          have h₃ := hfilesz h₂
          by_cases hshort : bytes.length ≠ filesz'
          · rw [if_pos hshort]
            refine Leaves.call_bind ?_
            intro _
            exact giveUp_leaves_log h₃ phdrs
          · rw [if_neg hshort]
            refine Leaves.silent_bind ?_
            intro vaddr
            refine Leaves.silent_bind ?_
            intro _
            refine Leaves.call_bind ?_
            intro _
            exact Leaves.pure (h₃.look hj (by omega) (by omega))

theorem clearBss_walks (h : Walk size p k log) (hj : j < k) :
    Leaves log (S.watched.clearBss (p + 56 * j)) fun _ log' => Walk size p k log' := by
  refine Leaves.silent_bind ?_
  intro memsz
  refine Leaves.silent_bind ?_
  intro filesz
  have h₁ : Walk size p k (.look (p + 56 * j + 32) 8 :: .look (p + 56 * j + 40) 8 :: log) :=
    (h.look hj (by omega) (by omega)).look hj (by omega) (by omega)
  by_cases hbss : memsz > filesz
  · rw [if_pos hbss]
    refine Leaves.silent_bind ?_
    intro vaddr
    refine Leaves.silent_bind ?_
    intro _
    exact Leaves.pure (h₁.look hj (by omega) (by omega))
  · rw [if_neg hbss]
    exact Leaves.pure h₁

theorem loadSegment_walks (h : Walk size p k log) (phdrs : Nat) :
    Leaves log (S.watched.loadSegment phdrs (p + 56 * k)) fun _ log' => Walk size p (k + 1) log' := by
  have hk : k < k + 1 := Nat.lt_succ_self k
  refine Leaves.silent_bind ?_
  intro type
  have h₁ := h.next
  by_cases hload : type ≠ ptLoad
  · rw [if_pos hload]
    exact Leaves.pure h₁
  · rw [if_neg hload]
    refine Leaves.silent_bind ?_
    intro vaddr
    refine Leaves.silent_bind ?_
    intro memsz
    have h₂ : Walk size p (k + 1) (.look (p + 56 * k + 40) 8 :: .look (p + 56 * k + 16) 8 ::
        .look (p + 56 * k) 4 :: log) :=
      (h₁.look hk (by omega) (by omega)).look hk (by omega) (by omega)
    refine (mapSegment_walks h₂ hk (pageAlign vaddr) 0 (numPages vaddr memsz)).bind ?_
    intro mapped log₃ h₃
    cases mapped with
    | false => exact giveUp_leaves_log h₃ phdrs
    | true =>
        refine Leaves.silent_bind ?_
        intro offset
        have h₄ := h₃.look (a := p + 56 * k + 8) (n := 8) hk (by omega) (by omega)
        refine Leaves.call_bind ?_
        intro ok
        cases ok with
        | false => exact giveUp_leaves_log h₄ phdrs
        | true =>
            refine (copySegment_walks h₄ hk phdrs).bind ?_
            intro copied log₅ h₅
            cases copied with
            | false => exact Leaves.pure h₅
            | true => exact clearBss_walks h₅ hk

/-- The loop comes to the headers in order; it goes on to the last unless it gives up. -/
theorem loadSegments_walks (h : Walk size p k log) (n : Nat) :
    Leaves log (S.watched.loadSegments p k n) fun ok log' =>
      ∃ k', Walk size p k' log' ∧ k' ≤ k + n ∧ (ok = true → k' = k + n) := by
  induction n generalizing log k with
  | zero => exact Leaves.pure ⟨k, h, Nat.le_refl _, fun _ => rfl⟩
  | succ n ih =>
      refine (loadSegment_walks h p).bind ?_
      intro go log₁ h₁
      cases go with
      | false => exact Leaves.pure ⟨k + 1, h₁, by omega, fun hno => by cases hno⟩
      | true =>
          refine (ih h₁).mono ?_
          rintro ok log' ⟨k', hwalk, hle, hall⟩
          exact ⟨k', hwalk, by omega, fun hok => by have := hall hok; omega⟩

end Loop

/-! ## A whole load -/

/-- No table was allocated, or the loop came to the first `k` headers of a table of
`e_phnum * e_phentsize` bytes, to all of them if the file was loaded. -/
def Outcome (e : Ehdr) (ok : Bool) (log : List Access) : Prop :=
  (ok = false ∧ log = [.read 64]) ∨ (e.phnum ≠ 0 ∧ ∃ p k,
    Walk (e.phnum * e.phentsize) p k log ∧ k ≤ e.phnum ∧ (ok = true → k = e.phnum))

section Load

variable {S : Services ω} {e : Ehdr}

/-- The product of two 16-bit fields is not narrowed. -/
theorem phSize_eq (hnum : e.phnum < 2 ^ 16) (hent : e.phentsize < 2 ^ 16) :
    e.phnum * e.phentsize < 2 ^ 32 :=
  calc e.phnum * e.phentsize < 2 ^ 16 * 2 ^ 16 := Nat.mul_lt_mul'' hnum hent
    _ = 2 ^ 32 := by decide

theorem loadProgram_outcome (hnum : e.phnum < 2 ^ 16) (hent : e.phentsize < 2 ^ 16) :
    Leaves [.read 64] (S.watched.loadProgram e) (Outcome e) := by
  have hnone : Outcome e false [.read 64] := Or.inl ⟨rfl, rfl⟩
  have hlt := phSize_eq hnum hent
  refine Leaves.silent_bind ?_
  intro _
  by_cases hzero : e.phnum = 0
  · rw [if_pos hzero]
    exact closeOnly_leaves hnone
  · rw [if_neg hzero]
    refine Leaves.call_bind ?_
    intro ok
    cases ok with
    | false => exact closeOnly_leaves hnone
    | true =>
        refine Leaves.call_bind ?_
        intro phdrs
        by_cases hnull : phdrs = 0
        · rw [if_pos hnull, if_pos hnull]
          exact closeOnly_leaves hnone
        · rw [if_neg hnull, if_neg hnull]
          refine Leaves.call_bind ?_
          intro answer
          rw [Nat.mod_eq_of_lt hlt, Nat.mod_eq_of_lt (hlt.trans (by decide))]
          have hstart : Walk (e.phnum * e.phentsize) phdrs 0 [.read (e.phnum * e.phentsize),
              .granted (e.phnum * e.phentsize) phdrs, .read 64] := Walk.start hlt (Nat.le_refl 64)
          have hstopped : Outcome e false [.read (e.phnum * e.phentsize),
              .granted (e.phnum * e.phentsize) phdrs, .read 64] :=
            Or.inr ⟨hzero, phdrs, 0, hstart, Nat.zero_le _, fun hno => by cases hno⟩
          cases answer with
          | none => exact giveUp_leaves_log hstopped phdrs
          | some bytes =>
              refine Leaves.silent_bind ?_
              intro _
              by_cases hshort : bytes.length ≠ e.phnum * e.phentsize
              · rw [if_pos hshort]
                exact giveUp_leaves_log hstopped phdrs
              · rw [if_neg hshort]
                refine (loadSegments_walks hstart e.phnum).bind ?_
                rintro go log' ⟨k, hwalk, hle, hall⟩
                rw [Nat.zero_add] at hle hall
                cases go with
                | false => exact Leaves.pure (Or.inr ⟨hzero, phdrs, k, hwalk, hle, fun hno => by cases hno⟩)
                | true =>
                    refine Leaves.call_bind ?_
                    intro _
                    refine Leaves.call_bind ?_
                    intro _
                    exact Leaves.pure (Or.inr ⟨hzero, phdrs, k, hwalk, hle, fun _ => hall rfl⟩)

theorem ofBytes_bounds (bytes : List UInt8) :
    (Ehdr.ofBytes bytes).phnum < 2 ^ 16 ∧ (Ehdr.ofBytes bytes).phentsize < 2 ^ 16 := by
  have hword : ∀ (m : Bytes.Mem) (a : Nat), Bytes.readLE m a 2 < 2 ^ 16 := by
    intro m a
    exact (Bytes.readLE_lt m a 2).trans_eq (by decide)
  exact ⟨hword (fun i => bytes.getD i 0) 56, hword (fun i => bytes.getD i 0) 54⟩

/-- Headers of at least the size of `Elf64_Phdr` keep the loop in the table; with shorter
ones it leaves the table by the last. -/
theorem outcome_stays {ok : Bool} {log : List Access} (h : Outcome e ok log) :
    (56 ≤ e.phentsize → StaysInTable e log) ∧
      (ok = true → StaysInTable e log → 56 ≤ e.phentsize) := by
  rcases h with ⟨rfl, rfl⟩ | ⟨hzero, p, k, hwalk, hk, hall⟩
  · refine ⟨?_, fun hno => by cases hno⟩
    intro _ size p i htable
    cases htable
  · rw [hwalk.staysInTable_iff]
    constructor
    · intro hent
      calc 56 * k ≤ 56 * e.phnum := Nat.mul_le_mul_left 56 hk
        _ ≤ e.phentsize * e.phnum := Nat.mul_le_mul_right _ hent
        _ = e.phnum * e.phentsize := Nat.mul_comm _ _
    · intro hok hle
      rw [hall hok, Nat.mul_comm] at hle
      exact Nat.le_of_mul_le_mul_left hle (Nat.pos_of_ne_zero hzero)

theorem outcome_inside_iff {ok : Bool} {log : List Access} (h : Outcome e ok log)
    (hkeep : LooksInside log → Unchanged log) :
    (LooksInside log ∧ ReadsFit log) ↔ (StaysInTable e log ∧ SizesFit log) := by
  rcases h with ⟨rfl, rfl⟩ | ⟨-, p, k, hwalk, -, -⟩
  · refine iff_of_true ⟨?_, Nat.le_refl 64, trivial⟩ ⟨?_, ?_⟩
    · intro a n hmem
      simp at hmem
    · intro size p i htable
      cases htable
    · intro size p hmem
      simp at hmem
  · rw [hwalk.staysInTable_iff, ← hwalk.looksInside_iff]
    exact and_congr_right fun hin => hwalk.balanced (hkeep hin)

/-- Behind the header checks the loader runs on the log of one read. -/
theorem elfLoad_accepted {S : Services ω} {filename : String} {w w₁ w₂ w' : ω} {header : List UInt8}
    (hopen : S.vfsOpen filename w = some (true, w₁))
    (hread : S.vfsRead 64 w₁ = some (some header, w₂)) (hlen : header.length = 64)
    (haccept : (Ehdr.ofBytes header).Accepted) {ok : Bool} {cs : List LoadCall} {log : List Access}
    (hrun : S.watched.elfLoad filename ([], w, []) = some (ok, cs, w', log)) :
    Outcome (Ehdr.ofBytes header) ok log := by
  have hfirst : call LoadCall.vfsOpen (S.watched.vfsOpen filename) ([], w, []) =
      some (true, [.vfsOpen true], w₁, []) := by
    simp [call, Services.watched, noted, hopen]
  have hsecond : call (fun answer => LoadCall.vfsRead 64 answer.isSome) (S.watched.vfsRead 64)
      ([.vfsOpen true], w₁, []) =
        some (some header, [.vfsRead 64 true, .vfsOpen true], w₂, [.read 64]) := by
    simp [call, Services.watched, noted, hread]
  obtain ⟨r, hr, hrun⟩ := Option.bind_eq_some_iff.mp hrun
  cases hfirst.symm.trans hr
  obtain ⟨r, hr, hrun⟩ := Option.bind_eq_some_iff.mp hrun
  cases hsecond.symm.trans hr
  dsimp only at hrun
  rw [Services.checkHeader, if_neg (not_not.mpr hlen), if_neg (not_not.mpr haccept)] at hrun
  obtain ⟨hnum, hent⟩ := ofBytes_bounds header
  exact loadProgram_outcome hnum hent _ _ _ _ _ _ hrun

end Load

/-- A load whose header is accepted stays in its buffers exactly if it comes to no program
header that reaches beyond the table and no size of a buffer it was given has wrapped.
Program headers of at least 56 bytes keep it in the table; a file that is loaded to the end
needs them. `kmalloc` is taken to leave the table alone as long as the loader stays in it. -/
theorem elf_load_inside_iff (S : Services ω) (filename : String) {w w₁ w₂ w' : ω}
    {header : List UInt8} (hopen : S.vfsOpen filename w = some (true, w₁))
    (hread : S.vfsRead 64 w₁ = some (some header, w₂)) (hlen : header.length = 64)
    (haccept : (Ehdr.ofBytes header).Accepted) {ok : Bool} {cs : List LoadCall} {log : List Access}
    (hrun : S.watched.elfLoad filename ([], w, []) = some (ok, cs, w', log))
    (hkeep : LooksInside log → Unchanged log) :
    ((LooksInside log ∧ ReadsFit log) ↔
        (StaysInTable (Ehdr.ofBytes header) log ∧ SizesFit log)) ∧
      (56 ≤ (Ehdr.ofBytes header).phentsize → StaysInTable (Ehdr.ofBytes header) log) ∧
      (ok = true → StaysInTable (Ehdr.ofBytes header) log →
        56 ≤ (Ehdr.ofBytes header).phentsize) := by
  have hout := elfLoad_accepted hopen hread hlen haccept hrun
  exact ⟨outcome_inside_iff hout hkeep, outcome_stays hout⟩

/-! ## Crafted files -/

/-- The ELF header of an executable with one program header of so many bytes. -/
def craftedHeader (phentsize : UInt8) : List UInt8 :=
  (List.range 64).map fun i =>
    if i = 0 then 0x7f else if i = 1 then 0x45 else if i = 2 then 0x4c else if i = 3 then 0x46
    else if i = 4 then 2 else if i = 16 then 2 else if i = 54 then phentsize
    else if i = 56 then 1 else 0

/-- Its one segment has so many bytes in the file; no read returns more than 56. -/
def craftedServices (phentsize : UInt8) (filesz : Nat) : Services Nat :=
  { willingServices with
    vfsRead := fun n w =>
      some (some (if n = 64 then craftedHeader phentsize else List.replicate (min n 56) 0), w)
    load := fun a _ w =>
      some (if a = 0x1000 then 1 else if a = 0x1010 then 0x400000 else if a = 0x1020 then filesz
        else if a = 0x1028 then 8 else 0, w) }

def craftedLog (phSize : Nat) : List Access :=
  [.look 0x1010 8, .look 0x1020 8, .look 0x1028 8, .look 0x1010 8, .look 0x1020 8, .read 4,
    .look 0x1020 8, .granted 4 0x2000, .look 0x1020 8, .look 0x1008 8, .look 0x1004 4,
    .look 0x1028 8, .look 0x1010 8, .look 0x1000 4, .read phSize, .granted phSize 0x1000, .read 64]

/-- Program headers of 56 bytes: the load stays in its buffers. -/
theorem elf_load_inside_loaded :
    ∃ cs w log, (craftedServices 56 4).watched.elfLoad "test" ([], 1, []) =
      some (true, cs, w, log) ∧ LooksInside log ∧ ReadsFit log := by
  have hlog : ((craftedServices 56 4).watched.elfLoad "test" ([], 1, [])).map
      (fun r => (r.1, r.2.2.2)) = some (true, craftedLog 56) := by
    decide +kernel
  obtain ⟨⟨ok, cs, w, log⟩, hrun, hlog⟩ := Option.map_eq_some_iff.mp hlog
  cases hlog
  have hread : (craftedServices 56 4).vfsRead 64 1 = some (some (craftedHeader 56), 1) := rfl
  have haccept : (Ehdr.ofBytes (craftedHeader 56)).Accepted := by decide
  have hent : (Ehdr.ofBytes (craftedHeader 56)).phentsize = 56 := by decide
  have hsizes : SizesFit (craftedLog 56) := by
    intro size p hmem
    simp only [craftedLog, List.mem_cons, reduceCtorEq, Access.granted.injEq, List.not_mem_nil,
      or_false, false_or] at hmem
    have hsmall : size ≤ 2 ^ 63 := by omega
    exact le_sizeLimit hsmall
  obtain ⟨hiff, hstays, -⟩ := elf_load_inside_iff (craftedServices 56 4) "test" rfl hread rfl haccept hrun
    (fun _ => by simp [Unchanged, requested])
  exact ⟨cs, w, _, hrun, hiff.mpr ⟨hstays hent.ge, hsizes⟩⟩

/-- With headers of 32 bytes the loader reads `p_memsz` 16 bytes behind its table, and a
segment of `2 ^ 64 - 1` bytes is read into a buffer of none. -/
theorem elf_load_leaves :
    (Ehdr.ofBytes (craftedHeader 32)).Accepted ∧ (Ehdr.ofBytes (craftedHeader 56)).Accepted ∧
      (∃ cs w log, (craftedServices 32 4).watched.elfLoad "test" ([], 1, []) =
        some (true, cs, w, log) ∧ tableOf log = some (32, 0x1000) ∧ .look 0x1028 8 ∈ log ∧
          ¬ LooksInside log) ∧
      ∃ cs w log, (craftedServices 56 (2 ^ 64 - 1)).watched.elfLoad "test" ([], 1, []) =
        some (false, cs, w, log) ∧ ¬ ReadsFit log := by
  have hshort : ((craftedServices 32 4).watched.elfLoad "test" ([], 1, [])).map
      (fun r => (r.1, r.2.2.2)) = some (true, craftedLog 32) := by
    decide +kernel
  have hwrapped : ((craftedServices 56 (2 ^ 64 - 1)).watched.elfLoad "test" ([], 1, [])).map
      (fun r => (r.1, r.2.2.2)) = some (false, [.look 0x1020 8, .read (2 ^ 32 - 1),
        .look 0x1020 8, .granted (2 ^ 64 - 1) 0x2000, .look 0x1020 8, .look 0x1008 8,
        .look 0x1004 4, .look 0x1028 8, .look 0x1010 8, .look 0x1000 4, .read 56,
        .granted 56 0x1000, .read 64]) := by
    decide +kernel
  refine ⟨by decide, by decide, ?_, ?_⟩
  · obtain ⟨⟨ok, cs, w, log⟩, hrun, hlog⟩ := Option.map_eq_some_iff.mp hshort
    cases hlog
    refine ⟨cs, w, _, hrun, by decide, by decide, fun hin => ?_⟩
    obtain ⟨size, p, htable, i, hlo, hhi, hsize⟩ := hin 0x1028 8 (by decide)
    have htab : tableOf (craftedLog 32) = some (32, 0x1000) := by decide
    cases htab.symm.trans htable
    omega
  · obtain ⟨⟨ok, cs, w, log⟩, hrun, hlog⟩ := Option.map_eq_some_iff.mp hwrapped
    cases hlog
    refine ⟨cs, w, _, hrun, fun hfit => ?_⟩
    have hroom : capacity (2 ^ 64 - 1) = 0 := by decide
    have hcount : 2 ^ 32 - 1 ≤ capacity (2 ^ 64 - 1) := hfit.1
    omega

end Kaviz.Elf
