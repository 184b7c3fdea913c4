import Kaviz.Elf.Segments
import Kaviz.Memory.Physical

/-! # The loaded image

From one segment to the whole of `elf_load`: after a successful load every user
address reads what the segments, placed one after the other, leave there. On
the kernel's page tables memory then holds the prescribed image exactly when no
segment is given a page that an earlier segment has bytes on.
-/

namespace Kaviz.Elf

open Bytes Memory Paging Heap Radix

variable {σ φ : Type} {M : Machine σ} {L : Lawful M} {s s' : MemState σ} {bs : List Block}
variable {V : Vfs φ} {filename : String} {file : List UInt8} {Ahead : φ → List UInt8 → Prop}

/-- What reading an address gives, from what loading did to it. -/
def Cell.Seen (L : Lawful M) (x y : σ) (a : Nat) : Cell → Prop
  | .kept => M.load y a = M.load x a
  | .blank => ∀ z ∈ L.blank, M.load y a = some z
  | .filled b => M.load y a = b

/-- Memory with the same contents at an address is seen the same way. -/
theorem Cell.Seen.congr {x y z : σ} {a : Nat} {c : Cell} (h : c.Seen L x y a)
    (heq : M.load z a = M.load y a) : c.Seen L x z a := by
  cases c with
  | kept => exact heq.trans h
  | blank => exact fun b hb => heq.trans (h b hb)
  | filled b => exact heq.trans h

theorem PlacedBy.seen {h : Phdr} {x y z : σ} (hp : PlacedBy L file h y z) {a : Nat}
    (ha : a < kernelBase) {c : Cell} (hc : c.Seen L x y a) :
    (Phdr.place file a c h).Seen L x z a := by
  unfold Phdr.place
  by_cases hcov : h.Covers a
  · rw [if_pos hcov]
    exact hp.covered a hcov
  · rw [if_neg hcov]
    by_cases hocc : h.Occupies a
    · rw [if_pos hocc]
      exact hp.blank a hocc hcov
    · rw [if_neg hocc]
      exact hc.congr (hp.kept a ha hocc)

theorem loadSegments_spec (hstop : StopsAt L kernelBase (heapLimit + 1))
    (hV : V.Delivers filename file Ahead) {phdrs i n : Nat} {hs : List Phdr}
    {st st' : LoadState σ φ} (h : Loading L phdrs hs st.mem bs) (hin : i + n = hs.length)
    (huser : ∀ h ∈ hs, h.type = ptLoad → h.InUserSpace) (hfile : ∃ rest, Ahead st.file rest)
    (hrun : loadSegments V M phdrs i n st = some (true, st')) (x : σ) :
    ∃ bs', Loading L phdrs hs st'.mem bs' ∧ ∀ a, a < kernelBase → ∀ c,
      Cell.Seen L x st.mem.mach a c → Cell.Seen L x st'.mem.mach a
        (((hs.drop i).filter fun h => h.type = ptLoad).foldl (Phdr.place file a) c) := by
  induction n generalizing i st bs with
  | zero =>
      cases hrun
      refine ⟨bs, h, fun a _ c hc => ?_⟩
      rw [List.drop_eq_nil_of_le (by omega)]
      exact hc
  | succ n ih =>
      have hi : i < hs.length := by omega
      unfold loadSegments at hrun
      obtain ⟨⟨done, st₁⟩, hone, hrun⟩ := Option.bind_eq_some_iff.mp hrun
      cases done with
      | false => cases hrun
      | true =>
          dsimp only at hrun
          rw [List.drop_eq_getElem_cons hi]
          by_cases hload : hs[i].type = ptLoad
          · obtain ⟨bs₁, h₁, hfile₁, hplaced⟩ := loadSegment_spec hstop hV h hi hload
              (huser _ (List.getElem_mem hi) hload) hfile hone
            obtain ⟨bs₂, h₂, hseen⟩ := ih h₁ (by omega) hfile₁ hrun
            refine ⟨bs₂, h₂, fun a ha c hc => ?_⟩
            rw [List.filter_cons_of_pos (by simpa using hload), List.foldl_cons]
            exact hseen a ha _ (hplaced.seen ha hc)
          · unfold loadSegment at hone
            rw [(h.headers i hi).type, Option.bind_eq_bind, Option.bind_some, if_pos hload] at hone
            cases hone
            obtain ⟨bs₂, h₂, hseen⟩ := ih h (by omega) hfile hrun
            refine ⟨bs₂, h₂, fun a ha c hc => ?_⟩
            rw [List.filter_cons_of_neg (by simpa using hload)]
            exact hseen a ha c hc

/-! ## The whole load -/

/-- The files the loader is meant for: program headers of 56 bytes, segments in
user space that do not overlap, and offsets that fit the file system. -/
structure Executable (file : List UInt8) : Prop where
  phentsize : (header file).phentsize = 56
  phoff : (header file).phoff < 2 ^ 31
  user : ∀ h ∈ loadable file, h.InUserSpace
  disjoint : Disjoint (loadable file)

theorem programHeaders_length (file : List UInt8) :
    (programHeaders file).length = (header file).phnum := by
  simp [programHeaders]

theorem header_phnum_lt (file : List UInt8) : (header file).phnum < 2 ^ 16 := by
  have h := readLE_lt (fun i => (file.take 64).getD i 0) 56 2
  simpa [header, Ehdr.ofBytes] using h

theorem table_stored {p n : Nat} {bytes : List UInt8} (hready : Ready L s bs) (hp : Owned bs p n)
    (hlen : bytes.length ≤ n) :
    ∃ s', storeBytes M s p bytes = some s' ∧ Ready L s' bs ∧ ∀ x, M.load s'.mach x =
      if p ≤ x ∧ x < p + bytes.length then bytes[x - p]? else M.load s.mach x := by
  have hbelow := hp.below hready.heap
  have hm : Mapped M s.mach p (p + bytes.length) :=
    (hp.mapped hready.heap).mono (Nat.le_refl p) (by omega)
  obtain ⟨s', hs', hst, hload⟩ := storeBytes_load hready.heap.ok hm (by omega)
  exact ⟨s', hs', hready.stores hst fun x hx => hp.guarded hx.1 (by omega), hload⟩

theorem loading_of_table {phdrs : Nat} {bytes rest : List UInt8} (hready : Ready L s bs)
    (htable : Owned bs phdrs (56 * (header file).phnum))
    (hbytes : file.drop (header file).phoff = bytes ++ rest)
    (hlen : bytes.length = 56 * (header file).phnum)
    (hload : ∀ i, i < bytes.length → M.load s.mach (phdrs + i) = bytes[i]?) :
    Loading L phdrs (programHeaders file) s bs := by
  refine ⟨hready, by rw [programHeaders_length]; exact htable, fun i hi => ?_⟩
  have hnum : i < (header file).phnum := by
    rw [programHeaders_length] at hi
    exact hi
  simp only [programHeaders, List.getElem_map, List.getElem_range]
  refine headerAt_of_bytes fun j hj => ?_
  have hlt : 56 * i + j < bytes.length := by omega
  have hbyte : file[(header file).phoff + (56 * i + j)]? = bytes[56 * i + j]? := by
    rw [← List.getElem?_drop, hbytes, List.getElem?_append_left hlt]
  rw [Nat.add_assoc, hload _ hlt, ← hbyte, Nat.add_assoc, List.getD_eq_getElem?_getD, hbyte,
    List.getElem?_eq_getElem hlt]
  rfl

/-- A successful load leaves every user address as the segments in turn do. -/
theorem loadProgram_seen (hstop : StopsAt L kernelBase (heapLimit + 1))
    (hV : V.Delivers filename file Ahead) (hfile : Executable file) {st st' : LoadState σ φ}
    (hready : Ready L st.mem bs) (hahead : ∃ rest, Ahead st.file rest)
    (hrun : loadProgram V M (header file) st = some (true, st')) {a : Nat} (ha : a < kernelBase) :
    ((loadable file).foldl (Phdr.place file a) .kept).Seen L st.mem.mach st'.mem.mach a := by
  obtain ⟨rest, hrest⟩ := hahead
  have hnum := header_phnum_lt file
  unfold loadProgram at hrun
  dsimp only at hrun
  by_cases hnone : (header file).phnum = 0
  · rw [if_pos hnone] at hrun
    cases hrun
  · rw [if_neg hnone] at hrun
    rw [toInt32_of_lt hfile.phoff] at hrun
    cases hseek : V.seek st.file (header file).phoff 0 with
    | mk found file₁ =>
      rw [hseek] at hrun
      cases found with
      | false => cases hrun
      | true =>
          have hahead₁ := hV.seek _ _ _ _ hrest (Int.natCast_nonneg _) hseek
          rw [Int.toNat_natCast] at hahead₁
          have hsize : (header file).phnum * (header file).phentsize % 2 ^ 32 =
              56 * (header file).phnum := by
            rw [hfile.phentsize]
            omega
          dsimp only at hrun
          rw [hsize] at hrun
          obtain ⟨⟨phdrs, mem₁⟩, hmalloc, hrun⟩ := Option.bind_eq_some_iff.mp hrun
          dsimp only at hrun
          by_cases hnull : phdrs = 0
          · rw [if_pos hnull] at hrun
            cases hrun
          · rw [if_neg hnull] at hrun
            obtain ⟨bs₁, hready₁, htable, hkeep₁, -⟩ := hready.kmalloc hstop (by omega) hmalloc hnull
            cases hread : V.read file₁ (56 * (header file).phnum) with
            | mk res file₂ =>
              rw [hread] at hrun
              cases res with
              | none =>
                  dsimp only at hrun
                  exact absurd hrun giveUp_false
              | some bytes =>
                  obtain ⟨hlen, rest₂, hbytes, hahead₂⟩ := hV.read _ _ _ _ _ hahead₁ hread
                  dsimp only at hrun
                  obtain ⟨mem₂, hmem₂, h₂, hload₂⟩ := table_stored hready₁ htable hlen
                  rw [hmem₂, Option.bind_eq_bind, Option.bind_some] at hrun
                  by_cases hshort : bytes.length ≠ 56 * (header file).phnum
                  · rw [if_pos hshort] at hrun
                    exact absurd hrun giveUp_false
                  · rw [if_neg hshort] at hrun
                    obtain ⟨⟨done, st₃⟩, hsegs, hrun⟩ := Option.bind_eq_some_iff.mp hrun
                    have hloading := loading_of_table h₂ htable hbytes (Decidable.not_not.mp hshort)
                      fun i hi => by rw [hload₂, if_pos (by omega), Nat.add_sub_cancel_left]
                    have hcount : 0 + (header file).phnum = (programHeaders file).length := by
                      rw [programHeaders_length, Nat.zero_add]
                    cases done with
                    | false => cases hrun
                    | true =>
                        dsimp only at hrun
                        obtain ⟨bs₃, h₃, hseen⟩ := loadSegments_spec hstop hV hloading hcount
                          (fun h hmem hload =>
                            hfile.user h (List.mem_filter.mpr ⟨hmem, by simpa using hload⟩))
                          ⟨rest₂, hahead₂⟩ hsegs st.mem.mach
                        obtain ⟨mem₄, hfree, hrun⟩ := Option.bind_eq_some_iff.mp hrun
                        cases hrun
                        obtain ⟨bs₄, -, hkeep₄, -⟩ := h₃.ready.kfree h₃.table hfree
                        have hstart : M.load mem₂.mach a = M.load st.mem.mach a := by
                          have hbuf := htable.bounds hready₁.heap
                          rw [hload₂, if_neg (by omega)]
                          exact hkeep₁ a (Or.inl ha)
                        exact (hseen a ha .kept hstart).congr (hkeep₄ a (Or.inl ha))

theorem elfLoad_seen (hstop : StopsAt L kernelBase (heapLimit + 1))
    (hV : V.Delivers filename file Ahead) (hfile : Executable file) (hready : Ready L s bs)
    {entry : Option Nat} (hrun : elfLoad V M filename s = some (true, s', entry)) {a : Nat}
    (ha : a < kernelBase) :
    ((loadable file).foldl (Phdr.place file a) .kept).Seen L s.mach s'.mach a := by
  unfold elfLoad at hrun
  cases hopen : V.openFile filename with
  | none =>
      rw [hopen] at hrun
      cases hrun
  | some f =>
      rw [hopen] at hrun
      dsimp only at hrun
      cases hread : V.read f 64 with
      | mk res f₁ =>
        rw [hread] at hrun
        cases res with
        | none => cases hrun
        | some bytes =>
            dsimp only at hrun
            by_cases hlen : bytes.length ≠ 64
            · rw [if_pos hlen] at hrun
              cases hrun
            · rw [if_neg hlen] at hrun
              obtain ⟨-, rest, hsplit, hahead⟩ := hV.read _ _ _ _ _ (hV.opened f hopen) hread
              have hbytes : file.take 64 = bytes := by
                rw [hsplit]
                exact List.take_left' (Decidable.not_not.mp hlen)
              rw [← hbytes] at hrun
              by_cases haccept : ¬ (Ehdr.ofBytes (file.take 64)).Accepted
              · rw [if_pos haccept] at hrun
                cases hrun
              · rw [if_neg haccept] at hrun
                obtain ⟨⟨ok, st⟩, hprog, hrun⟩ := Option.bind_eq_some_iff.mp hrun
                cases hrun
                exact loadProgram_seen hstop hV hfile hready ⟨rest, hahead⟩ hprog ha

/-! ## The kernel's page tables -/

/-- Loading works on memory behind the kernel's page tables. -/
abbrev kernelMachine : Machine (PhysState PageTables) := physical tableMapper

/-- A state the kernel can call `elf_load` in: the heap is intact, page tables
are well formed and the frames from `next_free_page` on are unused. -/
def KernelReady (s : MemState (PhysState PageTables)) : Prop :=
  ∃ bs, Ready (physical_lawful kernelTables_lawful none) s bs

/-- The frames not handed out yet hold the byte `z` throughout. -/
def FramesHold (z : UInt8) (s : MemState (PhysState PageTables)) : Prop :=
  ∀ q, s.nextFreePage ≤ q → s.mach.phys q = z

/-- No segment prescribes the byte `z` anywhere. -/
def Unprescribed (file : List UInt8) (z : UInt8) : Prop :=
  ∀ h ∈ loadable file, ∀ x, h.Covers x → h.prescribed file x ≠ some z

theorem ready_framesHold {s : MemState (PhysState PageTables)} {z : UInt8}
    (h : Ready (physical_lawful kernelTables_lawful none) s bs) (hz : FramesHold z s) :
    Ready (physical_lawful kernelTables_lawful (some z)) s bs := by
  have hrep := h.heap
  have hfr := h.frames
  refine ⟨⟨hrep.ok, hrep.start, hrep.first, hrep.end_eq, hrep.aligned, hrep.below, hrep.layout,
    hrep.flags⟩, hfr.aligned, hfr.bound, fun hne p hp hlt hpa => ?_⟩
  have hold := hfr.fresh hne p hp hlt hpa
  refine ⟨hold.aligned, hold.free, ?_⟩
  rintro y ⟨⟩ i -
  exact hz (p + i) (by omega)

/-- After a successful load memory holds the image if no segment is mapped over
an earlier one; when the unused frames hold a byte the image does not contain,
it is the image only then. -/
theorem elf_load_faithful_iff (V : Vfs φ) (filename : String) (file : List UInt8)
    (Ahead : φ → List UInt8 → Prop) (hV : V.Delivers filename file Ahead)
    (hfile : Executable file) (s s' : MemState (PhysState PageTables)) (hs : KernelReady s)
    (entry : Option Nat) (hrun : elfLoad V kernelMachine filename s = some (true, s', entry)) :
    (NoClobber (loadable file) → Faithful file (kernelMachine.load s'.mach)) ∧
      ∀ z, FramesHold z s → Unprescribed file z →
        (Faithful file (kernelMachine.load s'.mach) ↔ NoClobber (loadable file)) := by
  obtain ⟨bs, hready⟩ := hs
  have hlow : ∀ h ∈ loadable file, ∀ x, h.Covers x → x < kernelBase := by
    intro h hmem x hx
    have hhigh := (hfile.user h hmem).high
    have hbase : (2 ^ 47 : Nat) ≤ kernelBase := by decide
    unfold Phdr.Covers at hx
    omega
  have hgood : NoClobber (loadable file) → Faithful file (kernelMachine.load s'.mach) := by
    intro hclear h hmem x hx
    have hseen := elfLoad_seen (physical_stops none) hV hfile hready hrun (hlow h hmem x hx)
    rw [place_filled hclear hmem hx] at hseen
    exact hseen
  refine ⟨hgood, fun z hz hmark => ⟨fun hfaith => ?_, hgood⟩⟩
  by_contra hclash
  obtain ⟨h, hmem, x, hx, hblank⟩ := exists_blank file hfile.disjoint hclash
  have hseen := elfLoad_seen (physical_stops (some z)) hV hfile (ready_framesHold hready hz) hrun
    (hlow h hmem x hx)
  rw [hblank] at hseen
  have hload : kernelMachine.load s'.mach x = some z := hseen z rfl
  exact hmark h hmem x hx ((hfaith h hmem x hx).symm.trans hload)

/-! ## A kernel that has set up its heap -/

/-- Entries of a running kernel that link one table to the next, by word: tables
for the 4 MiB heap and, behind them, tables for user space that map nothing. -/
def bootedLinks : List (Nat × Nat) :=
  [(0x20100, 0x110003), (0x20000, 0x114003), (0x22000, 0x111003), (0x22200, 0x112003),
    (0x22201, 0x113003), (0x22804, 0x115003), (0x22A00, 0x116003)]

def bootedWord (k : Nat) : Nat :=
  if 0x22400 ≤ k ∧ k < 0x22800 then 0x200003 + 4096 * (k - 0x22400)
  else ((bootedLinks.find? fun l => l.1 = k).map Prod.snd).getD 0

/-- Their bytes; the upper five of every word are zero. -/
def bootedMem : Mem := fun a => if a % 8 < 3 then ofWords bootedWord a else 0

def bootedTables : PageTables where
  mem := bootedMem
  pml4 := 0x100000
  poolBase := 0x110000
  poolUsed := 0x7000
  tlb := fun _ => none

/-- A present entry links a table or maps a page of the heap. -/
theorem bootedWord_cases (k : Nat) :
    (k, bootedWord k) ∈ bootedLinks ∨
      (0x22400 ≤ k ∧ k < 0x22800 ∧ bootedWord k = 0x200003 + 4096 * (k - 0x22400)) ∨
      bootedWord k = 0 := by
  unfold bootedWord
  by_cases hheap : 0x22400 ≤ k ∧ k < 0x22800
  · rw [if_pos hheap]
    exact Or.inr (Or.inl ⟨hheap.1, hheap.2, rfl⟩)
  · rw [if_neg hheap]
    cases hfind : bootedLinks.find? fun l => l.1 = k with
    | none => exact Or.inr (Or.inr rfl)
    | some l =>
        have hk : l.1 = k := by simpa using List.find?_some hfind
        subst hk
        exact Or.inl (List.mem_of_find?_eq_some hfind)

theorem bootedWord_lt (k : Nat) : bootedWord k < 256 ^ 3 := by
  have hlinks : ∀ l ∈ bootedLinks, l.2 < 256 ^ 3 := by decide
  rcases bootedWord_cases k with hlink | hheap | hzero
  · exact hlinks _ hlink
  · omega
  · omega

theorem bootedMem_eq : bootedMem = ofWords bootedWord := by
  funext a
  unfold bootedMem
  by_cases hlow : a % 8 < 3
  · rw [if_pos hlow]
  · have hlt := bootedWord_lt (a / 8)
    have hpow : 256 ^ 3 ≤ 256 ^ (a % 8) := Nat.pow_le_pow_right (by decide) (by omega)
    rw [if_neg hlow, ofWords, Nat.div_eq_of_lt (Nat.lt_of_lt_of_le hlt hpow)]
    rfl

theorem booted_entry {table : Nat} (h : table % 8 = 0) (i : Nat) :
    bootedTables.entry table i = bootedWord (table / 8 + i) := by
  have haddr : table + 8 * i = 8 * (table / 8 + i) + 0 := by omega
  have hlt := bootedWord_lt (table / 8 + i)
  rw [PageTables.entry, haddr]
  show readLE bootedMem _ 8 = _
  rw [bootedMem_eq, readLE_ofWords _ _ (by omega), Nat.pow_zero, Nat.div_one]
  exact Nat.mod_eq_of_lt (by omega)

def bootedPaths : List (List Nat × Nat) :=
  [([], 0x100000), ([256], 0x110000), ([256, 0], 0x111000), ([256, 0, 0], 0x112000),
    ([256, 0, 1], 0x113000), ([0], 0x114000), ([0, 4], 0x115000), ([0, 4, 0], 0x116000)]

/-- Links found in the upper three levels lead from path to path. -/
theorem bootedLinks_paths : ∀ e ∈ bootedPaths, ∀ l ∈ bootedLinks, e.1.length ≤ 2 →
    e.2 / 8 ≤ l.1 → l.1 < e.2 / 8 + 512 → (e.1 ++ [l.1 - e.2 / 8], pageAlign l.2) ∈ bootedPaths := by
  decide

/-- Only page tables hold the entries of the heap. -/
theorem bootedPaths_heap : ∀ e ∈ bootedPaths, e.1.length ≤ 2 →
    e.2 / 8 + 512 ≤ 0x22400 ∨ 0x22800 ≤ e.2 / 8 := by
  decide

theorem bootedPaths_aligned : ∀ e ∈ bootedPaths, e.2 % 4096 = 0 := by
  decide

theorem booted_child {path : List Nat} {x i y : Nat} (hx : (path, x) ∈ bootedPaths)
    (hlen : path.length ≤ 2) (hi : i < 512) (h : bootedTables.childTable x i = some y) :
    (path ++ [i], y) ∈ bootedPaths := by
  have hal : x % 4096 = 0 := bootedPaths_aligned _ hx
  rw [PageTables.childTable, booted_entry (by omega)] at h
  by_cases hp : Present (bootedWord (x / 8 + i))
  · rw [if_pos hp] at h
    cases h
    rcases bootedWord_cases (x / 8 + i) with hlink | hheap | hzero
    · have hnext := bootedLinks_paths _ hx _ hlink hlen (by dsimp only; omega) (by dsimp only; omega)
      simpa using hnext
    · have hapart := bootedPaths_heap _ hx hlen
      dsimp only at hapart
      omega
    · rw [hzero] at hp
      exact absurd hp (by decide)
  · rw [if_neg hp] at h
    cases h

theorem booted_tableAt {path : List Nat} {x : Nat} (hpath : Within 512 3 path)
    (h : bootedTables.tableAt path = some x) : (path, x) ∈ bootedPaths := by
  induction path using List.reverseRecOn generalizing x with
  | nil =>
      cases h
      decide
  | append_singleton p i ih =>
      rw [PageTables.tableAt, walk_snoc] at h
      obtain ⟨y, hy, hchild⟩ := Option.bind_eq_some_iff.mp h
      have hlen := hpath.1
      rw [List.length_append, List.length_singleton] at hlen
      exact booted_child (ih (Within.of_append hpath) hy) (by omega) (hpath.last_lt) hchild

theorem booted_wellFormed : bootedTables.WellFormed where
  separated p q x hp hq hpx hqx := by
    have hpaths : ∀ e ∈ bootedPaths, ∀ e' ∈ bootedPaths, e.2 = e'.2 → e.1 = e'.1 := by decide
    exact hpaths _ (booted_tableAt hp hpx) _ (booted_tableAt hq hqx) rfl
  rootAligned := rfl
  noHuge path x i hpath hx hi _ := by
    have hlinks : ∀ l ∈ bootedLinks, l.2 / 128 % 2 = 0 := by decide
    have hmem := booted_tableAt ⟨Nat.le_succ_of_le hpath.1, hpath.2⟩ hx
    have hal : x % 4096 = 0 := bootedPaths_aligned _ hmem
    have hapart := bootedPaths_heap _ hmem hpath.1
    rw [booted_entry (by omega)]
    rcases bootedWord_cases (x / 8 + i) with hlink | hheap | hzero
    · exact hlinks _ hlink
    · dsimp only at hapart
      omega
    · rw [hzero]
  poolAligned := rfl
  poolBound := by decide
  usedAligned := rfl
  usedBound := by decide
  outsidePool path x hpath hx := by
    have hpool : ∀ e ∈ bootedPaths, e.2 + 4096 ≤ 0x110000 + 0x7000 := by decide
    exact Or.inl (hpool _ (booted_tableAt hpath hx))

theorem booted_fromPool : bootedTables.FromPool UpperHalf := by
  intro path x hupper hpath hx
  have hpool : ∀ e ∈ bootedPaths, e.1 ≠ [] → 0x110000 ≤ e.2 ∧ e.2 + 4096 ≤ 0x110000 + 0x7000 := by
    decide
  obtain ⟨i, rest, rfl, -⟩ := hupper
  exact hpool _ (booted_tableAt hpath hx) (List.cons_ne_nil _ _)

theorem booted_heapTables :
    bootedTables.tableAt [256, 0, 0] = some 0x112000 ∧
      bootedTables.tableAt [256, 0, 1] = some 0x113000 := by
  decide +kernel

theorem booted_leaf {x i : Nat} (hx : x % 8 = 0) (hlo : 0x22400 ≤ x / 8 + i)
    (hhi : x / 8 + i < 0x22800) :
    decodeLeaf (bootedTables.entry x i) = some (0x200000 + 4096 * (x / 8 + i - 0x22400), 3) := by
  have hword : bootedWord (x / 8 + i) = 0x200003 + 4096 * (x / 8 + i - 0x22400) :=
    if_pos ⟨hlo, hhi⟩
  have hpresent : Present (0x200003 + 4096 * (x / 8 + i - 0x22400)) := by
    unfold Present
    omega
  have hframe : pageAlign (0x200003 + 4096 * (x / 8 + i - 0x22400)) =
      0x200000 + 4096 * (x / 8 + i - 0x22400) := by
    unfold pageAlign
    omega
  have hflags : (0x200003 + 4096 * (x / 8 + i - 0x22400)) % 4096 = 3 := by omega
  rw [booted_entry hx, hword, decodeLeaf, if_pos hpresent, hframe, hflags]

theorem booted_translate_heap {n : Nat} (hlo : 2 ^ 35 ≤ n) (hhi : n < 2 ^ 35 + 1024) :
    bootedTables.translate n = some (0x200000 + 4096 * (n - 2 ^ 35), 3) := by
  have hpath : tablePath n = [256, 0, n / 512 % 512] := by
    simp only [tablePath, List.cons.injEq, and_true]
    omega
  rw [PageTables.translate, if_pos (by omega), hpath]
  by_cases hfirst : n < 2 ^ 35 + 512
  · have hthird : n / 512 % 512 = 0 := by omega
    have hindex : 0x112000 / 8 + n % 512 - 0x22400 = n - 2 ^ 35 := by omega
    rw [hthird, booted_heapTables.1, Option.bind_some, booted_leaf (by decide) (by omega) (by omega),
      hindex]
  · have hthird : n / 512 % 512 = 1 := by omega
    have hindex : 0x113000 / 8 + n % 512 - 0x22400 = n - 2 ^ 35 := by omega
    rw [hthird, booted_heapTables.2, Option.bind_some, booted_leaf (by decide) (by omega) (by omega),
      hindex]

theorem booted_translate_range {n : Nat} {e : Nat × Nat} (h : bootedTables.translate n = some e) :
    2 ^ 35 ≤ n ∧ n < 2 ^ 35 + 1024 := by
  unfold PageTables.translate at h
  split at h
  next hn =>
    obtain ⟨x, hx, hleaf⟩ := Option.bind_eq_some_iff.mp h
    have hmem := booted_tableAt (tablePath_within n) hx
    simp only [bootedPaths, tablePath, List.mem_cons, Prod.mk.injEq, List.cons.injEq,
      List.not_mem_nil, reduceCtorEq, and_false, false_and, or_false, false_or, and_true] at hmem
    rcases hmem with ⟨⟨h1, h2, h3⟩, rfl⟩ | ⟨⟨h1, h2, h3⟩, rfl⟩ | ⟨⟨h1, h2, h3⟩, rfl⟩
    · omega
    · omega
    · -- The table for user space is empty.
      have hword : bootedWord (0x116000 / 8 + n % 512) = 0 := by
        have hlinks : ∀ l ∈ bootedLinks, l.1 < 0x116000 / 8 := by decide
        rcases bootedWord_cases (0x116000 / 8 + n % 512) with hlink | hheap | hzero
        · have hlt := hlinks _ hlink
          dsimp only at hlt
          omega
        · omega
        · exact hzero
      rw [booted_entry (by decide), hword] at hleaf
      cases hleaf
  next => cases h

/-- The heap is one free block; frames not handed out hold `0xCC`. -/
def bootedPhys : Mem := fun q =>
  if q = 0x200000 then 0xE8 else if q = 0x200001 then 0xFF else if q = 0x200002 then 0x3F
  else if q = 0x200010 then 1 else if 0x600000 ≤ q then 0xCC else 0

def booted : MemState (PhysState PageTables) where
  mach := ⟨bootedTables, bootedPhys⟩
  nextFreePage := 0x600000
  heapFirstBlock := kernelBase
  heapStart := kernelBase
  heapEnd := kernelBase + 4 * 1024 * 1024
  heapMax := heapLimit
  trace := []

theorem booted_physOk : PhysOk tableMapper kernelTables_lawful booted.mach where
  tables := ⟨booted_wellFormed, booted_fromPool⟩
  aligned n p f h := by
    obtain ⟨hlo, hhi⟩ := booted_translate_range h
    have hp := (booted_translate_heap hlo hhi).symm.trans h
    simp only [Option.some.injEq, Prod.mk.injEq] at hp
    omega
  single n m p f g hn hm := by
    obtain ⟨hlo, hhi⟩ := booted_translate_range hn
    obtain ⟨hlo', hhi'⟩ := booted_translate_range hm
    have hp := (booted_translate_heap hlo hhi).symm.trans hn
    have hp' := (booted_translate_heap hlo' hhi').symm.trans hm
    simp only [Option.some.injEq, Prod.mk.injEq] at hp hp'
    omega

theorem booted_ready : KernelReady booted := by
  refine ⟨[⟨4 * 1024 * 1024 - 24, true⟩], ⟨booted_physOk, rfl, rfl, ?_, ?_, ?_, ?_, ?_⟩, ?_, ?_, ?_⟩
  · decide
  · decide
  · decide
  · refine ⟨⟨?_, ?_, ?_⟩, trivial⟩ <;> decide +kernel
  · intro x hlo hhi
    have hbase : kernelBase = 2 ^ 64 - 2 ^ 47 := by decide
    have hend : booted.heapEnd = 2 ^ 64 - 2 ^ 47 + 4 * 1024 * 1024 := by decide
    have hcanon : Canonical x := Or.inr ⟨by omega, by omega⟩
    have hpage : 2 ^ 35 ≤ pageNumber x ∧ pageNumber x < 2 ^ 35 + 1024 := by
      unfold pageNumber
      omega
    have htr : tableMapper.translate booted.mach.tables (pageNumber x) = _ :=
      booted_translate_heap hpage.1 hpage.2
    simp only [physical_lawful, hcanon, if_true, htr, Option.map_some]
    rfl
  · decide
  · decide
  · intro _ p hp hlt hpa
    refine ⟨hpa, ?_, nofun⟩
    rintro ⟨n, f, h⟩
    obtain ⟨hlo, hhi⟩ := booted_translate_range h
    have hframe := (booted_translate_heap hlo hhi).symm.trans h
    have hnext : booted.nextFreePage = 0x600000 := rfl
    simp only [Option.some.injEq, Prod.mk.injEq] at hframe
    omega

/-! ## Two segments on one page -/

/-- An open file is its position. -/
def plainVfs (file : List UInt8) : Vfs Nat where
  openFile _ := some 0
  read p n := (some ((file.drop p).take n), p + ((file.drop p).take n).length)
  seek p off whence := if whence = 0 ∧ 0 ≤ off then (true, off.toNat) else (false, p)
  close p := p

theorem plainVfs_delivers (file : List UInt8) (name : String) :
    (plainVfs file).Delivers name file fun p rest => rest = file.drop p where
  opened x h := by
    cases h
    rfl
  read p rest n bytes p' hrest h := by
    cases h
    refine ⟨List.length_take_le _ _, (file.drop p).drop n, ?_, ?_⟩
    · rw [hrest, List.take_append_drop]
    · rw [List.drop_drop, List.length_take, List.length_drop]
      by_cases hn : n ≤ file.length - p
      · rw [Nat.min_eq_left hn]
      · rw [List.drop_eq_nil_of_le (by omega), List.drop_eq_nil_of_le (by omega)]
  seek p rest off p' hrest hoff h := by
    unfold plainVfs at h
    dsimp only at h
    rw [if_pos ⟨rfl, hoff⟩] at h
    cases h
    rfl

def sharedPage : List UInt8 :=
  [ -- the ELF header
   127, 69, 76, 70, 2, 1, 1, 0, 0, 0, 0, 0, 0, 0, 0, 0, 2, 0, 62, 0, 1, 0, 0, 0,
   0, 0, 0, 0, 1, 0, 0, 0, 64, 0, 0, 0, 0, 0, 0, 0, 0, 0, 0, 0, 0, 0, 0, 0,
   0, 0, 0, 0, 64, 0, 56, 0, 2, 0, 0, 0, 0, 0, 0, 0,
   -- one byte of the file at 4 GiB
   1, 0, 0, 0, 7, 0, 0, 0, 176, 0, 0, 0, 0, 0, 0, 0, 0, 0, 0, 0, 1, 0, 0, 0,
   0, 0, 0, 0, 0, 0, 0, 0, 1, 0, 0, 0, 0, 0, 0, 0, 1, 0, 0, 0, 0, 0, 0, 0,
   0, 16, 0, 0, 0, 0, 0, 0,
   -- one byte of zeros, sixteen bytes behind it
   1, 0, 0, 0, 7, 0, 0, 0, 177, 0, 0, 0, 0, 0, 0, 0, 16, 0, 0, 0, 1, 0, 0, 0,
   0, 0, 0, 0, 0, 0, 0, 0, 0, 0, 0, 0, 0, 0, 0, 0, 1, 0, 0, 0, 0, 0, 0, 0,
   0, 16, 0, 0, 0, 0, 0, 0,
   65]

theorem loadable_sharedPage : loadable sharedPage =
    [⟨1, 7, 176, 0x100000000, 1, 1⟩, ⟨1, 7, 177, 0x100000010, 0, 1⟩] := by
  decide +kernel

theorem sharedPage_executable : Executable sharedPage where
  phentsize := by decide +kernel
  phoff := by decide +kernel
  user := by
    rw [loadable_sharedPage]
    intro h hmem
    simp only [List.mem_cons, List.not_mem_nil, or_false] at hmem
    rcases hmem with rfl | rfl
    · constructor <;> decide
    · constructor <;> decide
  disjoint := by
    rw [loadable_sharedPage]
    refine List.pairwise_pair.mpr fun x hx hx' => ?_
    simp only [Phdr.Covers] at hx hx'
    omega

/-- The load returns 1, and the first byte of the first segment is gone. -/
theorem load_sharedPage : (elfLoad (plainVfs sharedPage) kernelMachine "a.out" booted).map
    (fun r => (r.1, kernelMachine.load r.2.1.mach userBase)) = some (true, some 0xCC) := by
  decide +kernel

theorem run_sharedPage : ∃ s' entry,
    elfLoad (plainVfs sharedPage) kernelMachine "a.out" booted = some (true, s', entry) ∧
      kernelMachine.load s'.mach userBase = some 0xCC := by
  obtain ⟨⟨ok, s', entry⟩, hrun, hres⟩ := Option.map_eq_some_iff.mp load_sharedPage
  simp only [Prod.mk.injEq] at hres
  obtain ⟨rfl, hload⟩ := hres
  exact ⟨s', entry, hrun, hload⟩

/-- Two segments on one page: the file prescribes 65 where memory has what the
frame held before. -/
theorem elf_load_clobbers_sharedPage : Executable sharedPage ∧ KernelReady booted ∧
    ∃ s' entry, elfLoad (plainVfs sharedPage) kernelMachine "a.out" booted =
      some (true, s', entry) ∧ ¬ Faithful sharedPage (kernelMachine.load s'.mach) := by
  obtain ⟨s', entry, hrun, hload⟩ := run_sharedPage
  refine ⟨sharedPage_executable, booted_ready, s', entry, hrun, fun hfaith => ?_⟩
  have hfirst := hfaith ⟨1, 7, 176, 0x100000000, 1, 1⟩ (by simp [loadable_sharedPage]) userBase
    ⟨by decide, by decide⟩
  rw [hload] at hfirst
  exact absurd hfirst (by decide +kernel)

/-- The equivalence at work: the second segment occupies the page of the first. -/
theorem elf_load_faithful_iff_sharedPage : ∃ s' entry,
    elfLoad (plainVfs sharedPage) kernelMachine "a.out" booted = some (true, s', entry) ∧
      (NoClobber (loadable sharedPage) → Faithful sharedPage (kernelMachine.load s'.mach)) ∧
      ∀ z, FramesHold z booted → Unprescribed sharedPage z →
        (Faithful sharedPage (kernelMachine.load s'.mach) ↔ NoClobber (loadable sharedPage)) := by
  obtain ⟨s', entry, hrun, -⟩ := run_sharedPage
  exact ⟨s', entry, hrun, elf_load_faithful_iff _ _ _ _ (plainVfs_delivers sharedPage "a.out")
    sharedPage_executable booted s' booted_ready entry hrun⟩

end Kaviz.Elf
