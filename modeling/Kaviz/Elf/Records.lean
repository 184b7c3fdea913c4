import Kaviz.Elf.Resources

/-! # The recorded loader on a machine

With the services of a machine and a file system the recorded program returns
what `Elf.elfLoad` returns, so that what was proved about its calls is about the
loader too.
-/

namespace Kaviz.Elf

open Calls Paging

variable {σ φ : Type} (V : Vfs φ) (M : Memory.Machine σ)

abbrev LoadWorld (σ φ : Type) := Memory.MemState σ × Option φ × Option Nat

def machineServices : Services (LoadWorld σ φ) where
  vfsOpen filename w :=
    match V.openFile filename with
    | none => some (false, w)
    | some file => some (true, w.1, some file, w.2.2)
  vfsRead n w := w.2.1.map fun file => ((V.read file n).1, w.1, some (V.read file n).2, w.2.2)
  vfsSeek offset whence w :=
    w.2.1.map fun file => ((V.seek file offset whence).1, w.1, some (V.seek file offset whence).2, w.2.2)
  vfsClose w := w.2.1.map fun file => ((), w.1, some (V.close file), w.2.2)
  kmalloc n w := (Heap.kmalloc M w.1 n).map fun r => (r.1, r.2, w.2)
  kfree p w := (Heap.kfree M w.1 p).map fun mem => ((), mem, w.2)
  allocPhysicalPage w := some (w.1.allocPhysicalPage.1, w.1.allocPhysicalPage.2, w.2)
  mapPage v p f w := some ((w.1.mapPage M v p f).1, (w.1.mapPage M v p f).2, w.2)
  load a n w := (Memory.loadLE M w.1.mach a n).map fun x => (x, w)
  store a bytes w := (storeBytes M w.1 a bytes).map fun mem => ((), mem, w.2)
  memcpy dst src n w := (Elf.memcpy M w.1 dst src n).map fun mem => ((), mem, w.2)
  memzero dst n w := (Elf.memzero M w.1 dst n).map fun mem => ((), mem, w.2)
  setEntry entry w := some ((), w.1, w.2.1, some entry)

/-- The world of a load in progress. -/
def LoadState.world (st : LoadState σ φ) : LoadWorld σ φ := (st.mem, some st.file, st.entry)

/-- Whenever the loader returns, the recorded program does, with the same result. -/
def Records (p : Prog LoadCall (LoadWorld σ φ) Bool) (st : LoadState σ φ)
    (q : Option (Bool × LoadState σ φ)) : Prop :=
  ∀ cs r, q = some r → ∃ cs', p (cs, st.world) = some (r.1, cs', r.2.world)

variable {V M} {α β : Type} {st : LoadState σ φ} {q : α → Prog LoadCall (LoadWorld σ φ) Bool}

theorem Records.pure (ok : Bool) : Records (Pure.pure ok) st (some (ok, st)) := by
  intro cs r hr
  cases hr
  exact ⟨cs, rfl⟩

theorem Records.answered {record : α → LoadCall}
    {answer : LoadWorld σ φ → Option (α × LoadWorld σ φ)} {a : α} {st' : LoadState σ φ}
    {k : Option (Bool × LoadState σ φ)} (hanswer : answer st.world = some (a, st'.world))
    (hrest : Records (q a) st' k) : Records (call record answer >>= q) st k := by
  intro cs r hr
  obtain ⟨cs', hrun⟩ := hrest (record a :: cs) r hr
  have hcall : call record answer (cs, st.world) = some (a, record a :: cs, st'.world) := by
    rw [call, hanswer]
    rfl
  exact ⟨cs', Option.bind_eq_some_iff.mpr ⟨_, hcall, hrun⟩⟩

theorem Records.call {record : α → LoadCall} {answer : LoadWorld σ φ → Option (α × LoadWorld σ φ)}
    {x : Option β} (f : β → α) (g : β → LoadState σ φ) {k : β → Option (Bool × LoadState σ φ)}
    (hanswer : answer st.world = x.map fun b => (f b, (g b).world))
    (hrest : ∀ b, Records (q (f b)) (g b) (k b)) :
    Records (Calls.call record answer >>= q) st (x.bind k) := by
  intro cs r hr
  obtain ⟨b, hb, hk⟩ := Option.bind_eq_some_iff.mp hr
  have hsome : answer st.world = some (f b, (g b).world) := by
    rw [hanswer, hb]
    rfl
  exact Records.answered hsome (hrest b) cs r hk

theorem Records.accessed {answer : LoadWorld σ φ → Option (α × LoadWorld σ φ)} {a : α}
    {st' : LoadState σ φ} {k : Option (Bool × LoadState σ φ)}
    (hanswer : answer st.world = some (a, st'.world)) (hrest : Records (q a) st' k) :
    Records (Calls.silent answer >>= q) st k := by
  intro cs r hr
  obtain ⟨cs', hrun⟩ := hrest cs r hr
  have hcall : Calls.silent answer (cs, st.world) = some (a, cs, st'.world) := by
    rw [Calls.silent, hanswer]
    rfl
  exact ⟨cs', Option.bind_eq_some_iff.mpr ⟨_, hcall, hrun⟩⟩

theorem Records.silent {answer : LoadWorld σ φ → Option (α × LoadWorld σ φ)} {x : Option β}
    (f : β → α) (g : β → LoadState σ φ) {k : β → Option (Bool × LoadState σ φ)}
    (hanswer : answer st.world = x.map fun b => (f b, (g b).world))
    (hrest : ∀ b, Records (q (f b)) (g b) (k b)) :
    Records (Calls.silent answer >>= q) st (x.bind k) := by
  intro cs r hr
  obtain ⟨b, hb, hk⟩ := Option.bind_eq_some_iff.mp hr
  have hsome : answer st.world = some (f b, (g b).world) := by
    rw [hanswer, hb]
    rfl
  exact Records.accessed hsome (hrest b) cs r hk

theorem Records.bind {p : Prog LoadCall (LoadWorld σ φ) Bool} {q : Bool → Prog LoadCall (LoadWorld σ φ) Bool}
    {x : Option β} {f : β → Bool} {g : β → LoadState σ φ} {k : β → Option (Bool × LoadState σ φ)}
    (hp : Records p st (x.map fun b => (f b, g b)))
    (hrest : ∀ b, Records (q (f b)) (g b) (k b)) : Records (p >>= q) st (x.bind k) := by
  intro cs r hr
  obtain ⟨b, hb, hk⟩ := Option.bind_eq_some_iff.mp hr
  obtain ⟨cs₁, hfirst⟩ := hp cs (f b, g b) (by rw [hb]; rfl)
  obtain ⟨cs', hrun⟩ := hrest b cs₁ r hk
  exact ⟨cs', Option.bind_eq_some_iff.mpr ⟨_, hfirst, hrun⟩⟩

theorem Records.seq {p : Prog LoadCall (LoadWorld σ φ) Bool} {q : Bool → Prog LoadCall (LoadWorld σ φ) Bool}
    {x : Option (Bool × LoadState σ φ)} {k : Bool × LoadState σ φ → Option (Bool × LoadState σ φ)}
    (hp : Records p st x) (hrest : ∀ r, Records (q r.1) r.2 (k r)) :
    Records (p >>= q) st (x.bind k) := by
  have hsame : x.map (fun r => (r.1, r.2)) = x := Option.map_id'
  rw [← hsame] at hp
  exact hp.bind hrest

theorem giveUp_records (phdrs : Nat) :
    Records ((machineServices V M).giveUp phdrs) st (giveUp V M phdrs st) := by
  refine Records.call (fun _ => ()) (fun mem => { st with mem := mem }) rfl ?_
  intro mem
  exact Records.answered rfl (Records.pure false)

theorem copySegment_records (phdrs phdr : Nat) :
    Records ((machineServices V M).copySegment phdrs phdr) st (copySegment V M phdrs phdr st) := by
  refine Records.silent id (fun _ => st) rfl ?_
  intro filesz
  by_cases hempty : filesz = 0
  · rw [id, if_pos hempty, if_pos hempty]
    exact Records.pure true
  · rw [id, if_neg hempty, if_neg hempty]
    refine Records.call Prod.fst (fun r => { st with mem := r.2 }) rfl ?_
    intro ⟨buffer, mem⟩
    dsimp only
    by_cases hnull : buffer = 0
    · rw [if_pos hnull, if_pos hnull]
      exact giveUp_records phdrs
    · rw [if_neg hnull, if_neg hnull]
      refine Records.silent id (fun _ => { st with mem := mem }) rfl ?_
      intro count
      have hread : (machineServices V M).vfsRead (count % 2 ^ 32)
          (⟨mem, st.file, st.entry⟩ : LoadState σ φ).world =
          some ((V.read st.file (count % 2 ^ 32)).1,
            (⟨mem, (V.read st.file (count % 2 ^ 32)).2, st.entry⟩ : LoadState σ φ).world) := rfl
      generalize V.read st.file (count % 2 ^ 32) = answer at hread
      obtain ⟨answer, file⟩ := answer
      cases answer with
      | none =>
          refine Records.answered hread ?_
          refine Records.call (fun _ => ()) (fun mem => ⟨mem, file, st.entry⟩) rfl ?_
          intro mem
          exact giveUp_records phdrs
      | some bytes =>
          refine Records.answered hread ?_
          refine Records.silent (fun _ => ()) (fun mem => ⟨mem, file, st.entry⟩) rfl ?_
          intro mem
          refine Records.silent id (fun _ => ⟨mem, file, st.entry⟩) rfl ?_
          intro filesz
          by_cases hshort : bytes.length ≠ filesz
          · rw [id, if_pos hshort, if_pos hshort]
            refine Records.call (fun _ => ()) (fun mem => ⟨mem, file, st.entry⟩) rfl ?_
            intro mem
            exact giveUp_records phdrs
          · rw [id, if_neg hshort, if_neg hshort]
            refine Records.silent id (fun _ => ⟨mem, file, st.entry⟩) rfl ?_
            intro vaddr
            refine Records.silent (fun _ => ()) (fun mem => ⟨mem, file, st.entry⟩) rfl ?_
            intro mem
            refine Records.call (fun _ => ()) (fun mem => ⟨mem, file, st.entry⟩) rfl ?_
            intro mem
            exact Records.pure true

theorem machineServices_load {a n x : Nat} (h : Memory.loadLE M st.mem.mach a n = some x) :
    (machineServices V M).load a n st.world = some (x, st.world) := by
  show (Memory.loadLE M st.mem.mach a n).map _ = _
  rw [h]
  rfl

/-- The page loop reads the flags of the segment behind the frame it takes; taking
a frame changes no memory. -/
theorem mapSegment_records (phdr startPage i n : Nat) :
    Records ((machineServices V M).mapSegment phdr startPage i n) st
      ((mapSegment M phdr startPage i n st.mem).map fun r => (r.1, { st with mem := r.2 })) := by
  induction n generalizing st i with
  | zero => exact Records.pure true
  | succ n ih =>
      have halloc : (machineServices V M).allocPhysicalPage st.world =
          some (st.mem.allocPhysicalPage.1,
            ({ st with mem := st.mem.allocPhysicalPage.2 } : LoadState σ φ).world) := rfl
      refine Records.answered halloc ?_
      intro cs r hr
      obtain ⟨⟨ok, mem⟩, hmap, rfl⟩ := Option.map_eq_some_iff.mp hr
      obtain ⟨flags, hflags, hrest⟩ := Option.bind_eq_some_iff.mp hmap
      dsimp only at hrest
      by_cases hnull : st.mem.allocPhysicalPage.1 = 0
      · have hfresh : st.mem.mapFresh M ((startPage + 4096 * i) % 2 ^ 64)
            (segmentFlags flags ((startPage + 4096 * i) % 2 ^ 64)) =
            (false, st.mem.allocPhysicalPage.2) := if_pos hnull
        rw [hfresh] at hrest
        cases hrest
        rw [if_pos hnull]
        exact ⟨cs, rfl⟩
      · rw [if_neg hnull]
        have hmach := Memory.alloc_mach st.mem
        have hword : Memory.loadLE M st.mem.allocPhysicalPage.2.mach (phdr + 4) 4 = some flags := by
          rw [hmach]
          exact hflags
        have hload := @machineServices_load σ φ V M
          ⟨st.mem.allocPhysicalPage.2, st.file, st.entry⟩ _ _ _ hword
        generalize hmapped : Memory.MemState.mapPage M st.mem.allocPhysicalPage.2
          ((startPage + 4096 * i) % 2 ^ 64) st.mem.allocPhysicalPage.1
          (segmentFlags flags ((startPage + 4096 * i) % 2 ^ 64)) = mapped
        have hfresh : st.mem.mapFresh M ((startPage + 4096 * i) % 2 ^ 64)
            (segmentFlags flags ((startPage + 4096 * i) % 2 ^ 64)) =
            (decide (mapped.1 = 0), mapped.2) := by
          rw [← hmapped]
          exact if_neg hnull
        rw [hfresh] at hrest
        have hcall : (machineServices V M).mapPage ((startPage + 4096 * i) % 2 ^ 64)
            st.mem.allocPhysicalPage.1 (segmentFlags flags ((startPage + 4096 * i) % 2 ^ 64))
            (⟨st.mem.allocPhysicalPage.2, st.file, st.entry⟩ : LoadState σ φ).world =
            some (mapped.1, (⟨mapped.2, st.file, st.entry⟩ : LoadState σ φ).world) := by
          rw [← hmapped]
          rfl
        refine Records.accessed hload (Records.answered hcall ?_) cs _ rfl
        by_cases hret : mapped.1 = 0
        · rw [if_neg (not_not.mpr hret)]
          rw [decide_eq_true hret] at hrest
          have hnext := @ih ⟨mapped.2, st.file, st.entry⟩ (i + 1)
          dsimp only at hrest hnext
          rw [hrest] at hnext
          exact hnext
        · rw [if_pos hret]
          rw [decide_eq_false hret] at hrest
          cases hrest
          exact Records.pure false

theorem clearBss_records (phdr : Nat) :
    Records ((machineServices V M).clearBss phdr) st
      ((clearBss M phdr st.mem).bind fun mem => some (true, { st with mem := mem })) := by
  intro cs r hr
  obtain ⟨mem, hclear, hr⟩ := Option.bind_eq_some_iff.mp hr
  obtain ⟨memsz, hmemsz, hclear⟩ := Option.bind_eq_some_iff.mp hclear
  obtain ⟨filesz, hfilesz, hclear⟩ := Option.bind_eq_some_iff.mp hclear
  refine Records.accessed (machineServices_load hmemsz)
    (Records.accessed (machineServices_load hfilesz) ?_) cs r hr
  by_cases hbss : memsz > filesz
  · rw [if_pos hbss] at hclear ⊢
    obtain ⟨vaddr, hvaddr, hzero⟩ := Option.bind_eq_some_iff.mp hclear
    have hdone : (machineServices V M).memzero (vaddr + filesz) (memsz - filesz) st.world =
        some ((), (⟨mem, st.file, st.entry⟩ : LoadState σ φ).world) := by
      show (memzero M st.mem _ _).map _ = _
      rw [hzero]
      rfl
    exact Records.accessed (machineServices_load hvaddr) (Records.accessed hdone (Records.pure true))
  · rw [if_neg hbss] at hclear ⊢
    cases hclear
    exact Records.pure true

theorem loadSegment_records (phdrs phdr : Nat) :
    Records ((machineServices V M).loadSegment phdrs phdr) st (loadSegment V M phdrs phdr st) := by
  refine Records.silent id (fun _ => st) rfl ?_
  intro type
  by_cases hload : type ≠ ptLoad
  · rw [id, if_pos hload, if_pos hload]
    exact Records.pure true
  · rw [id, if_neg hload, if_neg hload]
    refine Records.silent id (fun _ => st) rfl ?_
    intro vaddr
    refine Records.silent id (fun _ => st) rfl ?_
    intro memsz
    refine Records.bind (mapSegment_records phdr (pageAlign vaddr) 0 (numPages vaddr memsz)) ?_
    intro ⟨mapped, mem⟩
    cases mapped with
    | false => exact giveUp_records phdrs
    | true =>
        refine Records.silent id (fun _ => { st with mem := mem }) rfl ?_
        intro offset
        have hseek : (machineServices V M).vfsSeek (toInt32 offset) 0
            (⟨mem, st.file, st.entry⟩ : LoadState σ φ).world =
            some ((V.seek st.file (toInt32 offset) 0).1,
              (⟨mem, (V.seek st.file (toInt32 offset) 0).2, st.entry⟩ : LoadState σ φ).world) := rfl
        generalize V.seek st.file (toInt32 offset) 0 = answer at hseek
        obtain ⟨ok, file⟩ := answer
        refine Records.answered hseek ?_
        cases ok with
        | false => exact giveUp_records phdrs
        | true =>
            refine (copySegment_records phdrs phdr).seq ?_
            intro ⟨copied, st₁⟩
            cases copied with
            | false => exact Records.pure false
            | true => exact clearBss_records phdr

theorem loadSegments_records (phdrs i n : Nat) :
    Records ((machineServices V M).loadSegments phdrs i n) st (loadSegments V M phdrs i n st) := by
  induction n generalizing st i with
  | zero => exact Records.pure true
  | succ n ih =>
      refine (loadSegment_records phdrs (phdrs + 56 * i)).seq ?_
      intro ⟨go, st₁⟩
      cases go with
      | false => exact Records.pure false
      | true => exact ih (i + 1)

theorem loadProgram_records (e : Ehdr) :
    Records ((machineServices V M).loadProgram e) st (loadProgram V M e st) := by
  have hentry : (machineServices V M).setEntry e.entry st.world =
      some ((), ({ st with entry := some e.entry } : LoadState σ φ).world) := rfl
  refine Records.accessed hentry ?_
  unfold loadProgram
  dsimp only
  by_cases hnone : e.phnum = 0
  · rw [if_pos hnone, if_pos hnone]
    exact Records.answered rfl (Records.pure false)
  · rw [if_neg hnone, if_neg hnone]
    have hseek : (machineServices V M).vfsSeek (toInt32 e.phoff) 0
        (⟨st.mem, st.file, some e.entry⟩ : LoadState σ φ).world =
        some ((V.seek st.file (toInt32 e.phoff) 0).1,
          (⟨st.mem, (V.seek st.file (toInt32 e.phoff) 0).2, some e.entry⟩ : LoadState σ φ).world) := rfl
    generalize V.seek st.file (toInt32 e.phoff) 0 = answer at hseek
    obtain ⟨ok, file⟩ := answer
    refine Records.answered hseek ?_
    cases ok with
    | false => exact Records.answered rfl (Records.pure false)
    | true =>
        refine Records.call Prod.fst (fun r => ⟨r.2, file, some e.entry⟩) rfl ?_
        intro ⟨phdrs, mem⟩
        dsimp only
        by_cases hnull : phdrs = 0
        · rw [if_pos hnull, if_pos hnull]
          exact Records.answered rfl (Records.pure false)
        · rw [if_neg hnull, if_neg hnull]
          have hread : (machineServices V M).vfsRead (e.phnum * e.phentsize % 2 ^ 32)
              (⟨mem, file, some e.entry⟩ : LoadState σ φ).world =
              some ((V.read file (e.phnum * e.phentsize % 2 ^ 32)).1,
                (⟨mem, (V.read file (e.phnum * e.phentsize % 2 ^ 32)).2, some e.entry⟩ :
                  LoadState σ φ).world) := rfl
          generalize V.read file (e.phnum * e.phentsize % 2 ^ 32) = answer at hread
          obtain ⟨answer, file⟩ := answer
          refine Records.answered hread ?_
          cases answer with
          | none => exact giveUp_records phdrs
          | some bytes =>
              refine Records.silent (fun _ => ()) (fun mem => ⟨mem, file, some e.entry⟩) rfl ?_
              intro mem
              by_cases hshort : bytes.length ≠ e.phnum * e.phentsize % 2 ^ 32
              · rw [if_pos hshort, if_pos hshort]
                exact giveUp_records phdrs
              · rw [if_neg hshort, if_neg hshort]
                refine (loadSegments_records phdrs 0 e.phnum).seq ?_
                intro ⟨go, st₁⟩
                cases go with
                | false => exact Records.pure false
                | true =>
                    refine Records.call (fun _ => ()) (fun mem => { st₁ with mem := mem }) rfl ?_
                    intro mem
                    exact Records.answered rfl (Records.pure true)

/-- Every return of the loader is one of the recorded program, with the same
result, memory and entry point. -/
theorem elfLoad_records (filename : String) (s : Memory.MemState σ) {ok : Bool}
    {s' : Memory.MemState σ} {entry : Option Nat}
    (h : elfLoad V M filename s = some (ok, s', entry)) :
    ∃ cs file, (machineServices V M).elfLoad filename ([], s, none, none) =
      some (ok, cs, s', file, entry) := by
  unfold elfLoad at h
  cases hopen : V.openFile filename with
  | none =>
      rw [hopen] at h
      cases h
      have hcall : call LoadCall.vfsOpen ((machineServices V M).vfsOpen filename) ([], s, none, none) =
          some (false, [.vfsOpen false], s, none, none) := by
        simp only [call, machineServices, hopen, Option.map_some]
      exact ⟨[.vfsOpen false], none, Option.bind_eq_some_iff.mpr ⟨_, hcall, rfl⟩⟩
  | some file =>
      have hcall : call LoadCall.vfsOpen ((machineServices V M).vfsOpen filename) ([], s, none, none) =
          some (true, [.vfsOpen true], (⟨s, file, none⟩ : LoadState σ φ).world) := by
        simp only [call, machineServices, hopen, Option.map_some, LoadState.world]
      have hread : (machineServices V M).vfsRead 64 (⟨s, file, none⟩ : LoadState σ φ).world =
          some ((V.read file 64).1, (⟨s, (V.read file 64).2, none⟩ : LoadState σ φ).world) := rfl
      rw [hopen] at h
      dsimp only at h
      generalize V.read file 64 = answer at h hread
      obtain ⟨answer, file⟩ := answer
      suffices hrest : ∃ st' : LoadState σ φ, st'.mem = s' ∧ st'.entry = entry ∧
          Records ((machineServices V M).checkHeader answer) ⟨s, file, none⟩ (some (ok, st')) by
        obtain ⟨st', rfl, rfl, hrec⟩ := hrest
        obtain ⟨cs, hrun⟩ := Records.answered (q := (machineServices V M).checkHeader) hread hrec
          [.vfsOpen true] _ rfl
        exact ⟨cs, some st'.file, Option.bind_eq_some_iff.mpr ⟨_, hcall, hrun⟩⟩
      have hclose : Records (machineServices V M).closeOnly (⟨s, file, none⟩ : LoadState σ φ)
          (some (false, ⟨s, V.close file, none⟩)) := Records.answered rfl (Records.pure false)
      cases answer with
      | none =>
          cases h
          exact ⟨_, rfl, rfl, hclose⟩
      | some bytes =>
          dsimp only at h
          rw [Services.checkHeader]
          by_cases hshort : bytes.length ≠ 64
          · rw [if_pos hshort] at h ⊢
            cases h
            exact ⟨_, rfl, rfl, hclose⟩
          · rw [if_neg hshort] at h ⊢
            by_cases hbad : ¬ (Ehdr.ofBytes bytes).Accepted
            · rw [if_pos hbad] at h ⊢
              cases h
              exact ⟨_, rfl, rfl, hclose⟩
            · rw [if_neg hbad] at h ⊢
              obtain ⟨⟨ok', st'⟩, hload, hret⟩ := Option.bind_eq_some_iff.mp h
              cases hret
              refine ⟨st', rfl, rfl, ?_⟩
              rw [← hload]
              exact loadProgram_records (Ehdr.ofBytes bytes)

/-- The calls behind every return of the loader leave no allocation live and the
file closed. -/
theorem elfLoad_holds_nothing {filename : String} {s : Memory.MemState σ}
    {r : Bool × Memory.MemState σ × Option Nat} (h : elfLoad V M filename s = some r) :
    ∃ cs w, (machineServices V M).elfLoad filename ([], s, none, none) = some (r.1, cs, w) ∧
      Holding cs [] false := by
  obtain ⟨ok, s', entry⟩ := r
  obtain ⟨cs, file, hrun⟩ := elfLoad_records filename s h
  exact ⟨cs, _, hrun, elfLoad_ensures _ filename _ ok cs _ hrun⟩

end Kaviz.Elf
