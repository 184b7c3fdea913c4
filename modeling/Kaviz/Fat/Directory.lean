import Mathlib.Data.List.TakeWhile
import Kaviz.Fat.Open

/-! # Directories as lists of entries

`lookup_file_in_dir` goes from cluster to cluster and from entry to entry, and
stops at a match, at the mark of the end or where the chain or the drive stops.
Seen from outside a directory is one list of entries, and the search is the first
match in front of the first end mark.
-/

namespace Kaviz.Fat

open Bytes

/-! ## Entries -/

namespace DirEntry

def firstByte (e : DirEntry) : UInt8 := e.name.headD 0

def Ends (e : DirEntry) : Prop := e.firstByte = 0

/-- The entry is not deleted and has this 8.3 name. -/
def Matches (name : List UInt8) (e : DirEntry) : Prop := e.firstByte ≠ 0xE5 ∧ e.name = name

instance (e : DirEntry) : Decidable e.Ends := inferInstanceAs (Decidable (e.firstByte = 0))

instance (name : List UInt8) (e : DirEntry) : Decidable (Matches name e) :=
  inferInstanceAs (Decidable (_ ∧ _))

end DirEntry

/-- Entries `i`, `i + 1`, … (`n` of them) of a cluster. -/
def entriesFrom (buf : Mem) (i n : Nat) : List DirEntry :=
  (List.range' i n).map fun k => .ofBytes buf (32 * k)

def visible (es : List DirEntry) : List DirEntry := es.takeWhile fun e => !decide e.Ends

/-- The first live entry with an 8.3 name, in front of the end mark. -/
def firstMatch (name : List UInt8) (es : List DirEntry) : Option DirEntry :=
  (visible es).find? fun e => decide (e.Matches name)

section Lists

variable {name : List UInt8} {e : DirEntry} {es es' : List DirEntry}

theorem firstMatch_ended (h : e.Ends) : firstMatch name (e :: es) = none := by
  simp [firstMatch, visible, h]

theorem firstMatch_found (hend : ¬ e.Ends) (h : e.Matches name) :
    firstMatch name (e :: es) = some e := by
  simp [firstMatch, visible, hend, h]

theorem firstMatch_passed (hend : ¬ e.Ends) (h : ¬ e.Matches name) :
    firstMatch name (e :: es) = firstMatch name es := by
  simp [firstMatch, visible, hend, h]

/-- A match in the first part of a directory, or an end there, decides. -/
theorem firstMatch_append_decided (h : firstMatch name es ≠ none ∨ ∃ e ∈ es, e.Ends) :
    firstMatch name (es ++ es') = firstMatch name es := by
  induction es with
  | nil => simp [firstMatch, visible] at h
  | cons e es ih =>
      rw [List.cons_append]
      by_cases hend : e.Ends
      · rw [firstMatch_ended hend, firstMatch_ended hend]
      · by_cases hmatch : e.Matches name
        · rw [firstMatch_found hend hmatch, firstMatch_found hend hmatch]
        · rw [firstMatch_passed hend hmatch] at h ⊢
          rw [firstMatch_passed hend hmatch]
          apply ih
          rcases h with h | ⟨u, hu, huend⟩
          · exact Or.inl h
          · rcases List.mem_cons.mp hu with rfl | hu
            · exact absurd huend hend
            · exact Or.inr ⟨u, hu, huend⟩

theorem firstMatch_append_open (h : firstMatch name es = none) (hend : ∀ e ∈ es, ¬ e.Ends) :
    firstMatch name (es ++ es') = firstMatch name es' := by
  induction es with
  | nil => rfl
  | cons e es ih =>
      rw [List.forall_mem_cons] at hend
      have hmatch : ¬ e.Matches name := by
        intro hmatch
        rw [firstMatch_found hend.1 hmatch] at h
        cases h
      rw [firstMatch_passed hend.1 hmatch] at h
      rw [List.cons_append, firstMatch_passed hend.1 hmatch, ih h hend.2]

theorem firstMatch_eq_none (hend : ∀ e ∈ es, ¬ e.Ends) :
    firstMatch name es = none ↔ ∀ e ∈ es, ¬ e.Matches name := by
  have hall : visible es = es := by
    apply List.takeWhile_eq_self_iff.mpr
    intro e he
    simp [hend e he]
  rw [firstMatch, hall, List.find?_eq_none]
  simp

theorem firstMatch_matches (h : firstMatch name es = some e) : e.Matches name := by
  have hfound := List.find?_some h
  exact of_decide_eq_true hfound

end Lists

/-! ## The search -/

section Search

variable {v : FatVolume} {name : List UInt8} {d d' : Disk} {buf : Mem} {fuel cluster : Nat}

theorem entriesFrom_succ (buf : Mem) (i n : Nat) :
    entriesFrom buf i (n + 1) = .ofBytes buf (32 * i) :: entriesFrom buf (i + 1) n := by
  rw [entriesFrom, List.range'_succ, List.map_cons]
  rfl

theorem scanEntries_succ (buf : Mem) (name : List UInt8) (i n : Nat) :
    scanEntries buf name i (n + 1) =
      if (DirEntry.ofBytes buf (32 * i)).Ends then .ended
      else if (DirEntry.ofBytes buf (32 * i)).Matches name then .found (.ofBytes buf (32 * i))
      else scanEntries buf name (i + 1) n := by
  rw [scanEntries]
  by_cases hend : buf (32 * i) = 0
  · rw [if_pos hend]
    exact (if_pos hend).symm
  · have hends : ¬ (DirEntry.ofBytes buf (32 * i)).Ends := hend
    rw [if_neg hend, if_neg hends]
    by_cases hdeleted : buf (32 * i) = 0xE5
    · have hmatch : ¬ (DirEntry.ofBytes buf (32 * i)).Matches name := fun h => h.1 hdeleted
      rw [if_pos hdeleted, if_neg hmatch]
    · rw [if_neg hdeleted]
      by_cases hname : (List.range 11).map (fun k => buf (32 * i + k)) = name
      · have hmatch : (DirEntry.ofBytes buf (32 * i)).Matches name := ⟨hdeleted, hname⟩
        rw [if_pos hname, if_pos hmatch]
      · have hmatch : ¬ (DirEntry.ofBytes buf (32 * i)).Matches name := fun h => hname h.2
        rw [if_neg hname, if_neg hmatch]

theorem scanEntries_cases (buf : Mem) (name : List UInt8) (i n : Nat) :
    (∃ e, scanEntries buf name i n = .found e ∧ firstMatch name (entriesFrom buf i n) = some e) ∨
    (scanEntries buf name i n = .ended ∧ firstMatch name (entriesFrom buf i n) = none ∧
      ∃ e ∈ entriesFrom buf i n, e.Ends) ∨
    (scanEntries buf name i n = .more ∧ firstMatch name (entriesFrom buf i n) = none ∧
      ∀ e ∈ entriesFrom buf i n, ¬ e.Ends) := by
  induction n generalizing i with
  | zero => exact Or.inr (Or.inr ⟨rfl, rfl, by simp [entriesFrom]⟩)
  | succ n ih =>
      rw [entriesFrom_succ, scanEntries_succ]
      generalize DirEntry.ofBytes buf (32 * i) = e
      by_cases hend : e.Ends
      · rw [if_pos hend, firstMatch_ended hend]
        exact Or.inr (Or.inl ⟨rfl, rfl, e, List.mem_cons_self, hend⟩)
      · rw [if_neg hend, List.forall_mem_cons]
        by_cases hmatch : e.Matches name
        · rw [if_pos hmatch, firstMatch_found hend hmatch]
          exact Or.inl ⟨e, rfl, rfl⟩
        · rw [if_neg hmatch, firstMatch_passed hend hmatch]
          rcases ih (i + 1) with hfound | ⟨hscan, hnone, u, hu, huend⟩ | ⟨hscan, hnone, hall⟩
          · exact Or.inl hfound
          · exact Or.inr (Or.inl ⟨hscan, hnone, u, List.mem_cons_of_mem _ hu, huend⟩)
          · exact Or.inr (Or.inr ⟨hscan, hnone, hend, hall⟩)

theorem scanEntries_more (buf : Mem) (name : List UInt8) (n : Nat) :
    scanEntries buf name 0 n = .more ↔ ∀ e ∈ entriesFrom buf 0 n, ¬ e.Ends ∧ ¬ e.Matches name := by
  rcases scanEntries_cases buf name 0 n with ⟨e, hscan, hfirst⟩ | ⟨hscan, -, e, he, hend⟩ |
    ⟨hscan, hfirst, hopen⟩
  · rw [hscan]
    refine iff_of_false nofun fun hall => ?_
    have hnone := (firstMatch_eq_none fun e he => (hall e he).1).mpr fun e he => (hall e he).2
    rw [hfirst] at hnone
    cases hnone
  · rw [hscan]
    exact iff_of_false nofun fun hall => (hall e he).1 hend
  · have hmatch := (firstMatch_eq_none hopen).mp hfirst
    exact iff_of_true hscan fun e he => ⟨hopen e he, hmatch e he⟩

/-- The entries of a directory from a cluster on, as far as chain and drive go. -/
def dirEntries (v : FatVolume) : Nat → Nat → Disk → Mem → List DirEntry
  | 0, _, _, _ => []
  | fuel + 1, cluster, d, buf =>
      if cluster < (v.clusterCount + 2) % 2 ^ 32 then
        match v.readCluster d cluster buf with
        | (false, _, _) => []
        | (true, d, buf) => entriesFrom buf 0 (v.clusterSize / 32) ++
            if v.readFatEntry cluster ≥ endOfChain then []
            else dirEntries v fuel (v.readFatEntry cluster) d buf
      else []

/-- The search answers with the first match of the directory. -/
theorem lookupLoop_eq {r : Option DirEntry} (h : lookupLoop v name fuel cluster d buf = some (r, d')) :
    r = firstMatch name (dirEntries v fuel cluster d buf) := by
  induction fuel generalizing cluster d buf with
  | zero => cases h
  | succ fuel ih =>
      rw [lookupLoop] at h
      rw [dirEntries]
      by_cases hin : cluster < (v.clusterCount + 2) % 2 ^ 32
      · rw [if_pos hin] at h ⊢
        match hread : v.readCluster d cluster buf with
        | (false, d₁, buf₁) =>
            rw [hread] at h
            cases h
            rfl
        | (true, d₁, buf₁) =>
            rw [hread] at h
            dsimp only at h ⊢
            rcases scanEntries_cases buf₁ name 0 (v.clusterSize / 32) with
              ⟨e, hscan, hfirst⟩ | ⟨hscan, hfirst, hend⟩ | ⟨hscan, hfirst, hopen⟩
            · rw [hscan] at h
              cases h
              rw [firstMatch_append_decided (Or.inl (by rw [hfirst]; simp)), hfirst]
            · rw [hscan] at h
              cases h
              rw [firstMatch_append_decided (Or.inr hend), hfirst]
            · rw [hscan] at h
              dsimp only at h
              rw [firstMatch_append_open hfirst hopen]
              by_cases hlast : v.readFatEntry cluster ≥ endOfChain
              · rw [if_pos hlast] at h ⊢
                cases h
                rfl
              · rw [if_neg hlast] at h ⊢
                exact ih h
      · rw [if_neg hin] at h ⊢
        cases h
        rfl

end Search

/-! ## Directories on a chain of clusters -/

/-- The clusters of a directory: the FAT leads from one to the next, and from the
last one to a number behind those of the volume. -/
inductive DirChain (v : FatVolume) : Nat → List Nat → Prop
  | ended {cluster : Nat} (behind : v.clusterCount + 2 ≤ cluster) : DirChain v cluster []
  | link {cluster : Nat} {rest : List Nat} (lower : 2 ≤ cluster)
      (upper : cluster < v.clusterCount + 2) (tail : DirChain v (v.readFatEntry cluster) rest) :
      DirChain v cluster (cluster :: rest)

def clusterEntries (v : FatVolume) (sector : Nat → Mem) (cluster : Nat) : List DirEntry :=
  entriesFrom (clusterByte v sector cluster) 0 (v.clusterSize / 32)

section Chain

variable {v : FatVolume} {cluster : Nat} {cs : List Nat} {d : Disk} {buf buf' : Mem}
  {name : List UInt8} {fuel : Nat}

theorem DirEntry.ofBytes_congr {a : Nat} (h : ∀ x, a ≤ x → x < a + 32 → buf x = buf' x) :
    DirEntry.ofBytes buf a = DirEntry.ofBytes buf' a := by
  have hname : (List.range 11).map (fun k => buf (a + k)) =
      (List.range 11).map fun k => buf' (a + k) := by
    apply List.map_congr_left
    intro k hk
    have hlt := List.mem_range.mp hk
    exact h (a + k) (by omega) (by omega)
  have hword : ∀ off n, off + n ≤ 32 → readLE buf (a + off) n = readLE buf' (a + off) n :=
    fun off n hoff => readLE_congr fun x hlo hhi => h x (by omega) (by omega)
  unfold DirEntry.ofBytes
  rw [hname, hword 11 1 (by decide), hword 20 2 (by decide), hword 26 2 (by decide),
    hword 28 4 (by decide)]

theorem entriesFrom_congr {n : Nat} (h : ∀ x, x < 32 * n → buf x = buf' x) :
    entriesFrom buf 0 n = entriesFrom buf' 0 n := by
  apply List.map_congr_left
  intro k hk
  have hlt := (List.mem_range'_1.mp hk).2
  exact DirEntry.ofBytes_congr fun x _ hx => h x (by omega)

theorem readFatEntry_lt (hfat : v.fatType = .fat32) (cluster : Nat) :
    v.readFatEntry cluster < 2 ^ 28 := by
  unfold FatVolume.readFatEntry
  rw [hfat]
  exact Nat.mod_lt _ (by decide)

/-- A chain that ends shows that the cluster numbers are those of a FAT32 volume. -/
theorem DirChain.bound (hfat : v.fatType = .fat32) (h : DirChain v cluster cs) (hne : cs ≠ []) :
    v.clusterCount + 2 < 2 ^ 28 := by
  induction h with
  | ended behind => exact absurd rfl hne
  | @link cluster rest lower upper tail ih =>
      cases tail with
      | ended behind => exact Nat.lt_of_le_of_lt behind (readFatEntry_lt hfat cluster)
      | link _ _ _ => exact ih (List.cons_ne_nil _ _)

theorem DirChain.lookup (hfat : v.fatType = .fat32) (hgeo : Geometry v)
    (hok : ∀ k, d.succeeds k = true) (h : DirChain v cluster cs)
    (hmarks : ∀ c ∈ cs.tail, c < endOfChain) (hfuel : cs.length < fuel) :
    ∃ d', lookupLoop v name fuel cluster d buf =
      some (firstMatch name (cs.flatMap (clusterEntries v d.sector)), d') := by
  induction h generalizing fuel d buf with
  | @ended cluster behind =>
      obtain ⟨fuel, rfl⟩ : ∃ n, fuel = n + 1 := ⟨fuel - 1, by simp at hfuel; omega⟩
      have hout : ¬ cluster < (v.clusterCount + 2) % 2 ^ 32 := by
        have hmod := Nat.mod_le (v.clusterCount + 2) (2 ^ 32)
        omega
      exact ⟨d, by rw [lookupLoop, if_neg hout]; rfl⟩
  | @link cluster rest lower upper tail ih =>
      obtain ⟨fuel, rfl⟩ : ∃ n, fuel = n + 1 := ⟨fuel - 1, by simp at hfuel; omega⟩
      have hbound := (DirChain.link lower upper tail).bound hfat (List.cons_ne_nil _ _)
      have hin : cluster < (v.clusterCount + 2) % 2 ^ 32 := by
        rw [Nat.mod_eq_of_lt (by omega)]
        exact upper
      obtain ⟨d₁, buf₁, hread, hsame, hbytes⟩ := readCluster_spec (v := v) hok cluster buf
      have hentries : entriesFrom buf₁ 0 (v.clusterSize / 32) = clusterEntries v d.sector cluster := by
        apply entriesFrom_congr
        intro x hx
        have hsize := hgeo.size_eq
        exact hbytes x (by omega)
      rw [lookupLoop, if_pos hin, hread, List.flatMap_cons]
      dsimp only
      rcases scanEntries_cases buf₁ name 0 (v.clusterSize / 32) with
        ⟨e, hscan, hfirst⟩ | ⟨hscan, hfirst, hend⟩ | ⟨hscan, hfirst, hopen⟩
      · rw [hscan, ← hentries, firstMatch_append_decided (Or.inl (by rw [hfirst]; simp)), hfirst]
        exact ⟨d₁, rfl⟩
      · rw [hscan, ← hentries, firstMatch_append_decided (Or.inr hend), hfirst]
        exact ⟨d₁, rfl⟩
      · rw [hscan, ← hentries, firstMatch_append_open hfirst hopen]
        dsimp only
        by_cases hlast : v.readFatEntry cluster ≥ endOfChain
        · -- An end mark: nothing of the chain is left.
          rw [if_pos hlast]
          cases tail with
          | ended _ => exact ⟨d₁, rfl⟩
          | link _ _ _ => exact absurd hlast (Nat.not_le.mpr (hmarks _ List.mem_cons_self))
        · rw [if_neg hlast, ← hsame.sector]
          refine ih ?_ (fun c hc => hmarks c (List.mem_of_mem_tail hc)) ?_
          · rw [hsame.succeeds]
            exact hok
          · rw [List.length_cons] at hfuel
            omega

end Chain

/-- On a chain whose clusters behind the first are numbered below the end-of-chain
marks, the search ends and answers with the first live entry that has the 8.3 form
of the file name, among the entries in front of the end mark. -/
theorem lookup_finds_first_match (v : FatVolume) (hfat : v.fatType = .fat32) (hgeo : Geometry v)
    (d : Disk) (hok : ∀ k, d.succeeds k = true) (cluster : Nat) (cs : List Nat)
    (hchain : DirChain v cluster cs) (hmarks : ∀ c ∈ cs.tail, c < endOfChain)
    (filename : List UInt8) (stack : Mem) (fuel : Nat) (hfuel : cs.length < fuel) :
    ∃ d', lookupFileInDir v fuel cluster filename d stack =
      some (firstMatch (fatName filename) (cs.flatMap (clusterEntries v d.sector)), d') :=
  hchain.lookup hfat hgeo hok hmarks hfuel

/-- A FAT32 volume whose FAT entry of cluster 2 has the bytes `low`, `high`, `high`,
`high`. All other entries end the chain. -/
def linkedVolume (count : Nat) (low high : UInt8) : FatVolume where
  fatType := .fat32
  sectorsPerCluster := 1
  dataStart := 100
  clusterCount := count
  clusterSize := 512
  fat i := if i = 8 then low else if 8 < i ∧ i < 12 then high else 0xFF

/-- The first cluster has deleted entries only, all others start with a file `A`. -/
def linkedDrive : Disk where
  sector lba i :=
    if lba = 100 then 0xE5 else if i = 0 then 0x41 else if i < 11 then 0x20 else 0
  succeeds _ := true
  reads := 0

theorem linkedChain : DirChain (linkedVolume 70000 3 0) 2 [2, 3] :=
  .link (by decide) (by decide) (.link (by decide) (by decide) (.ended (by decide)))

/-- A cluster number among the end-of-chain marks hides the rest of the directory. -/
theorem lookup_stops_at_mark :
    DirChain (linkedVolume 0x0FFFFFFB 0xF9 0xFF) 2 [2, 0x0FFFFFF9] ∧
      Geometry (linkedVolume 0x0FFFFFFB 0xF9 0xFF) ∧
      ¬ ∃ d', lookupFileInDir (linkedVolume 0x0FFFFFFB 0xF9 0xFF) 3 2 [0x61] linkedDrive (fun _ => 0) =
        some (firstMatch (fatName [0x61]) ([2, 0x0FFFFFF9].flatMap
          (clusterEntries (linkedVolume 0x0FFFFFFB 0xF9 0xFF) linkedDrive.sector)), d') := by
  refine ⟨.link (by decide) (by decide) (.link (by decide) (by decide) (.ended (by decide))),
    ⟨rfl, by decide⟩, ?_⟩
  rintro ⟨d', h⟩
  have hlookup : (lookupFileInDir (linkedVolume 0x0FFFFFFB 0xF9 0xFF) 3 2 [0x61] linkedDrive
      (fun _ => 0)).map (fun r => r.1.isSome) = some false := by
    decide
  have hfirst : (firstMatch (fatName [0x61]) ([2, 0x0FFFFFF9].flatMap
      (clusterEntries (linkedVolume 0x0FFFFFFB 0xF9 0xFF) linkedDrive.sector))).isSome = true := by
    decide
  rw [h, Option.map_some, hfirst] at hlookup
  cases hlookup

theorem lookup_finds_first_match_linked : ∃ e d',
    lookupFileInDir (linkedVolume 70000 3 0) 3 2 [0x61] linkedDrive (fun _ => 0) =
      some (some e, d') ∧ e.name = fatName [0x61] := by
  obtain ⟨d', h⟩ := lookup_finds_first_match (linkedVolume 70000 3 0) rfl ⟨rfl, by decide⟩ linkedDrive
    (fun _ => rfl) 2 [2, 3] linkedChain (by decide) [0x61] (fun _ => 0) 3 (by decide)
  have hfirst : (firstMatch (fatName [0x61]) ([2, 3].flatMap
      (clusterEntries (linkedVolume 70000 3 0) linkedDrive.sector))).isSome = true := by
    decide
  obtain ⟨e, he⟩ := Option.isSome_iff_exists.mp hfirst
  rw [he] at h
  exact ⟨e, d', h, (firstMatch_matches he).2⟩

end Kaviz.Fat
