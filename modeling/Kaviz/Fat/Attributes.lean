import Kaviz.Fat.Directory

/-! # What `fat_open` opens

Volume labels, the fragments of long names and subdirectories are directory
entries too and may have the 8.3 name of a file. The search looks at names only,
so `fat_open` takes the first of them for a file.
-/

namespace Kaviz.Fat

open Bytes

/-- Neither `FAT_ATTR_VOLUME_ID`, which long names have as well, nor `FAT_ATTR_DIRECTORY`. -/
def DirEntry.IsFile (e : DirEntry) : Prop := e.attr.testBit 3 = false ∧ e.attr.testBit 4 = false

instance (e : DirEntry) : Decidable e.IsFile := inferInstanceAs (Decidable (_ ∧ _))

/-- The first live entry of a file with an 8.3 name, in front of the end mark. -/
def firstFile (name : List UInt8) (es : List DirEntry) : Option DirEntry :=
  (visible es).find? fun e => decide (e.Matches name ∧ e.IsFile)

def rootEntries (v : FatVolume) (rootCluster fuel : Nat) (d : Disk) (stack : Mem) : List DirEntry :=
  dirEntries v fuel (if v.fatType = .fat32 then rootCluster else 0) d stack

section

variable {v : FatVolume} {rootCluster fuel flags : Nat} {path name : List UInt8} {d d' : Disk}
  {stack : Mem} {h h' : FileHandle} {es : List DirEntry} {e : DirEntry}

theorem firstMatch_eq_some : firstMatch name es = some e ↔
    e.Matches name ∧ ∃ before after, visible es = before ++ e :: after ∧
      ∀ b ∈ before, ¬ b.Matches name := by
  rw [firstMatch, List.find?_eq_some_iff_append]
  simp

theorem firstFile_eq_some : firstFile name es = some e ↔
    (e.Matches name ∧ e.IsFile) ∧ ∃ before after, visible es = before ++ e :: after ∧
      ∀ b ∈ before, ¬ (b.Matches name ∧ b.IsFile) := by
  rw [firstFile, List.find?_eq_some_iff_append]
  simp only [Bool.not_eq_true', decide_eq_true_eq, decide_eq_false_iff_not, exists_and_right]

/-- A successful `fat_open` uses the first live entry with the name. -/
theorem fatOpen_entry (hopen : fatOpen v rootCluster fuel h path flags d stack = some (1, d', h')) :
    ∃ e, lookupFileInDir v fuel (if v.fatType = .fat32 then rootCluster else 0) path d stack =
        some (some e, d') ∧ h' = h.setUp path flags e ∧
      firstMatch (fatName path) (rootEntries v rootCluster fuel d stack) = some e := by
  obtain ⟨e, hlookup, hhandle, -⟩ := fatOpen_success hopen
  exact ⟨e, hlookup, hhandle, (lookupLoop_eq hlookup).symm⟩

end

/-- `fat_open` put the data of an entry into the handle. -/
structure OpenedAs (v : FatVolume) (rootCluster fuel : Nat) (h h' : FileHandle) (path : List UInt8)
    (flags : Nat) (d d' : Disk) (stack : Mem) (e : DirEntry) : Prop where
  found : lookupFileInDir v fuel (if v.fatType = .fat32 then rootCluster else 0) path d stack =
    some (some e, d')
  handle_eq : h' = h.setUp path flags e

/-- The entry a successful `fat_open` uses is that of a file, and the first of a file with
the name, exactly when no other entry with the name stands in front of a file that has it. -/
theorem open_file_iff (v : FatVolume) (rootCluster fuel : Nat) (h h' : FileHandle)
    (path : List UInt8) (flags : Nat) (d d' : Disk) (stack : Mem)
    (hopen : fatOpen v rootCluster fuel h path flags d stack = some (1, d', h')) :
    (∃ e, OpenedAs v rootCluster fuel h h' path flags d d' stack e ∧ e.IsFile ∧
        firstFile (fatName path) (rootEntries v rootCluster fuel d stack) = some e) ↔
      ∃ before file after,
        visible (rootEntries v rootCluster fuel d stack) = before ++ file :: after ∧
        file.Matches (fatName path) ∧ file.IsFile ∧ ∀ b ∈ before, ¬ b.Matches (fatName path) := by
  obtain ⟨e, hlookup, hhandle, hfirst⟩ := fatOpen_entry hopen
  constructor
  · rintro ⟨u, hused, hfile, -⟩
    have hsame : u = e := by
      have hfound := hused.found
      rw [hlookup] at hfound
      cases hfound
      rfl
    obtain ⟨hmatch, before, after, hsplit, hnone⟩ := firstMatch_eq_some.mp hfirst
    rw [hsame] at hfile
    exact ⟨before, e, after, hsplit, hmatch, hfile, hnone⟩
  · rintro ⟨before, file, after, hsplit, hmatch, hfile, hnone⟩
    have hsome := firstMatch_eq_some.mpr ⟨hmatch, before, after, hsplit, hnone⟩
    rw [hfirst] at hsome
    cases hsome
    refine ⟨e, ⟨hlookup, hhandle⟩, hfile, firstFile_eq_some.mpr ⟨⟨hmatch, hfile⟩, before, after, hsplit, ?_⟩⟩
    intro b hb hboth
    exact hnone b hb hboth.1

/-- The directory of `rootDrive`, with other attributes for its entry. -/
def markedDrive (attr : UInt8) : Disk where
  sector lba i := if lba = 1 ∧ i = 11 then attr else rootDrive.sector lba i
  succeeds _ := true
  reads := 0

/-- A directory is opened as if it were a file. -/
theorem open_takes_directory : ∃ d' h',
    fatOpen rootVolume 2 1 (handleAt 0) [0x61] 1 (markedDrive 0x10) (fun _ => 0) = some (1, d', h') ∧
      ¬ ∃ e, OpenedAs rootVolume 2 1 (handleAt 0) h' [0x61] 1 (markedDrive 0x10) d' (fun _ => 0) e ∧
        e.IsFile ∧
        firstFile (fatName [0x61]) (rootEntries rootVolume 2 1 (markedDrive 0x10) fun _ => 0) = some e := by
  refine ⟨_, _, rfl, ?_⟩
  rintro ⟨e, hused, hfile, -⟩
  have hattr : e.attr = 0x10 := (congrArg FileHandle.attributes hused.handle_eq).symm
  rw [DirEntry.IsFile, hattr] at hfile
  exact absurd hfile (by decide)

theorem open_file_plain : ∃ d' h' e,
    OpenedAs rootVolume 2 1 (handleAt 0) h' [0x61] 1 (markedDrive 0x20) d' (fun _ => 0) e ∧ e.IsFile := by
  obtain ⟨d', h', hopen⟩ : ∃ d' h', fatOpen rootVolume 2 1 (handleAt 0) [0x61] 1 (markedDrive 0x20)
      (fun _ => 0) = some (1, d', h') := ⟨_, _, rfl⟩
  obtain ⟨e, -, hhandle, hfirst⟩ := fatOpen_entry hopen
  have hattr : ∀ u, firstMatch (fatName [0x61])
      (rootEntries rootVolume 2 1 (markedDrive 0x20) fun _ => 0) = some u → u.IsFile := by
    intro u hu
    have hfiles : ((firstMatch (fatName [0x61])
        (rootEntries rootVolume 2 1 (markedDrive 0x20) fun _ => 0)).all fun e => decide e.IsFile) =
        true := by
      decide
    rw [hu] at hfiles
    exact of_decide_eq_true hfiles
  obtain ⟨hmatch, before, after, hsplit, hnone⟩ := firstMatch_eq_some.mp hfirst
  obtain ⟨u, hused, hfile, -⟩ := (open_file_iff _ _ _ _ _ _ _ _ _ _ hopen).mpr
    ⟨before, e, after, hsplit, hmatch, hattr e hfirst, hnone⟩
  exact ⟨d', h', u, hused, hfile⟩

end Kaviz.Fat
