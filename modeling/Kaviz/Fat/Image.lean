import Kaviz.Fat.Accesses

/-! # From the image of a volume to its files

The sectors of a FAT32 volume determine its files without any of the code: the
entries of the first FAT link the clusters of a chain, and the bytes of these
clusters are the directory or the file. A drive that delivers the image can be
mounted, and then every call of `fat_open` and every sequence of `fat_read`
answers with what the image holds.
-/

namespace Kaviz.Fat

open Bytes Ledger

abbrev Image := Nat → Mem

namespace Image

variable (image : Image)

def boot : BootSector := bootSectorOf (image 0)

def clusterCount : Nat :=
  (image.boot.totalSectors - image.boot.metaSectors) / image.boot.sectorsPerCluster

def clusterSize : Nat := image.boot.sectorsPerCluster * 512

def fatByte (k : Nat) : UInt8 := image (image.boot.reservedSectors + k / 512) (k % 512)

def fatEntry (cluster : Nat) : Nat := readLE image.fatByte (4 * cluster) 4 % 2 ^ 28

def byte (cluster i : Nat) : UInt8 :=
  image (image.boot.metaSectors + (cluster - 2) * image.boot.sectorsPerCluster + i / 512) (i % 512)

def HasCluster (cluster : Nat) : Prop := 2 ≤ cluster ∧ cluster < image.clusterCount + 2

instance (cluster : Nat) : Decidable (image.HasCluster cluster) := inferInstanceAs (Decidable (_ ∧ _))

/-- The clusters from one on, up to the one whose entry is an end mark. -/
inductive Chain : Nat → List Nat → Prop
  | last {cluster : Nat} (inside : image.HasCluster cluster)
      (ends : endOfChain ≤ image.fatEntry cluster) : Chain cluster [cluster]
  | next {cluster : Nat} {rest : List Nat} (inside : image.HasCluster cluster)
      (tail : Chain (image.fatEntry cluster) rest) : Chain cluster (cluster :: rest)

def bytes (cs : List Nat) : List UInt8 :=
  cs.flatMap fun c => (List.range image.clusterSize).map (image.byte c)

def directory (cs : List Nat) : List DirEntry :=
  cs.flatMap fun c => entriesFrom (image.byte c) 0 (image.clusterSize / 32)

/-- The clusters hold the file of an entry; an empty file needs none. -/
structure Holds (e : DirEntry) (cs : List Nat) : Prop where
  chain : cs = [] ∨ image.Chain e.firstCluster cs
  covers : e.fileSize ≤ cs.length * image.clusterSize

def content (e : DirEntry) (cs : List Nat) : List UInt8 := (image.bytes cs).take e.fileSize

/-- A FAT32 volume that the driver can work with: sectors of 512 bytes, clusters that fit its
buffers, areas that fit the volume, and a FAT with an entry for every cluster. -/
structure Fat32 : Prop where
  sector : image.boot.bytesPerSector = 512
  nonempty : 0 < image.boot.sectorsPerCluster
  buffered : image.boot.sectorsPerCluster ≤ 8
  fats : 0 < image.boot.numFats
  areas : image.boot.metaSectors ≤ image.boot.totalSectors
  large : 65525 ≤ image.clusterCount
  numbered : image.clusterCount + 2 ≤ endOfChain
  entries : 4 * (image.clusterCount + 2) ≤ image.boot.fatSize * 512
  cached : image.boot.fatSize * 512 < 2 ^ 32

end Image

/-! ## Chains of an image -/

section

variable {image : Image} {cluster : Nat} {cs : List Nat}

theorem Image.Chain.hasCluster (h : image.Chain cluster cs) : image.HasCluster cluster := by
  cases h with
  | last inside _ => exact inside
  | next inside _ => exact inside

theorem Image.Chain.head (h : image.Chain cluster cs) : cs.head? = some cluster := by
  cases h with
  | last _ _ => simp
  | next _ _ => simp

theorem Image.Chain.mem (h : image.Chain cluster cs) : ∀ c ∈ cs, image.HasCluster c := by
  induction h with
  | last inside _ => simp [inside]
  | next inside _ ih => simp [inside]; exact ih

theorem Image.Chain.follows (h : image.Chain cluster cs) (none : Nat) {i : Nat} (hi : i + 1 < cs.length) :
    image.fatEntry (cs.getD i none) = cs.getD (i + 1) none := by
  induction h generalizing i with
  | last _ _ => simp at hi
  | @next cluster rest inside tail ih =>
      cases i with
      | zero =>
          have hhead := tail.head
          cases rest with
          | nil => simp at hi
          | cons c rest =>
              simp at hhead
              simp [hhead]
      | succ i =>
          simp only [List.length_cons, Nat.add_lt_add_iff_right] at hi
          simpa using ih hi

theorem Image.Holds.hasCluster {e : DirEntry} (h : image.Holds e cs) {i : Nat} (hi : i < cs.length) :
    image.HasCluster (cs.getD i e.firstCluster) := by
  rcases h.chain with rfl | hchain
  · simp at hi
  · have hget : cs.getD i e.firstCluster = cs[i] := by simp [hi]
    rw [hget]
    exact hchain.mem _ (List.getElem_mem hi)

theorem Image.bytes_length (image : Image) (cs : List Nat) :
    (image.bytes cs).length = cs.length * image.clusterSize := by
  induction cs with
  | nil => simp [Image.bytes]
  | cons c cs ih =>
      rw [Image.bytes] at ih
      simp [Image.bytes, ih, Nat.succ_mul, Nat.add_comm]

theorem Image.bytes_get (image : Image) (none : Nat) {i : Nat} (hi : i < cs.length * image.clusterSize) :
    (image.bytes cs)[i]? =
      some (image.byte (cs.getD (i / image.clusterSize) none) (i % image.clusterSize)) := by
  induction cs generalizing i with
  | nil => simp at hi
  | cons c cs ih =>
      have hsplit : image.bytes (c :: cs) =
          (List.range image.clusterSize).map (image.byte c) ++ image.bytes cs := rfl
      have hfirst : ((List.range image.clusterSize).map (image.byte c)).length = image.clusterSize := by
        simp
      rw [hsplit]
      by_cases hlow : i < image.clusterSize
      · rw [List.getElem?_append_left (by omega), Nat.div_eq_of_lt hlow, Nat.mod_eq_of_lt hlow]
        simp [hlow]
      · obtain ⟨k, rfl⟩ : ∃ k, i = k + image.clusterSize := ⟨i - image.clusterSize, by omega⟩
        have hpos : 0 < image.clusterSize := by
          by_contra hzero
          simp [Nat.eq_zero_of_not_pos hzero] at hi
        rw [List.length_cons, Nat.succ_mul] at hi
        rw [List.getElem?_append_right (by omega), hfirst, Nat.add_sub_cancel, ih (by omega),
          Nat.add_div_right _ hpos, Nat.add_mod_right]
        simp

end

/-! ## The image in memory -/

/-- Memory with `n` sectors of an image, from `start` on, at an address. -/
def withImage (image : Image) (start address n : Nat) (memory : Mem) : Mem := fun x =>
  if address ≤ x ∧ x < address + n * 512 then
    image (start + (x - address) / 512) ((x - address) % 512)
  else memory x

section

variable {image : Image} {start address n : Nat} {memory : Mem}

theorem withImage_zero : withImage image start address 0 memory = memory := by
  funext x
  rw [withImage, if_neg (by omega)]

theorem withImage_succ :
    withImage image (start + 1) (address + 512) n (copyBytes memory address (image start) 0 512) =
      withImage image start address (n + 1) memory := by
  funext x
  unfold withImage copyBytes
  by_cases hlater : address + 512 ≤ x ∧ x < address + 512 + n * 512
  · have hdiv : start + 1 + (x - (address + 512)) / 512 = start + (x - address) / 512 := by omega
    have hmod : (x - (address + 512)) % 512 = (x - address) % 512 := by omega
    rw [if_pos hlater, if_pos (by omega), hdiv, hmod]
  · rw [if_neg hlater]
    by_cases hhere : address ≤ x ∧ x < address + 512
    · have hdiv : start + (x - address) / 512 = start := by omega
      have hmod : (x - address) % 512 = 0 + (x - address) := by omega
      rw [if_pos hhere, if_pos (by omega), hdiv, hmod]
    · rw [if_neg hhere, if_neg (by omega)]

set_option maxRecDepth 20000 in
/-- When the loop of `fat_mount` gets through, the FAT is there. -/
theorem readFat_image {fs : FatFilesystem} (hsector : fs.boot.bytesPerSector = 512) {i : Nat}
    {d d' : Disk} {memory' : Mem} (hcache : (i + n) * 512 < 2 ^ 32)
    (hfat : fs.fatStart + (i + n) < 2 ^ 32) (h : readFat fs i n d memory = (true, d', memory')) :
    memory' = withImage d.sector (fs.fatStart + i) (fs.fat + i * 512) n memory ∧ SameDisk d d' := by
  induction n generalizing i d memory with
  | zero =>
      cases h
      exact ⟨withImage_zero.symm, ⟨rfl, rfl⟩⟩
  | succ n ih =>
      have hstart : (fs.fatStart + i) % 2 ^ 32 = fs.fatStart + i := Nat.mod_eq_of_lt (by omega)
      have hoff : i * 512 % 2 ^ 32 = i * 512 := Nat.mod_eq_of_lt (by omega)
      have hnext : fs.fat + (i + 1) * 512 = fs.fat + i * 512 + 512 := by omega
      rw [readFat, ataReadSector, hsector, hstart, hoff] at h
      cases hread : d.succeeds d.reads with
      | false => simp [hread] at h
      | true =>
          rw [hread] at h
          obtain ⟨hmemory, hsame⟩ := ih (by omega) (by omega) h
          refine ⟨?_, ⟨hsame.sector, hsame.succeeds⟩⟩
          rw [hmemory, ← withImage_succ, hnext, Nat.add_assoc fs.fatStart]

end

/-! ## Mounting an image -/

structure Mounted (image : Image) (s s' : MountState) : Prop where
  boot : s'.fs.boot = image.boot
  fatType : s'.fs.fatType = .fat32
  dataStart : s'.fs.dataStart = image.boot.metaSectors
  clusterCount : s'.fs.clusterCount = image.clusterCount
  clusterSize : s'.fs.clusterSize = image.clusterSize
  rootCluster : s'.fs.rootCluster = image.boot.rootCluster
  memory : s'.memory =
    withImage image image.boot.reservedSectors s'.fs.fat image.boot.fatSize s.memory
  disk : SameDisk s.disk s'.disk

section

variable {kmalloc : Allocator} {image : Image} {s s' : MountState} {fs fs' : FatFilesystem}
  {b : BootSector}

/-- The root directory of a FAT32 volume starts at the cluster its boot sector names. -/
theorem configure_root (h : fs.configure b = some fs') (hlarge : 65525 ≤ fs'.clusterCount) :
    fs'.rootCluster = b.rootCluster ∧ fs'.fatStart = b.reservedSectors := by
  unfold FatFilesystem.configure at h
  split at h
  · cases h
  · cases h
    exact ⟨if_neg (Nat.not_lt.mpr hlarge), rfl⟩

theorem Image.Fat32.configure (h : image.Fat32) (fs : FatFilesystem) :
    ∃ fs', fs.configure image.boot = some fs' ∧ fs'.boot = image.boot ∧ fs'.fatType = .fat32 ∧
      fs'.fatStart = image.boot.reservedSectors ∧ fs'.dataStart = image.boot.metaSectors ∧
      fs'.clusterCount = image.clusterCount ∧ fs'.clusterSize = image.clusterSize ∧
      fs'.rootCluster = image.boot.rootCluster := by
  have hbytes : image.boot.bytesPerSector ≠ 0 := by simp [h.sector]
  obtain ⟨fs', hfs⟩ := configure_isSome fs hbytes (Nat.ne_of_gt h.nonempty)
  obtain ⟨hboot, hdata, hcount⟩ := configure_layout hfs h.areas
  have hlarge : 65525 ≤ fs'.clusterCount := by
    rw [hcount]
    exact h.large
  have hsize := (configure_cluster hfs).1
  have htype := configure_fatType hfs
  obtain ⟨hroot, hstart⟩ := configure_root hfs hlarge
  refine ⟨fs', hfs, hboot, ?_, hstart, hdata, hcount, ?_, hroot⟩
  · rw [htype, if_neg (by omega), if_neg (by omega)]
  · rw [hsize, h.sector]
    rfl

/-- The FAT ends in front of the last sector a 32-bit number can name. -/
theorem Image.Fat32.fat_end (h : image.Fat32) :
    image.boot.reservedSectors + image.boot.fatSize < 2 ^ 32 := by
  have hfats := Nat.le_mul_of_pos_left image.boot.fatSize h.fats
  have hareas := h.areas
  have htotal := image.boot.totalSectors_lt
  rw [BootSector.metaSectors] at hareas
  omega

theorem fatMount_read (h : fatMount kmalloc s = some (1, s')) :
    ∃ fs d, s.fs.configure s.bootSector = some fs ∧ SameDisk s.disk d ∧
      s'.fs = { fs with fat := kmalloc s.heap fs.boot.cacheSize } ∧
      readFat s'.fs 0 s'.fs.boot.fatSize d s.memory = (true, s'.disk, s'.memory) := by
  rw [fatMount, ataReadSector] at h
  cases hboot : s.disk.succeeds s.disk.reads with
  | false => simp [hboot] at h
  | true =>
      rw [hboot] at h
      obtain ⟨fs, hfs, h⟩ := Option.bind_eq_some_iff.mp h
      refine ⟨fs, { s.disk with reads := s.disk.reads + 1 }, hfs, ⟨rfl, rfl⟩, ?_⟩
      dsimp only at h
      split at h
      · cases h
      · split at h
        · rename_i hread
          cases h
          exact ⟨rfl, hread⟩
        · cases h

set_option maxRecDepth 20000 in
/-- Whatever else the drive does, the volume of a mount that returns 1 is that of the image. -/
theorem Image.Fat32.mounted (h : image.Fat32) (hsector : s.disk.sector = image)
    (hmount : fatMount kmalloc s = some (1, s')) : Mounted image s s' := by
  obtain ⟨fs, d, hfs, hdisk, heq, hread⟩ := fatMount_read hmount
  obtain ⟨fs', hfs', hboot, htype, hstart, hdata, hcount, hsize, hroot⟩ := h.configure s.fs
  have hsame : s.bootSector = image.boot := MountState.bootSector_of (by rw [hsector])
  rw [hsame, hfs'] at hfs
  cases hfs
  have hend := h.fat_end
  have hcached := h.cached
  have hboot' : s'.fs.boot = image.boot := by rw [heq, ← hboot]
  have hstart' : s'.fs.fatStart = image.boot.reservedSectors := by rw [heq, ← hstart]
  rw [hboot'] at hread
  obtain ⟨hmemory, hlast⟩ := readFat_image (by rw [hboot', h.sector]) (by omega)
    (by rw [hstart']; omega) hread
  rw [hstart', Nat.add_zero, Nat.zero_mul, Nat.add_zero, hdisk.sector, hsector] at hmemory
  refine ⟨hboot', ?_, ?_, ?_, ?_, ?_, hmemory, ⟨?_, ?_⟩⟩
  · rw [heq, ← htype]
  · rw [heq, ← hdata]
  · rw [heq, ← hcount]
  · rw [heq, ← hsize]
  · rw [heq, ← hroot]
  · rw [hlast.sector, hdisk.sector]
  · rw [hlast.succeeds, hdisk.succeeds]

/-- With a buffer and a drive that does not fail the mount returns 1. -/
theorem Image.Fat32.mount (h : image.Fat32) (hsector : s.disk.sector = image)
    (hok : ∀ k, s.disk.succeeds k = true) (hbuffer : ∀ size, kmalloc s.heap size ≠ 0) :
    ∃ s', fatMount kmalloc s = some (1, s') := by
  obtain ⟨fs, hfs, -⟩ := h.configure s.fs
  have hsame : s.bootSector = image.boot := MountState.bootSector_of (by rw [hsector])
  rw [← hsame] at hfs
  exact fatMount_returns hok hfs hbuffer

end

/-! ## The mounted volume -/

/-- A volume in memory answers for the clusters of an image. -/
structure Serves (v : FatVolume) (image : Image) : Prop where
  fatType : v.fatType = .fat32
  clusterCount : v.clusterCount = image.clusterCount
  clusterSize : v.clusterSize = image.clusterSize
  geometry : Geometry v
  entry : ∀ c, image.HasCluster c → v.readFatEntry c = image.fatEntry c
  byte : ∀ c i, image.HasCluster c → i < image.clusterSize → clusterByte v image c i = image.byte c i

section

variable {image : Image} {s s' : MountState}

theorem Mounted.fat (h : Mounted image s s') {k : Nat} (hk : k < image.boot.fatSize * 512) :
    (s'.fs.volume s'.memory).fat k = image.fatByte k := by
  show s'.memory (s'.fs.fat + k) = _
  rw [h.memory, withImage, if_pos (by omega), Nat.add_sub_cancel_left]
  rfl

theorem Mounted.serves (h : Mounted image s s') (hfat : image.Fat32) :
    Serves (s'.fs.volume s'.memory) image := by
  have hper : (s'.fs.volume s'.memory).sectorsPerCluster = image.boot.sectorsPerCluster := by
    show s'.fs.boot.sectorsPerCluster = _
    rw [h.boot]
  have hbuffered := hfat.buffered
  have hnonempty := hfat.nonempty
  have hentries := hfat.entries
  refine ⟨h.fatType, h.clusterCount, h.clusterSize, ⟨?_, ?_⟩, ?_, ?_⟩
  · rw [hper]
    exact h.clusterSize
  · show s'.fs.clusterSize ≤ 4096
    rw [h.clusterSize, Image.clusterSize]
    omega
  · intro c hc
    have hhi := hc.2
    have hword : readLE (s'.fs.volume s'.memory).fat (4 * c) 4 = readLE image.fatByte (4 * c) 4 :=
      readLE_congr fun x _ hx => h.fat (by omega)
    have htype : (s'.fs.volume s'.memory).fatType = .fat32 := h.fatType
    simp only [FatVolume.readFatEntry, htype, hword, Image.fatEntry]
  · intro c i hc hi
    have hin : c ∈ (s'.fs.volume s'.memory).clusters := by
      have hcount : (s'.fs.volume s'.memory).clusterCount = image.clusterCount := h.clusterCount
      rw [FatVolume.clusters, Finset.mem_Ico, hcount]
      exact hc
    obtain ⟨hstart, hlast⟩ := clusterToSector_inside (v := s'.fs.volume s'.memory) h.dataStart
      (by rw [hper]; exact hnonempty) (by rw [hper]; exact h.clusterCount) hfat.areas hin
    have htotal := image.boot.totalSectors_lt
    rw [hper] at hstart hlast
    rw [Image.clusterSize] at hi
    rw [clusterByte, hstart, Nat.mod_eq_of_lt (by omega)]
    rfl

end

section

variable {v : FatVolume} {image : Image} {cluster : Nat} {cs : List Nat} {e : DirEntry}

theorem Serves.dirChain (h : Serves v image) (hnumbered : image.clusterCount + 2 ≤ endOfChain)
    (hchain : image.Chain cluster cs) : DirChain v cluster cs := by
  induction hchain with
  | last inside ends =>
      refine .link inside.1 (by rw [h.clusterCount]; exact inside.2) (.ended ?_)
      rw [h.clusterCount, h.entry _ inside]
      exact Nat.le_trans hnumbered ends
  | next inside tail ih =>
      rw [← h.entry _ inside] at ih
      exact .link inside.1 (by rw [h.clusterCount]; exact inside.2) ih

theorem Serves.directory (h : Serves v image) (hcs : ∀ c ∈ cs, image.HasCluster c) :
    cs.flatMap (clusterEntries v image) = image.directory cs := by
  apply List.flatMap_congr
  intro c hc
  rw [clusterEntries, h.clusterSize]
  apply entriesFrom_congr
  intro x hx
  exact h.byte c x (hcs c hc) (by omega)

/-- The clusters of a file, as `fat_read` goes through them. -/
def Serves.clusterChain (h : Serves v image) (hnumbered : image.clusterCount + 2 ≤ endOfChain)
    (hholds : image.Holds e cs) : ClusterChain v e.firstCluster e.fileSize where
  length := cs.length
  cluster i := cs.getD i e.firstCluster
  starts := by
    rcases hholds.chain with rfl | hchain
    · rfl
    · have hhead := hchain.head
      cases cs with
      | nil => rfl
      | cons c cs => simpa using hhead
  valid i hi := (hholds.hasCluster hi).1
  follows i hi := by
    rw [h.entry _ (hholds.hasCluster (Nat.lt_of_succ_lt hi))]
    rcases hholds.chain with rfl | hchain
    · simp at hi
    · exact ⟨hchain.follows _ hi, Nat.lt_of_lt_of_le (hholds.hasCluster hi).2 hnumbered⟩
  covers := by
    rw [h.clusterSize]
    exact hholds.covers

/-- What it delivers is what the image holds. -/
theorem Serves.content (h : Serves v image) (hnumbered : image.clusterCount + 2 ≤ endOfChain)
    (hholds : image.Holds e cs) :
    (h.clusterChain hnumbered hholds).content image = image.content e cs := by
  have hcovers := hholds.covers
  apply List.ext_getElem?
  intro i
  by_cases hi : i < e.fileSize
  · have hin : i < cs.length * image.clusterSize := by omega
    have hpos : 0 < image.clusterSize := Nat.pos_of_lt_mul_left hin
    have hindex : i / image.clusterSize < cs.length := Nat.div_lt_of_lt_mul (by rw [Nat.mul_comm]; exact hin)
    have hcluster := hholds.hasCluster hindex
    rw [Image.content, List.getElem?_take_of_lt hi, Image.bytes_get image e.firstCluster hin,
      ← h.byte _ _ hcluster (Nat.mod_lt _ hpos)]
    simp [ClusterChain.content, ClusterChain.byte, Serves.clusterChain, h.clusterSize, hi]
  · rw [Image.content, List.getElem?_eq_none, List.getElem?_eq_none]
    · simp [Image.bytes_length]
      omega
    · simpa [ClusterChain.content] using hi

end

/-! ## Opening and reading -/

section

variable {v : FatVolume} {image : Image} {cluster fuel : Nat} {cs : List Nat} {d d' : Disk}
  {name : List UInt8} {buf : Mem}

theorem readCluster_sameDisk {ok : Bool} {buf' : Mem}
    (h : v.readCluster d cluster buf = (ok, d', buf')) : SameDisk d d' := by
  rw [FatVolume.readCluster] at h
  rcases readSectors_cases d (v.clusterToSector cluster) 0 v.sectorsPerCluster buf with
    ⟨-, hrun⟩ | ⟨k, -, -, hrun⟩
  · rw [hrun] at h
    cases h
    exact ⟨rfl, rfl⟩
  · rw [hrun] at h
    cases h
    exact ⟨rfl, rfl⟩

theorem lookupLoop_sameDisk {r : Option DirEntry}
    (h : lookupLoop v name fuel cluster d buf = some (r, d')) : SameDisk d d' := by
  induction fuel generalizing cluster d buf with
  | zero => cases h
  | succ fuel ih =>
      rw [lookupLoop] at h
      by_cases hin : cluster < (v.clusterCount + 2) % 2 ^ 32
      · rw [if_pos hin] at h
        rcases hread : v.readCluster d cluster buf with ⟨ok, d₁, buf₁⟩
        have hfirst := readCluster_sameDisk hread
        rw [hread] at h
        cases ok with
        | false =>
            cases h
            exact hfirst
        | true =>
            dsimp only at h
            split at h
            · cases h
              exact hfirst
            · cases h
              exact hfirst
            · split at h
              · cases h
                exact hfirst
              · have hrest := ih h
                exact ⟨hrest.sector.trans hfirst.sector, hrest.succeeds.trans hfirst.succeeds⟩
      · rw [if_neg hin] at h
        cases h
        exact ⟨rfl, rfl⟩

theorem Serves.lookup (h : Serves v image) (hnumbered : image.clusterCount + 2 ≤ endOfChain)
    (hchain : image.Chain cluster cs) (hsector : d.sector = image) (hok : ∀ k, d.succeeds k = true)
    (hfuel : cs.length < fuel) :
    ∃ d', lookupLoop v name fuel cluster d buf = some (firstMatch name (image.directory cs), d') ∧
      SameDisk d d' := by
  have hmarks : ∀ c ∈ cs.tail, c < endOfChain := fun c hc =>
    Nat.lt_of_lt_of_le (hchain.mem c (List.mem_of_mem_tail hc)).2 hnumbered
  obtain ⟨d', hlookup⟩ := @DirChain.lookup _ _ _ _ buf name _ h.fatType h.geometry hok
    (h.dirChain hnumbered hchain) hmarks hfuel
  rw [hsector, h.directory hchain.mem] at hlookup
  exact ⟨d', hlookup, lookupLoop_sameDisk hlookup⟩

theorem Serves.readAll (h : Serves v image) (hnumbered : image.clusterCount + 2 ≤ endOfChain)
    {e : DirEntry} (hholds : image.Holds e cs) (hsector : d.sector = image)
    (hok : ∀ k, d.succeeds k = true) {file : FatFile}
    (hfile : file = ⟨0, e.fileSize, e.firstCluster, e.firstCluster⟩) (rs : List Request) :
    ∃ outs, readAll v d file rs = some outs ∧
      outs.flatMap ReadState.delivered = (image.content e cs).take (rs.map Request.count).sum ∧
      List.Forall₂ Reported rs outs := by
  subst hfile
  have hstep := @InStep.opened _ ⟨0, e.fileSize, e.firstCluster, e.firstCluster⟩
    (h.clusterChain hnumbered hholds) rfl rfl
  obtain ⟨outs, hrun, hbytes, -, hreported⟩ := readAll_spec h.geometry hok hstep rs
  rw [hsector, h.content hnumbered hholds, List.drop_zero] at hbytes
  exact ⟨outs, hrun, hbytes, hreported⟩

end

/-- From the drive to the bytes of a file: an image of a FAT32 volume is mounted, every path is
looked up in its root directory, and successive reads of any sizes deliver what the image holds.
Of memory only the buffer of the cache has changed. -/
theorem image_files_delivered (image : Image) (hfat : image.Fat32) (dir : List Nat)
    (hroot : image.Chain image.boot.rootCluster dir) (kmalloc : Allocator) (s : MountState)
    (hsector : s.disk.sector = image) (hok : ∀ k, s.disk.succeeds k = true)
    (hbuffer : ∀ size, kmalloc s.heap size ≠ 0) :
    ∃ s', fatMount kmalloc s = some (1, s') ∧
      (∀ x, x < s'.fs.fat ∨ s'.fs.fat + s'.fs.boot.cacheSize ≤ x → s'.memory x = s.memory x) ∧
      ∀ (handle : FileHandle) (path : List UInt8) (flags fuel : Nat) (stack : Mem),
        handle.position = 0 → path.length < vfsMaxPath → dir.length < fuel →
        match firstMatch (fatName path) (image.directory dir) with
        | none => ∃ d', fatOpen (s'.fs.volume s'.memory) s'.fs.rootCluster fuel handle path flags s'.disk
            stack = some (0, d', handle)
        | some e => ∃ d', fatOpen (s'.fs.volume s'.memory) s'.fs.rootCluster fuel handle path flags s'.disk
            stack = some (1, d', handle.setUp path flags e) ∧
          ∀ cs, image.Holds e cs → ∀ rs, ∃ outs,
            readAll (s'.fs.volume s'.memory) d' (handle.setUp path flags e).toFatFile rs = some outs ∧
            outs.flatMap ReadState.delivered = (image.content e cs).take (rs.map Request.count).sum ∧
            List.Forall₂ Reported rs outs := by
  obtain ⟨s', hmount⟩ := hfat.mount hsector hok hbuffer
  have hmounted := hfat.mounted hsector hmount
  have hserves := hmounted.serves hfat
  have hsector' : s'.disk.sector = image := hmounted.disk.sector.trans hsector
  have hok' : ∀ k, s'.disk.succeeds k = true := by
    rw [hmounted.disk.succeeds]
    exact hok
  refine ⟨s', hmount, ?_, ?_⟩
  · intro x hx
    have hcached := hfat.cached
    rw [hmounted.boot, BootSector.cacheSize, hfat.sector, Nat.mod_eq_of_lt hcached] at hx
    rw [hmounted.memory, withImage, if_neg (by omega)]
  · intro handle path flags fuel stack hposition hpath hfuel
    rw [← hmounted.rootCluster] at hroot
    obtain ⟨d', hlookup, hsame⟩ := @Serves.lookup _ _ _ _ _ _ (fatName path) stack hserves
      hfat.numbered hroot hsector' hok' hfuel
    have htype : (s'.fs.volume s'.memory).fatType = .fat32 := hserves.fatType
    cases hfirst : firstMatch (fatName path) (image.directory dir) with
    | none =>
        rw [hfirst] at hlookup
        exact ⟨d', by simp [fatOpen, htype, lookupFileInDir, hlookup]⟩
    | some e =>
        rw [hfirst] at hlookup
        refine ⟨d', by simp [fatOpen, htype, lookupFileInDir, hlookup, hpath], ?_⟩
        intro cs hholds rs
        refine hserves.readAll hfat.numbered hholds (hsame.sector.trans hsector') ?_ ?_ rs
        · rw [hsame.succeeds]
          exact hok'
        · simp [FileHandle.setUp, hposition]

/-- A volume of 65525 clusters of one sector. Its root directory is on cluster 2 and has a file
`A` of 600 bytes on clusters 3 and 4. -/
def smallImage : Image := fun sector i =>
  if sector = 0 then
    if i = 12 then 2 else if i = 13 then 1 else if i = 14 then 1 else if i = 16 then 1
    else if i = 32 then 0xF6 else if i = 33 then 1 else if i = 34 then 1 else if i = 37 then 2
    else if i = 44 then 2 else 0
  else if sector = 1 then
    if i = 12 then 4 else if 12 < i ∧ i < 16 then 0 else 0xFF
  else if sector = 513 then
    if i = 0 then 0x41 else if i < 11 then 0x20 else if i = 26 then 3 else if i = 28 then 0x58
    else if i = 29 then 2 else 0
  else UInt8.ofNat (sector + i)

theorem smallImage_fat32 : smallImage.Fat32 where
  sector := by decide
  nonempty := by decide
  buffered := by decide
  fats := by decide
  areas := by decide
  large := by decide
  numbered := by decide
  entries := by decide
  cached := by decide

set_option maxRecDepth 20000 in
theorem image_files_delivered_small : ∃ s' d' handle outs e,
    fatMount bumpAllocator ⟨(unmounted fun _ => true).2.fs, ⟨smallImage, fun _ => true, 0⟩,
      fun _ => 0, []⟩ = some (1, s') ∧
    fatOpen (s'.fs.volume s'.memory) s'.fs.rootCluster 2 (handleAt 0) [0x61] 1 s'.disk (fun _ => 0) =
      some (1, d', handle) ∧
    readAll (s'.fs.volume s'.memory) d' handle.toFatFile
      [⟨100, fun _ => 0, fun _ => 0⟩, ⟨700, fun _ => 0, fun _ => 0⟩] = some outs ∧
    e.fileSize = 600 ∧ outs.flatMap ReadState.delivered = smallImage.content e [3, 4] := by
  have hroot : smallImage.Chain smallImage.boot.rootCluster [2] := .last (by decide) (by decide)
  obtain ⟨s', hmount, -, hopen⟩ := image_files_delivered smallImage smallImage_fat32 [2] hroot
    bumpAllocator ⟨(unmounted fun _ => true).2.fs, ⟨smallImage, fun _ => true, 0⟩, fun _ => 0, []⟩ rfl
    (fun _ => rfl) (bumpAllocator_ne _)
  have hentry : (firstMatch (fatName [0x61]) (smallImage.directory [2])).map
      (fun e => (e.firstCluster, e.fileSize)) = some (3, 600) := by decide
  obtain ⟨e, hfirst, hfields⟩ := Option.map_eq_some_iff.mp hentry
  obtain ⟨hcluster, hsize⟩ := Prod.mk.inj hfields
  have hanswer := hopen (handleAt 0) [0x61] 1 2 (fun _ => 0) rfl (by decide) (by decide)
  rw [hfirst] at hanswer
  obtain ⟨d', hhandle, hread⟩ := hanswer
  have hholds : smallImage.Holds e [3, 4] := by
    refine ⟨.inr ?_, ?_⟩
    · rw [hcluster]
      exact .next (by decide) (.last (by decide) (by decide))
    · rw [hsize]
      decide
  obtain ⟨outs, hrun, hbytes, -⟩ := hread [3, 4] hholds
    [⟨100, fun _ => 0, fun _ => 0⟩, ⟨700, fun _ => 0, fun _ => 0⟩]
  refine ⟨s', d', _, outs, e, hmount, hhandle, hrun, hsize, ?_⟩
  rw [hbytes, List.take_of_length_le]
  rw [Image.content, List.length_take, hsize]
  exact Nat.le_trans (Nat.min_le_left _ _) (by decide)

end Kaviz.Fat
