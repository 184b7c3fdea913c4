import Mathlib.Data.Finset.Lattice.Fold
import Mathlib.Order.Interval.Finset.Nat
import Kaviz.Fat.Mount

/-! # The areas of a volume

Reserved sectors, FATs, root directory and clusters, one behind the other. On a
volume whose areas in front of the clusters fit its sectors, nothing that
`fat_mount` and `cluster_to_sector` compute wraps, and the clusters divide up
what is left of the volume, down to less than one cluster.
-/

namespace Kaviz.Fat

open Bytes

/-! ## Blocks of equal length -/

/-- The `k`-th block of `n` numbers from `start` on. -/
def block (start n k : Nat) : Finset Nat := Finset.Ico (start + k * n) (start + k * n + n)

section

variable {start n k m x : Nat}

theorem mem_block (hn : 0 < n) : x ∈ block start n k ↔ start ≤ x ∧ (x - start) / n = k := by
  rw [block, Finset.mem_Ico]
  constructor
  · intro ⟨hlo, hhi⟩
    refine ⟨by omega, Nat.div_eq_of_lt_le (by omega) ?_⟩
    rw [Nat.succ_mul]
    omega
  · rintro ⟨hlo, rfl⟩
    have hdiv := Nat.div_add_mod' (x - start) n
    have hmod := Nat.mod_lt (x - start) hn
    omega

theorem block_disjoint (hn : 0 < n) (h : k ≠ m) : Disjoint (block start n k) (block start n m) := by
  rw [Finset.disjoint_left]
  intro x hk hm
  exact h (((mem_block hn).mp hk).2.symm.trans ((mem_block hn).mp hm).2)

/-- The blocks leave less than one of them over. -/
theorem card_behind_blocks (hn : 0 < n) (start total : Nat) :
    (Finset.Ico start total \ (Finset.range ((total - start) / n)).biUnion (block start n)).card < n := by
  have hdiv := Nat.div_add_mod' (total - start) n
  have hmod := Nat.mod_lt (total - start) hn
  have hbehind : Finset.Ico start total \ (Finset.range ((total - start) / n)).biUnion (block start n) ⊆
      Finset.Ico (start + (total - start) / n * n) total := by
    intro x hx
    rw [Finset.mem_sdiff, Finset.mem_Ico, Finset.mem_biUnion] at hx
    rw [Finset.mem_Ico]
    refine ⟨?_, hx.1.2⟩
    by_contra hlow
    refine hx.2 ⟨(x - start) / n, Finset.mem_range.mpr ?_, (mem_block hn).mpr ⟨hx.1.1, rfl⟩⟩
    rw [Nat.div_lt_iff_lt_mul hn]
    omega
  have hcard := Finset.card_le_card hbehind
  rw [Nat.card_Ico] at hcard
  omega

end

/-! ## Areas -/

namespace BootSector

def rootDirSectors (b : BootSector) : Nat :=
  (b.rootEntries * 32 + (b.bytesPerSector - 1)) / b.bytesPerSector

def reservedArea (b : BootSector) : Finset Nat := Finset.range b.reservedSectors

def fatArea (b : BootSector) : Finset Nat :=
  Finset.Ico b.reservedSectors (b.reservedSectors + b.numFats * b.fatSize)

def rootArea (b : BootSector) : Finset Nat :=
  Finset.Ico (b.reservedSectors + b.numFats * b.fatSize)
    (b.reservedSectors + b.numFats * b.fatSize + b.rootDirSectors)

/-- The sectors in front of the clusters. -/
def metaSectors (b : BootSector) : Nat :=
  b.reservedSectors + b.numFats * b.fatSize + b.rootDirSectors

/-- They are the reserved sectors, the FATs and the root directory. -/
theorem front_eq (b : BootSector) :
    b.reservedArea ∪ b.fatArea ∪ b.rootArea = Finset.range b.metaSectors := by
  ext x
  rw [Finset.mem_union, Finset.mem_union, reservedArea, fatArea, rootArea, metaSectors, Finset.mem_range,
    Finset.mem_Ico, Finset.mem_Ico, Finset.mem_range]
  omega

theorem totalSectors_lt (b : BootSector) : b.totalSectors < 2 ^ 32 := by
  unfold totalSectors
  split
  · exact readLE_lt _ _ 4
  · exact Nat.lt_trans (readLE_lt _ _ 2) (by decide)

end BootSector

def FatVolume.clusterArea (v : FatVolume) (cluster : Nat) : Finset Nat :=
  Finset.Ico (v.clusterToSector cluster) (v.clusterToSector cluster + v.sectorsPerCluster)

def FatVolume.clusters (v : FatVolume) : Finset Nat := Finset.Ico 2 (v.clusterCount + 2)

/-- The areas of a volume do not overlap, and less than a cluster is left over. -/
structure SoundLayout (b : BootSector) (v : FatVolume) : Prop where
  no_wrap : ∀ c ∈ v.clusters, v.clusterToSector c = v.dataStart + (c - 2) * v.sectorsPerCluster
  inside : ∀ c ∈ v.clusters, v.dataStart ≤ v.clusterToSector c ∧
    v.clusterToSector c + v.sectorsPerCluster ≤ b.totalSectors
  apart : ∀ c ∈ v.clusters, ∀ c' ∈ v.clusters, c ≠ c' → Disjoint (v.clusterArea c) (v.clusterArea c')
  behind : ∀ c ∈ v.clusters, Disjoint (v.clusterArea c) b.reservedArea ∧
    Disjoint (v.clusterArea c) b.fatArea ∧ Disjoint (v.clusterArea c) b.rootArea
  spare : (Finset.range b.totalSectors \
    (b.reservedArea ∪ b.fatArea ∪ b.rootArea ∪ v.clusters.biUnion v.clusterArea)).card <
      v.sectorsPerCluster

section

variable {fs fs' : FatFilesystem} {b : BootSector}

/-- What `fat_mount` computes is what the sizes add up to. -/
theorem configure_layout (h : fs.configure b = some fs') (hfits : b.metaSectors ≤ b.totalSectors) :
    fs'.boot = b ∧ fs'.dataStart = b.metaSectors ∧
      fs'.clusterCount = (b.totalSectors - b.metaSectors) / b.sectorsPerCluster := by
  have htotal := b.totalSectors_lt
  unfold FatFilesystem.configure at h
  split at h
  · cases h
  · cases h
    have hmeta : (b.reservedSectors + b.numFats * b.fatSize + b.rootDirSectors) % 2 ^ 32 =
        b.metaSectors := Nat.mod_eq_of_lt (Nat.lt_of_le_of_lt hfits htotal)
    refine ⟨rfl, ?_, ?_⟩
    · show ((b.reservedSectors + b.numFats * b.fatSize) % 2 ^ 32 + b.rootDirSectors) % 2 ^ 32 = _
      rw [Nat.mod_add_mod, hmeta]
    · show (b.totalSectors + 2 ^ 32 -
        (b.reservedSectors + b.numFats * b.fatSize + b.rootDirSectors) % 2 ^ 32) % 2 ^ 32 /
          b.sectorsPerCluster = _
      rw [hmeta]
      congr 1
      omega

theorem configure_isSome (fs : FatFilesystem) (hbytes : b.bytesPerSector ≠ 0)
    (hsectors : b.sectorsPerCluster ≠ 0) : ∃ fs', fs.configure b = some fs' := by
  unfold FatFilesystem.configure
  rw [if_neg (not_or.mpr ⟨hbytes, hsectors⟩)]
  exact ⟨_, rfl⟩

variable {v : FatVolume}

/-- Nothing wraps at a cluster that ends inside the volume. -/
theorem clusterToSector_inside (hdata : v.dataStart = b.metaSectors) (hpos : 0 < v.sectorsPerCluster)
    (hcount : v.clusterCount = (b.totalSectors - b.metaSectors) / v.sectorsPerCluster)
    (hfits : b.metaSectors ≤ b.totalSectors) {c : Nat} (hc : c ∈ v.clusters) :
    v.clusterToSector c = b.metaSectors + (c - 2) * v.sectorsPerCluster ∧
      b.metaSectors + (c - 2) * v.sectorsPerCluster + v.sectorsPerCluster ≤ b.totalSectors := by
  obtain ⟨hlo, hhi⟩ := Finset.mem_Ico.mp hc
  have hlast : c - 2 + 1 ≤ v.clusterCount := by omega
  have hend : (c - 2 + 1) * v.sectorsPerCluster ≤ b.totalSectors - b.metaSectors := by
    rw [hcount, Nat.le_div_iff_mul_le hpos] at hlast
    exact hlast
  rw [Nat.succ_mul] at hend
  have htotal := b.totalSectors_lt
  refine ⟨?_, by omega⟩
  rw [FatVolume.clusterToSector, if_neg (by omega), hdata, Nat.mod_eq_of_lt (by omega)]

/-- The sectors of the clusters are blocks behind the other areas. -/
theorem soundLayout_of_eq (hdata : v.dataStart = b.metaSectors) (hpos : 0 < v.sectorsPerCluster)
    (hcount : v.clusterCount = (b.totalSectors - b.metaSectors) / v.sectorsPerCluster)
    (hfits : b.metaSectors ≤ b.totalSectors) : SoundLayout b v := by
  have hinside := fun c hc => clusterToSector_inside hdata hpos hcount hfits (c := c) hc
  have harea : ∀ c ∈ v.clusters, v.clusterArea c = block b.metaSectors v.sectorsPerCluster (c - 2) :=
    fun c hc => by rw [FatVolume.clusterArea, (hinside c hc).1, block]
  refine ⟨?_, ?_, ?_, ?_, ?_⟩
  · intro c hc
    rw [hdata]
    exact (hinside c hc).1
  · intro c hc
    obtain ⟨heq, hend⟩ := hinside c hc
    rw [heq, hdata]
    exact ⟨Nat.le_add_right _ _, hend⟩
  · intro c hc c' hc' hne
    have hlo := (Finset.mem_Ico.mp hc).1
    have hlo' := (Finset.mem_Ico.mp hc').1
    rw [harea c hc, harea c' hc']
    exact block_disjoint hpos (by omega)
  · intro c hc
    have hfront : Disjoint (v.clusterArea c) (Finset.range b.metaSectors) := by
      rw [harea c hc, Finset.disjoint_left]
      intro x hx hin
      have hstart := ((mem_block hpos).mp hx).1
      exact Nat.not_lt.mpr hstart (Finset.mem_range.mp hin)
    rw [← b.front_eq, Finset.disjoint_union_right, Finset.disjoint_union_right] at hfront
    exact ⟨hfront.1.1, hfront.1.2, hfront.2⟩
  · have hcard := card_behind_blocks hpos b.metaSectors b.totalSectors
    refine Nat.lt_of_le_of_lt (Finset.card_le_card ?_) hcard
    intro x hx
    rw [b.front_eq, Finset.mem_sdiff, Finset.mem_union, not_or, Finset.mem_range, Finset.mem_range] at hx
    obtain ⟨htotal, hfront, hclusters⟩ := hx
    rw [Finset.mem_sdiff, Finset.mem_Ico]
    refine ⟨⟨Nat.le_of_not_lt hfront, htotal⟩, ?_⟩
    intro hblock
    obtain ⟨k, hk, hx⟩ := Finset.mem_biUnion.mp hblock
    rw [← hcount, Finset.mem_range] at hk
    have hc : k + 2 ∈ v.clusters := Finset.mem_Ico.mpr ⟨by omega, by omega⟩
    refine hclusters (Finset.mem_biUnion.mpr ⟨k + 2, hc, ?_⟩)
    rw [harea _ hc, Nat.add_sub_cancel]
    exact hx

end

/-- On a boot sector whose reserved sectors, FATs and root directory fit the volume the
layout is sound. -/
theorem mounted_layout_sound (fs : FatFilesystem) (b : BootSector) (memory : Mem)
    (hbytes : b.bytesPerSector ≠ 0) (hsectors : b.sectorsPerCluster ≠ 0)
    (hfits : b.reservedSectors + b.numFats * b.fatSize + b.rootDirSectors ≤ b.totalSectors) :
    ∃ fs', fs.configure b = some fs' ∧ SoundLayout b (fs'.volume memory) := by
  obtain ⟨fs', hmount⟩ := configure_isSome fs hbytes hsectors
  obtain ⟨hboot, hdata, hcount⟩ := configure_layout hmount hfits
  have hper : (fs'.volume memory).sectorsPerCluster = b.sectorsPerCluster := by
    show fs'.boot.sectorsPerCluster = _
    rw [hboot]
  refine ⟨fs', hmount, soundLayout_of_eq hdata ?_ ?_ hfits⟩
  · rw [hper]
    exact Nat.pos_of_ne_zero hsectors
  · rw [hper]
    exact hcount

/-- A volume of 2880 sectors with two FATs of nine sectors and 224 root entries. -/
def floppyBoot : BootSector := ⟨fun i =>
  if i = 12 then 2 else if i = 13 then 1 else if i = 14 then 1 else if i = 16 then 2
  else if i = 17 then 224 else if i = 19 then 0x40 else if i = 20 then 0x0B
  else if i = 22 then 9 else 0⟩

theorem floppy_layout_sound : ∃ fs', (unmounted fun _ => true).2.fs.configure floppyBoot = some fs' ∧
    SoundLayout floppyBoot (fs'.volume fun _ => 0) :=
  mounted_layout_sound _ floppyBoot _ (by decide) (by decide) (by decide)

end Kaviz.Fat
