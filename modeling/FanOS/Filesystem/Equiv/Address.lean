import FanOS.Boot.Basic
import FanOS.Filesystem.Basic

/-!
# Sector addresses in the loader and in the kernel

The loader computes the address of a cluster in 16-bit registers, from the parameter block that is
assembled into it; the kernel computes it in 32-bit arithmetic, from the parameter block of the boot
sector.  As long as the first data sector and the sector asked for are 16-bit numbers both are the
same number (`toNat_clusterLba_eq`, `toNat_fdChsToLba_add`) and are taken apart into the same head,
track and sector (`boot_kernel_address_eq`).
-/

namespace FanOS.Filesystem

open FloppyDisk

/-- The same parameter block, as the loader has it. -/
def Bpb.boot (b : Bpb) : Boot.Bpb where
  bytesPerSector := b.bytesPerSector
  sectorsPerCluster := b.sectorsPerCluster
  reservedSectors := b.reservedSectors
  numberOfFATs := b.numberOfFats
  rootEntries := b.numRootEntries
  sectorsPerFAT := b.sectorsPerFat
  sectorsPerTrack := b.sectorsPerTrack
  headsPerCylinder := b.headsPerCyl

/-- The size of the root directory in sectors. -/
def Bpb.rootSize (b : Bpb) : ℕ := b.numRootEntries.toNat * 32 / b.bytesPerSector.toNat

/-- The first sector of the root directory. -/
def Bpb.rootSector (b : Bpb) : ℕ :=
  b.numberOfFats.toNat * b.sectorsPerFat.toNat + b.reservedSectors.toNat

/-- The first data sector. -/
def Bpb.dataSector (b : Bpb) : ℕ := b.rootSector + b.rootSize

variable {b : Bpb}

/-! ### The layout of the volume -/

theorem Bpb.rootSector_lt (b : Bpb) : b.rootSector < 2 ^ 24 := by
  have h1 := b.numberOfFats.isLt
  have h2 := b.sectorsPerFat.isLt
  have h3 := b.reservedSectors.isLt
  have : b.numberOfFats.toNat * b.sectorsPerFat.toNat ≤ 255 * 65535 :=
    Nat.mul_le_mul (by omega) (by omega)
  unfold rootSector
  omega

theorem Bpb.rootSize_lt (b : Bpb) : b.rootSize < 2 ^ 21 := by
  have h := b.numRootEntries.isLt
  exact Nat.lt_of_le_of_lt (Nat.div_le_self _ _) (by omega)

/-- The kernel's `root_offset` is not cut. -/
theorem toNat_rootOffset (b : Bpb) : (mountInfo b).rootOffset.toNat = b.rootSector := by
  have h := b.rootSector_lt
  unfold Bpb.rootSector at h ⊢
  simp (disch := omega) only [mountInfo, BitVec.toNat_add, BitVec.toNat_mul,
    BitVec.toNat_setWidth_of_le]
  omega

/-- Nor is its `root_size`. -/
theorem toNat_rootSize (b : Bpb) : (mountInfo b).rootSize.toNat = b.rootSize := by
  have h := b.numRootEntries.isLt
  simp (disch := omega) only [mountInfo, BitVec.toNat_udiv, BitVec.toNat_mul,
    BitVec.toNat_setWidth_of_le]
  rw [show (32 : BitVec 32).toNat = 32 from rfl, Nat.mod_eq_of_lt (by omega), Bpb.rootSize]

theorem toNat_dataOffset (b : Bpb) : (mountInfo b).dataOffset.toNat = b.dataSector := by
  have h1 := b.rootSector_lt
  have h2 := b.rootSize_lt
  rw [show (mountInfo b).dataOffset = (mountInfo b).rootOffset + (mountInfo b).rootSize from rfl,
    BitVec.toNat_add, toNat_rootOffset, toNat_rootSize, Bpb.dataSector]
  omega

/-- The loader's `datasector` is the same number, if that has 16 bits. -/
theorem toNat_datasector (hroot : b.rootSize < 2 ^ 16) (hdata : b.dataSector < 2 ^ 16) :
    (Boot.datasector b.boot).toNat = b.dataSector := by
  have hentries := b.numRootEntries.isLt
  have hsize : (Boot.rootSectors b.boot).toNat = b.rootSize := by
    rw [Boot.rootSectors, BitVec.toNat_setWidth, BitVec.toNat_udiv, BitVec.toNat_mul]
    simp (disch := omega) only [Bpb.boot, BitVec.toNat_setWidth_of_le]
    rw [show (0x20 : BitVec 32).toNat = 32 from rfl, Nat.mul_comm 32,
      Nat.mod_eq_of_lt (show b.numRootEntries.toNat * 32 < 2 ^ 32 by omega)]
    exact Nat.mod_eq_of_lt hroot
  have hbase : (Boot.rootBase b.boot).toNat = b.rootSector := by
    unfold Bpb.dataSector Bpb.rootSector at hdata
    simp (disch := omega) only [Boot.rootBase, Boot.fatSectors, Bpb.boot, BitVec.toNat_add,
      BitVec.toNat_mul, BitVec.toNat_setWidth_of_le]
    unfold Bpb.rootSector
    omega
  rw [Boot.datasector, BitVec.toNat_add, hsize, hbase]
  exact Nat.mod_eq_of_lt hdata

/-! ### The sector of a cluster -/

/-- In the loader. -/
theorem toNat_clusterLba_eq (hspc : b.sectorsPerCluster = 1) (hroot : b.rootSize < 2 ^ 16)
    (hdata : b.dataSector < 2 ^ 16) {c : BitVec 16} (hc : 2 ≤ c.toNat)
    (hlt : c.toNat - 2 + b.dataSector < 2 ^ 16) :
    (Boot.clusterLba b.boot (Boot.datasector b.boot) c).toNat = c.toNat - 2 + b.dataSector := by
  have hds := toNat_datasector hroot hdata
  have hone : b.boot.sectorsPerCluster.setWidth 16 = 1#16 := by
    rw [show b.boot.sectorsPerCluster = 1 from hspc]
    rfl
  rw [Boot.clusterLba, hone, BitVec.mul_one]
  bv_omega

/-- In the kernel, whatever the cluster number is. -/
theorem toNat_fdChsToLba_add (b : Bpb) {c : BitVec 16} (hc : 2 ≤ c.toNat) :
    (fdChsToLba c + (mountInfo b).dataOffset).toNat = c.toNat - 2 + b.dataSector := by
  have hds := toNat_dataOffset b
  have h1 := b.rootSector_lt
  have h2 := b.rootSize_lt
  unfold Bpb.dataSector at hds ⊢
  rw [fdChsToLba_eq]
  bv_omega

/-! ### Head, track and sector -/

/-- The numbers that `LBACHS` computes for a disk with 18 sectors to a track and two heads. -/
theorem toNat_lbachs {b : Boot.Bpb} (ht : b.sectorsPerTrack = 18) (hh : b.headsPerCylinder = 2)
    (ax : BitVec 16) :
    (Boot.lbachs b ax).head.toNat = ax.toNat / 18 % 2 ∧
    (Boot.lbachs b ax).track.toNat = ax.toNat / 18 / 2 % 256 ∧
    (Boot.lbachs b ax).sector.toNat = ax.toNat % 18 + 1 := by
  unfold Boot.lbachs
  simp only [ht, hh, BitVec.toNat_setWidth, BitVec.toNat_udiv, BitVec.toNat_umod, BitVec.toNat_add,
    show (18 : BitVec 16).toNat = 18 from rfl, show (2 : BitVec 16).toNat = 2 from rfl,
    show (1 : BitVec 8).toNat = 1 from rfl, true_and]
  omega

/-- **The loader and the kernel read the same sector** for every cluster, whatever the parameter
block of a disk with two heads, 18 sectors to a track and one sector to a cluster is; and the kernel's
address of a sector is that of no other. -/
theorem boot_kernel_address_eq :
    (∀ (b : Bpb) (c : BitVec 16), b.bytesPerSector ≠ 0 → b.sectorsPerTrack = 18 →
      b.headsPerCyl = 2 → b.sectorsPerCluster = 1 → b.rootSize < 2 ^ 16 → b.dataSector < 2 ^ 16 →
      2 ≤ c.toNat → c.toNat - 2 + b.dataSector < 65536 →
      let boot := Boot.lbachs b.boot (Boot.clusterLba b.boot (Boot.datasector b.boot) c)
      let kernel := (fdLbaToChs (fdChsToLba c + (mountInfo b).dataOffset)).bytes
      boot.track = kernel.track ∧ boot.head = kernel.head ∧ boot.sector = kernel.sector) ∧
    ∀ lba : BitVec 32, 0 ≤ lba.toInt →
      let a := fdLbaToChs lba
      (a.track.toInt * 2 + a.head.toInt) * 18 + a.sector.toInt - 1 = lba.toInt ∧
        0 ≤ a.head.toInt ∧ a.head.toInt < 2 ∧ 1 ≤ a.sector.toInt ∧ a.sector.toInt ≤ 18 := by
  constructor
  · intro b c _ ht hh hs hroot hdata hc hlt boot kernel
    -- both address the same linear sector, one in 16 bits and one in 32
    have hboot := toNat_clusterLba_eq hs hroot hdata hc hlt
    have hkernel := toNat_fdChsToLba_add b hc
    obtain ⟨h1, h2, h3⟩ := toNat_fdLbaToChs (fdChsToLba c + (mountInfo b).dataOffset)
    rw [hkernel, ← hboot] at h1 h2 h3
    obtain ⟨g1, g2, g3⟩ := toNat_lbachs (b := b.boot) ht hh
      (Boot.clusterLba b.boot (Boot.datasector b.boot) c)
    refine ⟨BitVec.eq_of_toNat_eq ?_, BitVec.eq_of_toNat_eq ?_, BitVec.eq_of_toNat_eq ?_⟩
    · rw [g2, (Chs.toNat_bytes _).2.1, h2]
      omega
    · rw [g1, (Chs.toNat_bytes _).1, h1]
      omega
    · rw [g3, (Chs.toNat_bytes _).2.2, h3]
      omega
  · intro lba hpos
    obtain ⟨h1, h2, h3⟩ := toNat_fdLbaToChs lba
    have hlba := lba.isLt
    have hint : ∀ x : BitVec 32, 2 * x.toNat < 2 ^ 32 → x.toInt = x.toNat := fun x hx =>
      BitVec.toInt_eq_toNat_of_lt hx
    -- all numbers are below `2 ^ 31`, so their signs do not matter
    have hlt : 2 * lba.toNat < 2 ^ 32 := BitVec.toInt_pos_iff.mp hpos
    simp only
    rw [hint lba hlt, hint _ (by omega), hint (fdLbaToChs lba).head (by omega),
      hint (fdLbaToChs lba).sector (by omega)]
    omega

/-- Cluster 700 of the repository's disk, and its last sector. -/
theorem boot_kernel_address_eq_cluster_700 :
    (Boot.lbachs bootBpb.boot (Boot.clusterLba bootBpb.boot (Boot.datasector bootBpb.boot) 700)).track
      = 20 ∧
    (fdLbaToChs (fdChsToLba 700 + (mountInfo bootBpb).dataOffset)).bytes.track = 20 ∧
    ((fdLbaToChs 2879).track.toInt * 2 + (fdLbaToChs 2879).head.toInt) * 18 +
      (fdLbaToChs 2879).sector.toInt - 1 = 2879 := by
  have h := (boot_kernel_address_eq.1 bootBpb 700 (by decide) rfl rfl rfl (by decide) (by decide)
    (by decide) (by decide)).1
  have hkernel : (fdLbaToChs (fdChsToLba 700 + (mountInfo bootBpb).dataOffset)).bytes.track = 20 := by
    decide
  exact ⟨h.trans hkernel, hkernel, (boot_kernel_address_eq.2 2879 (by decide)).1⟩

end FanOS.Filesystem
