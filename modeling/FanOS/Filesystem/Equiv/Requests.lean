import FanOS.Filesystem.Equiv.Address
import FanOS.Filesystem.Equiv.Directories
import Mathlib.Logic.Relation

/-!
# The sectors that are requested

`fat_mount` computes where the table and the root directory of a volume are.  `fat_read_file` takes
the table to start at sector 1 and `fat_parse_rootdir` the root directory to have 14 sectors, so they
honour the volume if and only if its parameter block says so (`honoursVolume_iff`).

The sector that `fat_read_file` requests for the data of a file depends on the clusters that the
directory and the table name, and it is in the data area if and only if they are
(`dataRequests_iff`).
-/

namespace FanOS.Filesystem

open FloppyDisk Strings

variable {d : Drive} {mount : MountInfo} {file : File}

/-! ### The layout of the volume -/

/-- `fat_read_file` takes both bytes of the entry of the current cluster from the sector of the first
table that holds them. -/
def ConsultsTable (d : Drive) (mount : MountInfo) (file : File) : Prop :=
  let o := file.currentCluster.toNat + file.currentCluster.toNat / 2
  ∀ k < 2, ((fatReadFile d mount file).run []).2[1 + (o % 512 + k) / 512]? =
    some (mount.fatOffset + BitVec.ofNat 32 ((o + k) / 512))

/-- `fat_parse_rootdir` searches the sectors of the root directory. -/
def SearchesRoot (d : Drive) (mount : MountInfo) (file : File) (fname : Bytes) : Prop :=
  ((fatParseRootdir d mount file fname).run []).2 =
    searched d (dosFname fname) (sectorsFrom mount.rootOffset mount.rootSize.toNat)

/-- The driver honours the layout of the volume. -/
structure HonoursVolume (d : Drive) (mount : MountInfo) : Prop where
  consultsTable : ∀ file, file.currentCluster.toNat < 2 ^ 16 → ConsultsTable d mount file
  searchesRoot : ∀ file fname, SearchesRoot d mount file fname

/-- The table that `fat_read_file` consults starts at sector 1. -/
theorem consultsTable_iff (hc : file.currentCluster.toNat < 2 ^ 16) :
    ConsultsTable d mount file ↔ mount.fatOffset = 1 := by
  unfold ConsultsTable
  rw [fatReadFile_run hc, List.nil_append, fatSector, offset_div hc]
  generalize file.currentCluster.toNat + file.currentCluster.toNat / 2 = o
  constructor
  · intro h
    have h0 := h 0 (by omega)
    rw [Nat.add_zero, Nat.add_zero, show o % 512 / 512 = 0 by omega] at h0
    have hadd : 1 + BitVec.ofNat 32 (o / 512) = mount.fatOffset + BitVec.ofNat 32 (o / 512) := by
      rw [BitVec.add_comm]
      exact Option.some.inj h0
    exact ((BitVec.add_left_inj _).mp hadd).symm
  · intro hone _ k hk
    rw [hone]
    -- the second byte is in the next sector if the entry starts in the last byte of the first
    by_cases hlt : o % 512 + k < 512
    · rw [show (o % 512 + k) / 512 = 0 by omega, show (o + k) / 512 = o / 512 by omega, BitVec.add_comm]
      rfl
    · rw [show (o % 512 + k) / 512 = 1 by omega, show (o + k) / 512 = o / 512 + 1 by omega,
        BitVec.ofNat_add, BitVec.add_comm 1]
      rfl

/-- A byte that is not in a list. -/
theorem exists_byte_notMem {l : List (BitVec 8)} (h : l.length < 256) : ∃ b, b ∉ l := by
  by_contra hall
  have hsub : List.range 256 ⊆ l.map BitVec.toNat := by
    intro n hn
    refine List.mem_map.mpr ⟨BitVec.ofNat 8 n, ?_, ?_⟩
    · by_contra hmem
      exact hall ⟨_, hmem⟩
    · rw [BitVec.toNat_ofNat, Nat.mod_eq_of_lt (List.mem_range.mp hn)]
  have hle := (List.subperm_of_subset List.nodup_range hsub).length_le
  rw [List.length_range, List.length_map] at hle
  omega

/-- There is a name that few sectors have no entry of. -/
theorem exists_name_absent (d : Drive) (lba : BitVec 32) {k : ℕ} (hk : k ≤ 14) :
    ∃ fname, ∀ i < k, entryIn d (dosFname fname) (lba + BitVec.ofNat 32 i) = none := by
  -- the first bytes of the entries
  let firsts := (List.range (16 * k)).map fun n =>
    directory (d.sector (lba + BitVec.ofNat 32 (n / 16))) (n % 16) 0
  obtain ⟨b, hb⟩ : ∃ b, b ∉ firsts := exists_byte_notMem (by simp [firsts]; omega)
  refine ⟨fun _ => b, fun i hi => findEntry_eq_none_iff.mpr fun j hj hnamed => hb ?_⟩
  refine List.mem_map.mpr ⟨16 * i + j, List.mem_range.mpr (by omega), ?_⟩
  have hdiv : (16 * i + j) / 16 = i := by omega
  have hmod : (16 * i + j) % 16 = j := by omega
  rw [hdiv, hmod]
  have hfirst := hnamed 0 (by omega)
  rw [Nat.zero_add] at hfirst
  exact hfirst.symm

/-- The root directory that `fat_parse_rootdir` searches has 14 sectors. -/
theorem searchesRoot_iff :
    (∀ file fname, SearchesRoot d mount file fname) ↔ mount.rootSize.toNat = 14 := by
  simp only [SearchesRoot, fatParseRootdir_run, List.nil_append]
  constructor
  · intro h
    -- a name that is not in the sectors which both searches have
    obtain ⟨fname, habsent⟩ := exists_name_absent d mount.rootOffset
      (Nat.min_le_left 14 mount.rootSize.toNat)
    have hlength := congrArg List.length (h default fname)
    have hfirst := le_findIdx_of_absent (Nat.min_le_left 14 mount.rootSize.toNat) habsent
    have hsecond := le_findIdx_of_absent (Nat.min_le_right 14 mount.rootSize.toNat) habsent
    rw [length_searched, length_searched, length_sectorsFrom, length_sectorsFrom] at hlength
    omega
  · intro h file fname
    rw [h]

/-- **The driver honours a volume** with 512-byte sectors if and only if that has one reserved sector
and 224 entries in its root directory. -/
theorem honoursVolume_iff (hbytes : (bpbOf (d.sector 0)).bytesPerSector = 512)
    (hentries : (bpbOf (d.sector 0)).numRootEntries.toNat % 16 = 0) :
    HonoursVolume d (fatMount d) ↔
      (bpbOf (d.sector 0)).reservedSectors = 1 ∧ (bpbOf (d.sector 0)).numRootEntries = 224 := by
  have htable : (fatMount d).fatOffset = 1 ↔ (bpbOf (d.sector 0)).reservedSectors = 1 := by
    rw [fatMount, mountInfo]
    bv_omega
  have hroot : (fatMount d).rootSize.toNat = 14 ↔ (bpbOf (d.sector 0)).numRootEntries = 224 := by
    rw [fatMount, toNat_rootSize, Bpb.rootSize, hbytes, ← BitVec.toNat_inj,
      show (512 : BitVec 16).toNat = 512 from rfl, show (224 : BitVec 16).toNat = 224 from rfl]
    omega
  rw [← htable, ← hroot]
  constructor
  · intro h
    have hc : (default : File).currentCluster.toNat < 2 ^ 16 := by decide
    exact ⟨(consultsTable_iff hc).mp (h.consultsTable _ hc), searchesRoot_iff.mp h.searchesRoot⟩
  · rintro ⟨h1, h2⟩
    exact ⟨fun file hc => (consultsTable_iff hc).mpr h1, searchesRoot_iff.mpr h2⟩

/-- The repository's parameter block is such a one. -/
theorem honoursVolume_boot : HonoursVolume (disk [] []) (fatMount (disk [] [])) :=
  (honoursVolume_iff (by decide +kernel) (by decide +kernel)).mpr (by decide +kernel)

/-- On a volume with two reserved sectors the table is taken from the second of these. -/
theorem not_honoursVolume_two_reserved :
    let d := Drive.ofImage fun n => if n = 0 then Function.update bootSector 14 2 else fun _ => 0
    (bpbOf (d.sector 0)).bytesPerSector = 512 ∧ (bpbOf (d.sector 0)).sectorsPerCluster = 1 ∧
      (bpbOf (d.sector 0)).numRootEntries.toNat % 16 = 0 ∧ ¬ HonoursVolume d (fatMount d) := by
  refine ⟨by decide +kernel, by decide +kernel, by decide +kernel, fun h => ?_⟩
  exact absurd (h.consultsTable { (default : File) with currentCluster := 2 } (by decide) 0 (by decide))
    (by decide +kernel)

/-! ### The data of a file -/

/-- The file after `n` calls of `fat_read_file`. -/
def afterCalls (d : Drive) (mount : MountInfo) (file : File) (n : ℕ) : File :=
  (fun file => ((fatReadFile d mount file).run []).1.1)^[n] file

/-- The sector that a call of `fat_read_file` requests for the data of the file. -/
def dataRequest (d : Drive) (mount : MountInfo) (file : File) : Option (BitVec 32) :=
  ((fatReadFile d mount file).run []).2.head?

/-- The data area of the volume. -/
def InDataArea (mount : MountInfo) (lba : BitVec 32) : Prop :=
  mount.dataOffset.toNat ≤ lba.toNat ∧ lba.toNat < mount.numSectors.toNat

instance (mount : MountInfo) (lba : BitVec 32) : Decidable (InDataArea mount lba) :=
  inferInstanceAs (Decidable (_ ∧ _))

/-- Calls move the file on by `advance`. -/
theorem afterCalls_eq (hc : file.currentCluster.toNat < 2 ^ 16) (n : ℕ) :
    afterCalls d mount file n = (advance d)^[n] file := by
  induction n generalizing file with
  | zero => rfl
  | succ n ih =>
    rw [Function.iterate_succ_apply, ← ih (advance_cluster_lt hc), afterCalls,
      Function.iterate_succ_apply, fatReadFile_run hc]
    rfl

theorem iterate_advance_cluster_lt (hc : file.currentCluster.toNat < 2 ^ 16) (n : ℕ) :
    ((advance d)^[n] file).currentCluster.toNat < 2 ^ 16 := by
  induction n with
  | zero => exact hc
  | succ n ih =>
    rw [Function.iterate_succ_apply']
    exact advance_cluster_lt ih

/-- The clusters that the calls come to are those which the table links to the first one. -/
theorem exists_iterate_advance_iff {x : ℕ} :
    (∃ n, ((advance d)^[n] file).currentCluster.toNat = x) ↔
      Relation.ReflTransGen (Links (tableByte d)) file.currentCluster.toNat x := by
  constructor
  · rintro ⟨n, rfl⟩
    induction n with
    | zero => exact .refl
    | succ n ih =>
      rw [Function.iterate_succ_apply', toNat_advance_cluster]
      split_ifs with h
      · exact ih
      · exact ih.tail ⟨rfl, h⟩
  · intro h
    induction h with
    | refl => exact ⟨0, rfl⟩
    | @tail y z _ hlink ih =>
      obtain ⟨n, rfl⟩ := ih
      obtain ⟨rfl, hgo⟩ := hlink
      exact ⟨n + 1, by rw [Function.iterate_succ_apply', toNat_advance_cluster, if_neg hgo]⟩

/-- The sector of a cluster is in the data area if the volume has the cluster. -/
theorem inDataArea_dataSector_iff (hc : file.currentCluster.toNat < 2 ^ 16) :
    InDataArea (mountInfo bootBpb) (dataSector (mountInfo bootBpb) file) ↔
      2 ≤ file.currentCluster.toNat ∧ file.currentCluster.toNat ≤ 2848 := by
  have hdata : (mountInfo bootBpb).dataOffset = 33 := by decide
  have hnum : (mountInfo bootBpb).numSectors = 2880 := by decide
  rw [InDataArea, dataSector, hdata, hnum, fdChsToLba_eq]
  bv_omega

/-- **Requests for data** stay in the data area of the repository's volume if and only if every
cluster that the table links to the first one of the file is a cluster of the volume. -/
theorem dataRequests_iff (hbpb : bpbOf (d.sector 0) = bootBpb) {fname : Bytes} {file₀ : File}
    (hopen : ((fatParseRootdir d (fatMount d) file₀ fname).run []).1 = some file)
    (hfound : file.flags ≠ fsInvaild) :
    (∀ n, ∀ lba ∈ dataRequest d (fatMount d) (afterCalls d (fatMount d) file n),
        InDataArea (fatMount d) lba) ↔
      ∀ e ∈ rootEntry d (fatMount d) fname, ∀ x,
        Relation.ReflTransGen (Links (firstTable d (fatMount d))) (firstCluster e).toNat x →
          2 ≤ x ∧ x ≤ 2848 := by
  rw [fatParseRootdir_run] at hopen
  obtain ⟨e, he, hfirst⟩ := currentCluster_of_subdirResult hopen hfound
  have htoNat : file.currentCluster.toNat = (firstCluster e).toNat := by
    rw [hfirst, BitVec.toNat_setWidth_of_le (by omega)]
  have hc : file.currentCluster.toNat < 2 ^ 16 := htoNat ▸ (firstCluster e).isLt
  have hoffset : (fatMount d).fatOffset = 1 := by
    rw [fatMount, hbpb]
    rfl
  have hmount : fatMount d = mountInfo bootBpb := by rw [fatMount, hbpb]
  -- each call asks for the sector of the cluster that the walk has come to
  have hrequest : ∀ n, dataRequest d (fatMount d) (afterCalls d (fatMount d) file n) =
      some (dataSector (fatMount d) ((advance d)^[n] file)) := by
    intro n
    rw [afterCalls_eq hc, dataRequest, fatReadFile_run (iterate_advance_cluster_lt hc n)]
    rfl
  rw [he, firstTable_eq_tableByte hoffset]
  simp only [hrequest, Option.mem_some_iff, forall_eq', ← htoNat, ← exists_iterate_advance_iff]
  rw [hmount]
  simp only [inDataArea_dataSector_iff (iterate_advance_cluster_lt hc _)]
  exact ⟨fun h x ⟨n, hn⟩ => hn ▸ h n, fun h n => h _ ⟨n, rfl⟩⟩

/-! ### Files of a sample disk -/

theorem bpbOf_disk (fat root : List (BitVec 8)) : bpbOf ((disk fat root).sector 0) = bootBpb := by
  rw [disk, Drive.ofImage_sector _ (by decide)]
  exact (by decide : bpbOf bootSector = bootBpb)

theorem disk_sector_root (fat root : List (BitVec 8)) :
    (disk fat root).sector (fatMount (disk fat root)).rootOffset = (root.getD · 0) := by
  have hroot : (fatMount (disk fat root)).rootOffset = 19 := by
    rw [fatMount, bpbOf_disk]
    decide
  rw [hroot, disk, Drive.ofImage_sector _ (by decide)]
  rfl

theorem rootEntry_of_first {fname : Bytes}
    (h : Named (dosFname fname) (directory (d.sector mount.rootOffset) 0)) :
    rootEntry d mount fname = some (directory (d.sector mount.rootOffset) 0) := by
  have hentry : entryIn d (dosFname fname) mount.rootOffset =
      some (directory (d.sector mount.rootOffset) 0) := by
    rw [entryIn, findEntry, if_pos (strncmp_eq_zero_iff_named.mpr h)]
  rw [rootEntry, sectorsFrom_succ, List.findSome?_cons, hentry]

/-- The entry is the first of the root directory. -/
theorem rootEntry_fileTxt (fat : List (BitVec 8)) (cluster size : BitVec 8) :
    let d := disk fat (entryBytes fileTxt 0x20 cluster size)
    rootEntry d (fatMount d) (fileTxt.getD · 0) =
      some (directory ((entryBytes fileTxt 0x20 cluster size).getD · 0) 0) := by
  intro d
  have hsector := disk_sector_root fat (entryBytes fileTxt 0x20 cluster size)
  have hnamed : Named (dosFname (fileTxt.getD · 0)) (directory (d.sector (fatMount d).rootOffset) 0) := by
    rw [hsector]
    intro i hi
    rw [dosFname, if_pos hi, directory, Nat.mul_zero, Nat.zero_add, entryBytes,
      List.getD_append _ _ _ _ hi]
  rw [rootEntry_of_first hnamed, hsector]

/-- `fat_parse_rootdir` finds it. -/
theorem exists_fileTxt (fat : List (BitVec 8)) (cluster size : BitVec 8) (file₀ : File) :
    let d := disk fat (entryBytes fileTxt 0x20 cluster size)
    ∃ file, ((fatParseRootdir d (fatMount d) file₀ (fileTxt.getD · 0)).run []).1 = some file ∧
      file.flags ≠ fsInvaild ∧ file.currentCluster = (0#8 ++ cluster).setWidth 32 := by
  intro d
  rw [fatParseRootdir_run, rootEntry_fileTxt, subdirResult, fileOf_eq isLength_fileTxt]
  exact ⟨_, rfl, (by decide : fsFile ≠ fsInvaild), rfl⟩

/-- Of a file of the clusters 2 and 3, only sectors of the data area are requested. -/
theorem dataRequests_two_clusters :
    let d := disk [0xF0, 0xFF, 0xFF, 0x03, 0xF0, 0xFF] (entryBytes fileTxt 0x20 2 0xFF)
    ∃ file, ((fatParseRootdir d (fatMount d) default (fileTxt.getD · 0)).run []).1 = some file ∧
      ∀ n, ∀ lba ∈ dataRequest d (fatMount d) (afterCalls d (fatMount d) file n),
        InDataArea (fatMount d) lba := by
  intro d
  obtain ⟨file, hopen, hfound, -⟩ := exists_fileTxt [0xF0, 0xFF, 0xFF, 0x03, 0xF0, 0xFF] 2 0xFF default
  refine ⟨file, hopen, (dataRequests_iff (bpbOf_disk _ _) hopen hfound).mpr fun e he x hx => ?_⟩
  have htable : Fat12.entry (firstTable d (fatMount d)) 2 = 3 ∧
      Fat12.entry (firstTable d (fatMount d)) 3 = 0xFFF := by
    decide +kernel
  obtain rfl := Option.some.inj ((rootEntry_fileTxt _ 2 0xFF).symm.trans he)
  -- the chain goes from cluster 2 to cluster 3 and ends there
  have hchain : x = 2 ∨ x = 3 := by
    induction hx with
    | refl => exact Or.inl (by decide)
    | tail _ hlink ih =>
      obtain ⟨hentry, hgo⟩ := hlink
      rcases ih with rfl | rfl
      · exact Or.inr (hentry.symm.trans htable.1)
      · rw [htable.2] at hentry
        exact absurd (Or.inl (by omega)) hgo
  omega

/-- An empty file has no clusters: its entry names cluster 0, for which a sector of the root directory
is requested. -/
theorem not_inDataArea_empty_file :
    let d := disk [0xF0, 0xFF, 0xFF] (entryBytes fileTxt 0x20 0 0)
    bpbOf (d.sector 0) = bootBpb ∧
    ∃ file, ((fatParseRootdir d (fatMount d) default (fileTxt.getD · 0)).run []).1 = some file ∧
      file.flags ≠ fsInvaild ∧
      dataRequest d (fatMount d) (afterCalls d (fatMount d) file 0) = some 31 ∧
      ¬ InDataArea (fatMount d) 31 := by
  intro d
  obtain ⟨file, hopen, hfound, hcluster⟩ := exists_fileTxt [0xF0, 0xFF, 0xFF] 0 0 default
  have hmount : fatMount d = mountInfo bootBpb := congrArg mountInfo (bpbOf_disk _ _)
  refine ⟨bpbOf_disk _ _, file, hopen, hfound, ?_, ?_⟩
  · have hc : file.currentCluster.toNat < 2 ^ 16 := by
      rw [hcluster]
      decide
    have hlba : dataSector (fatMount d) file = 31 := by
      rw [dataSector, hcluster, hmount]
      decide
    rw [dataRequest, afterCalls, Function.iterate_zero_apply, fatReadFile_run hc, hlba]
    rfl
  · rw [hmount]
    decide

end FanOS.Filesystem
