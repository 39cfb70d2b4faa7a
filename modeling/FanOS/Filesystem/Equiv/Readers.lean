import FanOS.Filesystem.Equiv.Entries

/-!
# The two readers

A file may be read by calling `fat_read_file` until `end` is set, or by `fat_load_FAT` and
`fat_load_image`.  Both follow the chain of the file: `returns_readBody` and `returns_loadImageBody`
say what the loops return, by induction on the chain, and `readers_agree` compares them.
-/

namespace FanOS.Filesystem

open FloppyDisk Strings

variable {d : Drive} {mount : MountInfo} {file : File}

/-! ### The table -/

/-- Sectors that are copied to a buffer are in it one after the other. -/
theorem loadSectors_apply (hd : d.Reads) (offset : BitVec 32) (k i : ℕ) (buffer : Bytes) (o : ℕ) :
    loadSectors d offset k i buffer o =
      if i * 512 ≤ o ∧ o < (i + k) * 512 then d.sector (offset + BitVec.ofNat 32 (o / 512)) (o % 512)
      else buffer o := by
  induction k generalizing i buffer with
  | zero => rw [loadSectors, if_neg (by omega)]
  | succ k ih =>
    rw [loadSectors, ih, hd.fdReadSector_eq]
    simp only
    rw [memcpy_apply, sectorSize]
    by_cases hi : i * 512 ≤ o ∧ o < i * 512 + 512
    · have hdiv : o / 512 = i := by omega
      rw [if_neg (by omega), if_pos hi, if_pos (by omega), hdiv, show o - i * 512 = o % 512 by omega]
    · rw [if_neg hi]
      exact if_congr (by omega) rfl rfl

theorem loadFATLoop_eq_loadSectors (k i : ℕ) (buffer : Bytes) :
    loadFATLoop d mount k i buffer = loadSectors d mount.fatOffset k i buffer := by
  induction k generalizing i buffer with
  | zero => rfl
  | succ k ih => rw [loadFATLoop, loadSectors, ih]

/-- **`fat_load_FAT`** fills the buffer with the table. -/
theorem fatLoadFAT_apply (hd : d.Reads) (buffer : Bytes) {o : ℕ} (ho : o < 512 * mount.fatSize.toNat) :
    fatLoadFAT d mount buffer o = firstTable d mount o := by
  rw [fatLoadFAT, loadFATLoop_eq_loadSectors, loadSectors_apply hd, if_pos (by omega), firstTable]

/-! ### Following a chain -/

/-- The data of cluster `x`. -/
def clusterSector (d : Drive) (mount : MountInfo) (x : ℕ) : Sector :=
  d.sector (fdChsToLba (BitVec.ofNat 16 x) + mount.dataOffset)

theorem sector_dataSector {c : ℕ} (hc : file.currentCluster.toNat = c) :
    d.sector (dataSector mount file) = clusterSector d mount c := by
  rw [clusterSector, dataSector, ← hc, BitVec.ofNat_toNat]

/-- The file is at the first cluster of the chain `c`, `cs`. -/
structure Ahead (d : Drive) (file : File) (c : ℕ) (cs : List ℕ) : Prop where
  chain : Fat12.Chain (tableByte d) (c :: cs)
  range : ∀ x ∈ c :: cs, 2 ≤ x ∧ x ≤ 0xFEF
  cluster : file.currentCluster.toNat = c
  atEnd : file.atEnd = 0

namespace Ahead

variable {c x : ℕ} {cs : List ℕ}

theorem cluster_lt (h : Ahead d file c cs) : file.currentCluster.toNat < 2 ^ 16 := by
  have hle := (h.range c List.mem_cons_self).2
  rw [h.cluster]
  omega

theorem atEnd_ne_one (h : Ahead d file c cs) : file.atEnd ≠ 1 := by
  rw [h.atEnd]
  decide

/-- At the last cluster, a call sets `end`. -/
theorem advance_last (h : Ahead d file c []) : advance d file = { file with atEnd := 1 } := by
  apply advance_of_stops
  rw [h.cluster]
  exact Or.inl h.chain

theorem advance_next (h : Ahead d file c (x :: cs)) :
    advance d file = { file with currentCluster := .ofNat 32 x } := by
  obtain ⟨hx, -⟩ := h.chain
  have hxrange := h.range x (List.mem_cons_of_mem _ List.mem_cons_self)
  have hgo : ¬ Stops (Fat12.entry (tableByte d) file.currentCluster.toNat) := by
    rw [h.cluster, hx, Stops]
    omega
  rw [advance_of_not_stops hgo, h.cluster, hx]

/-- At another one, the file goes on to the rest of the chain. -/
theorem next (h : Ahead d file c (x :: cs)) : Ahead d (advance d file) x cs where
  chain := h.chain.2
  range y hy := h.range y (List.mem_cons_of_mem _ hy)
  cluster := by
    have hxrange := h.range x (List.mem_cons_of_mem _ List.mem_cons_self)
    rw [h.advance_next, BitVec.toNat_ofNat]
    omega
  atEnd := by rw [h.advance_next, h.atEnd]

end Ahead

variable (mount) in
/-- The loop around `fat_read_file` reads the clusters of a chain. -/
theorem returns_readBody {c : ℕ} {cs : List ℕ} (h : Ahead d file c cs) (out : List Sector)
    (log : List (BitVec 32)) :
    ∃ log', Loop.Returns (readBody d mount) (file, out, log)
      (out ++ (c :: cs).map (clusterSector d mount), log') := by
  induction cs generalizing file c out log with
  | nil =>
    have hround := readBody_eq d mount h.cluster_lt h.atEnd_ne_one out log
    rw [sector_dataSector h.cluster, h.advance_last] at hround
    exact ⟨_, .round hround (.exit (readBody_of_atEnd rfl _ _))⟩
  | cons x cs ih =>
    have hround := readBody_eq d mount h.cluster_lt h.atEnd_ne_one out log
    rw [sector_dataSector h.cluster] at hround
    -- the rest of the chain is read from the file at its second cluster
    obtain ⟨log', hret⟩ := ih h.next (out ++ [clusterSector d mount c]) _
    refine ⟨log', .round hround ?_⟩
    rw [List.append_assoc] at hret
    exact hret

/-- Where a sector of the image goes. -/
theorem toNat_mul_512 {n : BitVec 32} (hn : n.toNat < 2 ^ 20) : (n * 512).toNat = n.toNat * 512 := by
  rw [BitVec.toNat_mul, show (512 : BitVec 32).toNat = 512 from rfl]
  omega

variable (mount) in
/-- A round of the loop of `fat_load_image`. -/
theorem loadImageBody_eq (fat : Bytes) (hd : d.Reads) {c : BitVec 16} (hc : c.toNat ≤ 0xFEF)
    (n : BitVec 32) (buffer : Bytes) :
    loadImageBody d mount fat ⟨c, n, buffer⟩ = .inl ⟨fatEntry fat c, n + 1,
      memcpy buffer (n * 512).toNat (clusterSector d mount c.toNat) 512⟩ := by
  have hlt : c < 0x0FF0 := Nat.lt_of_le_of_lt hc (by decide)
  rw [loadImageBody, if_pos hlt, clusterSector, BitVec.ofNat_toNat, BitVec.setWidth_eq]
  simp only [hd.fdReadSector_eq, sectorSize, sectorsPerCluster]

/-- The image of the clusters `cs`, behind `n` clusters that are in the buffer already. -/
def Loaded (cluster : ℕ → Bytes) (size n : ℕ) (cs : List ℕ) (buffer image : Bytes) : Prop :=
  ∀ i, image i = if n * size ≤ i ∧ i < (n + cs.length) * size
    then Fat12.content cluster size cs (i - n * size) else buffer i

/-- One cluster goes before the others. -/
theorem Loaded.cons {cluster : ℕ → Bytes} {size n c : ℕ} (hsize : 0 < size) {cs : List ℕ}
    {buffer image : Bytes}
    (h : Loaded cluster size (n + 1) cs (memcpy buffer (n * size) (cluster c) size) image) :
    Loaded cluster size n (c :: cs) buffer image := by
  intro i
  have hle : (n + 1) * size ≤ (n + 1 + cs.length) * size := Nat.mul_le_mul_right size (by omega)
  rw [h i, Fat12.content_cons _ hsize, memcpy_apply, List.length_cons, Nat.add_comm cs.length,
    ← Nat.add_assoc]
  rw [Nat.succ_mul] at hle ⊢
  generalize (n + 1 + cs.length) * size = e at hle ⊢
  generalize n * size = a at hle ⊢
  rcases Nat.lt_or_ge i (a + size) with hlt | hge
  · rw [if_neg (show ¬ (a + size ≤ i ∧ i < e) by omega)]
    by_cases ha : a ≤ i
    · rw [if_pos ⟨ha, hlt⟩, if_pos ⟨ha, by omega⟩, if_pos (by omega)]
    · rw [if_neg (fun h => ha h.1), if_neg (fun h => ha h.1)]
  · rw [if_neg (show ¬ (a ≤ i ∧ i < a + size) by omega), if_neg (show ¬ i - a < size by omega),
      Nat.sub_sub]
    exact if_congr (by omega) rfl rfl

variable (mount) in
/-- **`fat_load_image`** copies the clusters of a chain to the buffer, one after the other. -/
theorem returns_loadImageBody (hd : d.Reads) {fat : Bytes} {c : BitVec 16} {cs : List ℕ}
    (hchain : Fat12.Chain fat (c.toNat :: cs)) (hrange : ∀ x ∈ c.toNat :: cs, 2 ≤ x ∧ x ≤ 0xFEF)
    {n : BitVec 32} (hn : n.toNat + (cs.length + 1) < 2 ^ 20) (buffer : Bytes) :
    ∃ image : Bytes, Loop.Returns (loadImageBody d mount fat) ⟨c, n, buffer⟩
        (n + BitVec.ofNat 32 (cs.length + 1), image) ∧
      Loaded (clusterSector d mount) 512 n.toNat (c.toNat :: cs) buffer image := by
  induction cs generalizing c n buffer with
  | nil =>
    have hround := loadImageBody_eq mount fat hd
      (hrange c.toNat List.mem_cons_self).2 n buffer
    rw [toNat_mul_512 (by omega)] at hround
    refine ⟨_, .round hround (.exit (if_neg ?_)), Loaded.cons (by omega) fun i => ?_⟩
    · have hend : 0xFF8 ≤ (fatEntry fat c).toNat := by
        rw [toNat_fatEntry]
        exact hchain
      exact Nat.not_lt.mpr (Nat.le_trans (by decide) hend)
    · rw [if_neg (by simp)]
  | cons x cs ih =>
    have hround := loadImageBody_eq mount fat hd
      (hrange c.toNat List.mem_cons_self).2 n buffer
    rw [toNat_mul_512 (by omega)] at hround
    obtain ⟨hx, hrest⟩ := hchain
    rw [List.length_cons] at hn
    -- the rest of the chain goes to the buffer behind this sector
    have hentry : (fatEntry fat c).toNat = x := (toNat_fatEntry fat c).trans hx
    have hsucc : (n + 1).toNat = n.toNat + 1 := by
      rw [BitVec.toNat_add, show (1 : BitVec 32).toNat = 1 from rfl]
      omega
    rw [← hentry] at hrest hrange
    obtain ⟨image, hret, hload⟩ := ih hrest (fun y hy => hrange y (List.mem_cons_of_mem _ hy))
      (n := n + 1) (by omega) (memcpy buffer (n.toNat * 512) (clusterSector d mount c.toNat) 512)
    rw [hsucc, hentry] at hload
    rw [add_one_add_ofNat] at hret
    exact ⟨image, .round hround hret, hload.cons (by omega)⟩

/-- The table that `fat_load_FAT` leaves in the buffer has the entries of the first table. -/
theorem entry_fatLoadFAT (hd : d.Reads) (buffer : Bytes) {x : ℕ}
    (hx : x + x / 2 + 1 < 512 * mount.fatSize.toNat) :
    Fat12.entry (firstTable d mount) x = Fat12.entry (fatLoadFAT d mount buffer) x :=
  Fat12.entry_congr (fatLoadFAT_apply hd buffer (by omega)).symm
    (fatLoadFAT_apply hd buffer hx).symm

/-- **Both readers read the same file**: calling `fat_read_file` until `end` is set gives the sectors
that `fat_load_image` copies to its buffer, and as many calls are made as it counts sectors. -/
theorem readers_agree (hd : d.Reads) (hreserved : (bpbOf (d.sector 0)).reservedSectors = 1)
    {c : BitVec 16} {cs : List ℕ} (hchain : Fat12.Chain (firstTable d (fatMount d)) (c.toNat :: cs))
    (hrange : ∀ x ∈ c.toNat :: cs, 2 ≤ x ∧ x ≤ 0xFEF)
    (hinside : ∀ x ∈ c.toNat :: cs, x + x / 2 + 1 < 512 * (fatMount d).fatSize.toNat)
    (hfile : file.currentCluster = c.setWidth 32) (hend : file.atEnd = 0)
    (buffer fatBuffer : Bytes) :
    ∃ out log n image,
      (∃ rounds, readUntilEnd d (fatMount d) file rounds = some (out, log)) ∧
      (∃ rounds, fatLoadImage d (fatMount d) buffer (fatLoadFAT d (fatMount d) fatBuffer) c rounds =
        some (n, image)) ∧
      n.toNat = out.length ∧
      ∀ i, image i = if h : i / 512 < out.length then out[i / 512] (i % 512) else buffer i := by
  have hoffset : (fatMount d).fatOffset = 1 := by
    rw [fatMount, mountInfo, hreserved]
    rfl
  have hlen : (c.toNat :: cs).length ≤ 0xFF0 :=
    hchain.length_le (by omega) fun x hx => Nat.lt_succ_of_le (hrange x hx).2
  rw [List.length_cons] at hlen
  have htable := hchain
  rw [firstTable_eq_tableByte hoffset] at htable
  have hc : file.currentCluster.toNat = c.toNat := by
    rw [hfile, BitVec.toNat_setWidth_of_le (by omega)]
  obtain ⟨log, hread⟩ := returns_readBody (fatMount d) ⟨htable, hrange, hc, hend⟩ [] []
  -- the other reader follows the copy of the table
  have hcopy := hchain.congr fun x hx => entry_fatLoadFAT hd fatBuffer (hinside x hx)
  obtain ⟨image, hload, himage⟩ := returns_loadImageBody (fatMount d) hd hcopy hrange
    (n := 0#32) (by rw [BitVec.toNat_zero]; omega) buffer
  refine ⟨_, log, _, image, Loop.returns_iff_run.mp hread, Loop.returns_iff_run.mp hload, ?_,
    fun i => ?_⟩
  · rw [BitVec.zero_add, BitVec.toNat_ofNat, List.nil_append, List.length_map, List.length_cons]
    omega
  · rw [himage i]
    simp only [BitVec.toNat_zero, Nat.zero_mul, Nat.zero_add, Nat.zero_le, true_and, Nat.sub_zero,
      List.nil_append, List.length_map]
    by_cases hi : i / 512 < (c.toNat :: cs).length
    · rw [if_pos (by omega), dif_pos hi, List.getElem_map, Fat12.content,
        List.getD_eq_getElem _ _ hi]
    · rw [if_neg (by omega), dif_neg hi]

/-- A file of the clusters 2 and 3. -/
theorem readers_agree_two_clusters :
    let d := disk [0xF0, 0xFF, 0xFF, 0x03, 0xF0, 0xFF] []
    ∃ out log n image,
      (∃ rounds, readUntilEnd d (fatMount d) ⟨fun _ => 0, fsFile, 1024, 0, 0, 0, 2, 0⟩ rounds =
        some (out, log)) ∧
      (∃ rounds, fatLoadImage d (fatMount d) (fun _ => 0) (fatLoadFAT d (fatMount d) fun _ => 0) 2
        rounds = some (n, image)) ∧
      n.toNat = out.length ∧
      ∀ i, image i = if h : i / 512 < out.length then out[i / 512] (i % 512) else 0 :=
  readers_agree (Drive.ofImage_reads _) (by decide +kernel)
    (by decide +kernel : Fat12.Chain _ [(2 : BitVec 16).toNat, 3]) (by decide +kernel)
    (by decide +kernel) rfl rfl (fun _ => 0) fun _ => 0

end FanOS.Filesystem
