import FanOS.Fat12.Basic
import FanOS.Filesystem.Basic

/-!
# Entries of the file allocation table

Both readers decode 12-bit entries: `fat_load_image` from a table in memory (`toNat_fatEntry`) and
`fat_read_file` from the two sectors that it reads (`fatReadFile_run`), which it takes from sector 1
on.  `advance` is what `fat_read_file` does to a file, said by the entry of its cluster, and
`fatReadFile_packed` says the same for a table that holds given values.
-/

namespace FanOS.Filesystem

open FloppyDisk Strings

variable {d : Drive} {mount : MountInfo} {file : File}

/-! ### Decoding -/

theorem toNat_halfWord (s : Bytes) (o : ℕ) :
    (halfWord s o).toNat = (s o).toNat + 256 * (s (o + 1)).toNat := by
  have hlt := (s o).isLt
  rw [halfWord, BitVec.toNat_append, ← Nat.shiftLeft_add_eq_or_of_lt hlt, Nat.shiftLeft_eq]
  omega

/-- The low or the high 12 bits of a half word. -/
theorem toNat_lowOrHigh (w : BitVec 16) (even : Prop) [Decidable even] :
    (if even then w &&& 0xFFF else w >>> 4).toNat = if even then w.toNat % 4096 else w.toNat / 16 := by
  split_ifs
  · rw [BitVec.toNat_and]
    exact Nat.and_two_pow_sub_one_eq_mod w.toNat 12
  · rw [BitVec.toNat_ushiftRight, Nat.shiftRight_eq_div_pow]

theorem toNat_fatEntry (fat : Bytes) (c : BitVec 16) :
    (fatEntry fat c).toNat = Fat12.entry fat c.toNat := by
  have heven : c % 2 = 0 ↔ c.toNat % 2 = 0 := by
    constructor
    · exact fun h => congrArg BitVec.toNat h
    · exact fun h => BitVec.eq_of_toNat_eq h
  rw [fatEntry, toNat_lowOrHigh, toNat_halfWord, Fat12.entry, Nat.add_comm (c.toNat / 2)]
  simp only [heven]

/-! ### `fat_read_file` -/

/-- The table as `fat_read_file` reads it: from sector 1 on. -/
def tableByte (d : Drive) (o : ℕ) : BitVec 8 := d.sector (BitVec.ofNat 32 (o / 512 + 1)) (o % 512)

/-- The first table of the volume. -/
def firstTable (d : Drive) (mount : MountInfo) (o : ℕ) : BitVec 8 :=
  d.sector (mount.fatOffset + BitVec.ofNat 32 (o / 512)) (o % 512)

theorem firstTable_eq_tableByte (h : mount.fatOffset = 1) : firstTable d mount = tableByte d := by
  ext o : 1
  rw [firstTable, tableByte, h, BitVec.add_comm, BitVec.ofNat_add]
  rfl

/-- The entries at which `fat_read_file` sets `end`. -/
def Stops (e : ℕ) : Prop := 0xFF8 ≤ e ∨ e = 0

instance : DecidablePred Stops := fun e => inferInstanceAs (Decidable (0xFF8 ≤ e ∨ e = 0))

/-- The entry of a cluster names another one, to which `fat_read_file` goes on. -/
def Links (fat : ℕ → BitVec 8) (x y : ℕ) : Prop := Fat12.entry fat x = y ∧ ¬ Stops y

/-- What `fat_read_file` does to a file. -/
def advance (d : Drive) (file : File) : File :=
  let e := Fat12.entry (tableByte d) file.currentCluster.toNat
  if Stops e then { file with atEnd := 1 } else { file with currentCluster := BitVec.ofNat 32 e }

/-- The sector with the data of the current cluster. -/
def dataSector (mount : MountInfo) (file : File) : BitVec 32 :=
  fdChsToLba (file.currentCluster.setWidth 16) + mount.dataOffset

/-- The first of the two sectors of the table that `fat_read_file` reads. -/
def fatSector (file : File) : BitVec 32 :=
  (file.currentCluster / 2 + file.currentCluster) / 512 + 1

/-- `fat_offset` is not cut. -/
theorem toNat_offset {c : BitVec 32} (hc : c.toNat < 2 ^ 16) :
    (c / 2 + c).toNat = c.toNat + c.toNat / 2 := by
  rw [BitVec.toNat_add, BitVec.toNat_udiv, show (2 : BitVec 32).toNat = 2 from rfl]
  omega

/-- The sector of the table in which the entry starts. -/
theorem offset_div {c : BitVec 32} (hc : c.toNat < 2 ^ 16) :
    (c / 2 + c) / 512 = BitVec.ofNat 32 ((c.toNat + c.toNat / 2) / 512) := by
  rw [← toNat_offset hc, ← show (512 : BitVec 32).toNat = 512 from rfl, ← BitVec.toNat_udiv,
    BitVec.ofNat_toNat, BitVec.setWidth_eq]

/-- The two bytes of the entry, in the sectors that are read. -/
theorem tableOf_eq {c : BitVec 32} (hc : c.toNat < 2 ^ 16) {i : ℕ} (hi : i < 2) :
    tableOf (d.sector ((c / 2 + c) / 512 + 1)) (d.sector ((c / 2 + c) / 512 + 1 + 1))
      (((c / 2 + c) % 512).toNat + i) = tableByte d (c.toNat + c.toNat / 2 + i) := by
  have hmod : ((c / 2 + c) % 512).toNat = (c.toNat + c.toNat / 2) % 512 := by
    rw [BitVec.toNat_umod, toNat_offset hc]
    rfl
  have hsucc : ∀ k : ℕ, BitVec.ofNat 32 k + 1 = BitVec.ofNat 32 (k + 1) := fun k =>
    (BitVec.ofNat_add k 1).symm
  rw [hmod, offset_div hc, hsucc, hsucc, tableOf, sectorSize, tableByte]
  -- the second byte is in the next sector if the entry starts in the last byte of the first
  by_cases hlt : (c.toNat + c.toNat / 2) % 512 + i < 512
  · rw [if_pos hlt, show (c.toNat + c.toNat / 2 + i) / 512 = (c.toNat + c.toNat / 2) / 512 by omega,
      show (c.toNat + c.toNat / 2 + i) % 512 = (c.toNat + c.toNat / 2) % 512 + i by omega]
  · rw [if_neg hlt,
      show (c.toNat + c.toNat / 2 + i) / 512 = (c.toNat + c.toNat / 2) / 512 + 1 by omega,
      show (c.toNat + c.toNat / 2 + i) % 512 = (c.toNat + c.toNat / 2) % 512 + i - 512 by omega]

theorem toNat_nextClusterOf {c : BitVec 32} (hc : c.toNat < 2 ^ 16) :
    (nextClusterOf (tableOf (d.sector ((c / 2 + c) / 512 + 1))
      (d.sector ((c / 2 + c) / 512 + 1 + 1))) c).toNat = Fat12.entry (tableByte d) c.toNat := by
  have heven : c % 2 = 0 ↔ c.toNat % 2 = 0 := by
    constructor
    · exact fun h => congrArg BitVec.toNat h
    · exact fun h => BitVec.eq_of_toNat_eq h
  have h0 := tableOf_eq (d := d) hc (show 0 < 2 by omega)
  rw [Nat.add_zero, Nat.add_zero] at h0
  rw [nextClusterOf, toNat_lowOrHigh, toNat_halfWord, Fat12.entry, h0, tableOf_eq hc (by omega)]
  simp only [heven]

/-- **`fat_read_file`** reads the sector of the current cluster and two sectors of the table, and
goes on to the cluster that the entry names. -/
theorem fatReadFile_run (hc : file.currentCluster.toNat < 2 ^ 16) (log : List (BitVec 32)) :
    (fatReadFile d mount file).run log =
      ((advance d file, d.sector (dataSector mount file)),
        log ++ [dataSector mount file, fatSector file, fatSector file + 1]) := by
  have hlog : ∀ a b c : BitVec 32, log ++ [a] ++ [b] ++ [c] = log ++ [a, b, c] := by simp
  unfold fatReadFile
  simp only [fdSector, StateT.run_bind, StateT.run_modify, StateT.run_pure, pure_bind, hlog]
  have he := toNat_nextClusterOf (d := d) hc
  rw [advance, ← he, dataSector, fatSector]
  -- the source tests the entry for an end mark and for zero, which `Stops` says at once
  generalize nextClusterOf _ _ = e
  have hge : e ≥ 0xFF8 ↔ 0xFF8 ≤ e.toNat := Iff.rfl
  have h0 : e = 0 ↔ e.toNat = 0 :=
    ⟨fun h => congrArg BitVec.toNat h, fun h => BitVec.eq_of_toNat_eq h⟩
  by_cases h1 : e ≥ 0xFF8
  · rw [if_pos h1, if_pos (show Stops e.toNat from Or.inl (hge.mp h1))]
    rfl
  · by_cases h2 : e = 0
    · rw [if_neg h1, if_pos h2, if_pos (show Stops e.toNat from Or.inr (h0.mp h2))]
      rfl
    · have hgo : ¬ Stops e.toNat := not_or.mpr ⟨fun h => h1 (hge.mpr h), fun h => h2 (h0.mpr h)⟩
      rw [if_neg h1, if_neg h2, if_neg hgo, BitVec.ofNat_toNat]
      rfl

variable (d mount) in
/-- A round of the loop around `fat_read_file`. -/
theorem readBody_eq (hc : file.currentCluster.toNat < 2 ^ 16) (hend : file.atEnd ≠ 1)
    (out : List Sector) (log : List (BitVec 32)) :
    readBody d mount (file, out, log) =
      .inl (advance d file, out ++ [d.sector (dataSector mount file)],
        log ++ [dataSector mount file, fatSector file, fatSector file + 1]) := by
  rw [readBody, if_pos hend, fatReadFile_run hc]

theorem readBody_of_atEnd (hend : file.atEnd = 1) (out : List Sector) (log : List (BitVec 32)) :
    readBody d mount (file, out, log) = .inr (out, log) := by
  rw [readBody, if_neg (by simp [hend])]

/-! ### Going on from cluster to cluster -/

theorem advance_of_stops (h : Stops (Fat12.entry (tableByte d) file.currentCluster.toNat)) :
    advance d file = { file with atEnd := 1 } := by
  rw [advance, if_pos h]

theorem advance_of_not_stops (h : ¬ Stops (Fat12.entry (tableByte d) file.currentCluster.toNat)) :
    advance d file = { file with
      currentCluster := BitVec.ofNat 32 (Fat12.entry (tableByte d) file.currentCluster.toNat) } := by
  rw [advance, if_neg h]

/-- The cluster that an entry names. -/
theorem toNat_ofNat_entry (fat : ℕ → BitVec 8) (c : ℕ) :
    (BitVec.ofNat 32 (Fat12.entry fat c)).toNat = Fat12.entry fat c := by
  have := Fat12.entry_lt fat c
  rw [BitVec.toNat_ofNat]
  omega

/-- A call moves the file on, or leaves it where it is. -/
theorem toNat_advance_cluster :
    (advance d file).currentCluster.toNat =
      if Stops (Fat12.entry (tableByte d) file.currentCluster.toNat) then file.currentCluster.toNat
      else Fat12.entry (tableByte d) file.currentCluster.toNat := by
  split_ifs with h
  · rw [advance_of_stops h]
  · rw [advance_of_not_stops h, toNat_ofNat_entry]

theorem advance_atEnd :
    (advance d file).atEnd =
      if Stops (Fat12.entry (tableByte d) file.currentCluster.toNat) then 1 else file.atEnd := by
  split_ifs with h
  · rw [advance_of_stops h]
  · rw [advance_of_not_stops h]

/-- Cluster numbers stay below `2 ^ 16`. -/
theorem advance_cluster_lt (hc : file.currentCluster.toNat < 2 ^ 16) :
    (advance d file).currentCluster.toNat < 2 ^ 16 := by
  have := Fat12.entry_lt (tableByte d) file.currentCluster.toNat
  rw [toNat_advance_cluster]
  split_ifs <;> omega

/-! ### Packed tables -/

/-- The first table on the disk has so many sectors, from sector 1 on, and holds the given entries. -/
def HoldsTable (d : Drive) (values : ℕ → BitVec 12) (sectors : ℕ) : Prop :=
  ∀ o < 512 * sectors, d.sector (BitVec.ofNat 32 (o / 512 + 1)) (o % 512) = Fat12.packed values o

theorem HoldsTable.entry {values : ℕ → BitVec 12} {sectors c : ℕ} (h : HoldsTable d values sectors)
    (hc : c + c / 2 + 1 < 512 * sectors) : Fat12.entry (tableByte d) c = (values c).toNat :=
  (Fat12.entry_congr (h _ (by omega)) (h _ hc)).trans (Fat12.entry_packed values c)

/-- **`fat_read_file` decodes every entry**: from the two sectors of the table that it requests it gets the
value of the entry of its cluster; it sets `end` if that is an end mark or zero, and otherwise goes on to
the cluster of that number. -/
theorem fatReadFile_packed (d : Drive) (mount : MountInfo) (file : File) (values : ℕ → BitVec 12)
    (sectors : ℕ) (htable : HoldsTable d values sectors) (hle : file.currentCluster.toNat ≤ 0xFEF)
    (hin : file.currentCluster.toNat + file.currentCluster.toNat / 2 + 1 < 512 * sectors)
    (log : List (BitVec 32)) :
    nextClusterOf (tableOf (d.sector (fatSector file)) (d.sector (fatSector file + 1)))
        file.currentCluster = (values file.currentCluster.toNat).setWidth 16 ∧
    (fatReadFile d mount file).run log =
      ((if values file.currentCluster.toNat ≥ 0xFF8 ∨ values file.currentCluster.toNat = 0 then
          { file with atEnd := 1 }
        else { file with currentCluster := (values file.currentCluster.toNat).setWidth 32 },
        d.sector (dataSector mount file)),
      log ++ [dataSector mount file, fatSector file, fatSector file + 1]) := by
  have hc : file.currentCluster.toNat < 2 ^ 16 := by omega
  have hentry := htable.entry hin
  refine ⟨?_, ?_⟩
  · apply BitVec.eq_of_toNat_eq
    rw [fatSector, toNat_nextClusterOf hc, hentry, BitVec.toNat_setWidth_of_le (by omega)]
  · rw [fatReadFile_run hc, advance, hentry]
    -- the entry is an end mark or zero as a number if and only if it is as a word
    have hstops : Stops (values file.currentCluster.toNat).toNat ↔
        values file.currentCluster.toNat ≥ 0xFF8 ∨ values file.currentCluster.toNat = 0 := by
      refine or_congr Iff.rfl ⟨fun h => BitVec.eq_of_toNat_eq h, fun h => ?_⟩
      exact congrArg BitVec.toNat h
    simp only [hstops, BitVec.ofNat_toNat]

/-- The entry of cluster 341 is in the last byte of one sector and the first of the next. -/
theorem fatReadFile_packed_disk :
    let d := Drive.ofImage fun n i => Fat12.packed (fun c => BitVec.ofNat 12 (c + 1)) (512 * (n - 1) + i)
    HoldsTable d (fun c => BitVec.ofNat 12 (c + 1)) 9 ∧
    ((fatReadFile d (mountInfo bootBpb) ⟨fun _ => 0, fsFile, 0, 0, 0, 0, 341, 0⟩).run []).1.1 =
      ⟨fun _ => 0, fsFile, 0, 0, 0, 0, 342, 0⟩ := by
  have htable : HoldsTable (Drive.ofImage fun n i =>
      Fat12.packed (fun c => BitVec.ofNat 12 (c + 1)) (512 * (n - 1) + i))
      (fun c => BitVec.ofNat 12 (c + 1)) 9 := by
    intro o ho
    have hlba : (BitVec.ofNat 32 (o / 512 + 1)).toNat = o / 512 + 1 := by
      rw [BitVec.toNat_ofNat]
      omega
    rw [Drive.ofImage_sector _ (by omega), hlba]
    congr 1
    omega
  refine ⟨htable, ?_⟩
  rw [(fatReadFile_packed _ (mountInfo bootBpb) ⟨fun _ => 0, fsFile, 0, 0, 0, 0, 341, 0⟩ _ 9 htable
    (by decide) (by decide) []).2]
  rfl

end FanOS.Filesystem
