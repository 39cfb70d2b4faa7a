import FanOS.Filesystem.Equiv.Entries

/-!
# Looking names up

`fat_parse_rootdir` requests the sectors of the root directory one after the other, up to the first
that has an entry of the name (`rootdirLoop_run`).  In other directories, `fat_parse_subdir` looks a name up
along the chain of clusters (`Finds`).
-/

namespace FanOS.Filesystem

open FloppyDisk Strings

variable {d : Drive} {mount : MountInfo} {file : File} {name fname : Bytes}

/-! ### The entries of a sector -/

/-- An entry has the name that is looked up: the first 11 bytes are the same. -/
def Named (name dir : Bytes) : Prop := ∀ i < 11, name i = dir i

instance (name dir : Bytes) : Decidable (Named name dir) :=
  inferInstanceAs (Decidable (∀ i < 11, name i = dir i))

theorem strncmp_eq_zero_iff_named {name dir : Bytes} : strncmp name dir 11 = 0 ↔ Named name dir :=
  strncmp_eq_zero_iff

/-- No entry is found if and only if none of them has the name. -/
theorem findEntry_eq_none_iff {s : Sector} {k i : ℕ} :
    findEntry name s k i = none ↔ ∀ j < k, ¬ Named name (directory s (i + j)) := by
  induction k generalizing i with
  | zero => simp [findEntry]
  | succ k ih =>
    rw [findEntry]
    split_ifs with h
    · simp only [false_iff, not_forall]
      exact ⟨0, by omega, not_not.mpr (strncmp_eq_zero_iff_named.mp h)⟩
    · rw [ih]
      constructor
      · intro hall j hj
        cases j with
        | zero => exact fun hn => h (strncmp_eq_zero_iff_named.mpr hn)
        | succ j =>
          rw [Nat.add_comm j, ← Nat.add_assoc]
          exact hall j (by omega)
      · intro hall j hj
        rw [Nat.add_assoc, Nat.add_comm 1]
        exact hall (j + 1) (by omega)

/-! ### The root directory -/

/-- `k` sectors from `lba` on. -/
def sectorsFrom (lba : BitVec 32) (k : ℕ) : List (BitVec 32) :=
  (List.range k).map fun i => lba + BitVec.ofNat 32 i

@[simp] theorem length_sectorsFrom (lba : BitVec 32) (k : ℕ) : (sectorsFrom lba k).length = k := by
  rw [sectorsFrom, List.length_map, List.length_range]

theorem sectorsFrom_succ (lba : BitVec 32) (k : ℕ) :
    sectorsFrom lba (k + 1) = lba :: sectorsFrom (lba + 1) k := by
  rw [sectorsFrom, List.range_succ_eq_map, List.map_cons, List.map_map, sectorsFrom,
    BitVec.ofNat_eq_ofNat, BitVec.add_zero]
  congr 1
  exact List.map_congr_left fun i _ => (add_one_add_ofNat lba i).symm

/-- The entry of a name in a sector. -/
def entryIn (d : Drive) (name : Bytes) (lba : BitVec 32) : Option Bytes :=
  findEntry name (d.sector lba) 16 0

/-- A search through sectors that stops at the first with an entry of the name. -/
def searched (d : Drive) (name : Bytes) (sectors : List (BitVec 32)) : List (BitVec 32) :=
  sectors.take (sectors.findIdx (fun lba => (entryIn d name lba).isSome) + 1)

theorem length_searched (sectors : List (BitVec 32)) :
    (searched d name sectors).length =
      min (sectors.findIdx (fun lba => (entryIn d name lba).isSome) + 1) sectors.length := by
  rw [searched, List.length_take]

/-- A search goes on as long as the sectors have no entry of the name. -/
theorem le_findIdx_of_absent {lba : BitVec 32} {n k : ℕ} (hn : n ≤ k)
    (h : ∀ i < n, entryIn d name (lba + BitVec.ofNat 32 i) = none) :
    n ≤ (sectorsFrom lba k).findIdx fun lba => (entryIn d name lba).isSome := by
  by_contra hlt
  have hidx : (sectorsFrom lba k).findIdx (fun lba => (entryIn d name lba).isSome) <
      (sectorsFrom lba k).length := by
    rw [length_sectorsFrom]
    omega
  have hfound := List.findIdx_getElem (w := hidx)
  simp only [sectorsFrom, List.getElem_map, List.getElem_range] at hfound hlt
  rw [h _ (by omega)] at hfound
  exact absurd hfound (by simp)

variable (d mount name) in
/-- **The search of `fat_parse_rootdir`**: the entry it finds, and the sectors it requests. -/
theorem rootdirLoop_run (k : ℕ) (i : BitVec 32) (log : List (BitVec 32)) :
    (rootdirLoop d mount name k i).run log =
      ((sectorsFrom (mount.rootOffset + i) k).findSome? (entryIn d name),
        log ++ searched d name (sectorsFrom (mount.rootOffset + i) k)) := by
  induction k generalizing i log with
  | zero =>
    simp only [rootdirLoop, StateT.run_pure, sectorsFrom, searched, List.range_zero, List.map_nil,
      List.findSome?_nil, List.take_nil, List.append_nil]
    rfl
  | succ k ih =>
    rw [sectorsFrom_succ, BitVec.add_assoc]
    simp only [rootdirLoop, fdSector, StateT.run_bind, StateT.run_modify, StateT.run_pure, pure_bind]
    rw [← entryIn]
    cases he : entryIn d name (mount.rootOffset + i) with
    | some e =>
      simp [searched, he, List.findIdx_cons]
      rfl
    | none =>
      simp only [ih]
      simp [searched, he, List.findIdx_cons]

/-- The entry of a name in the root directory. -/
def rootEntry (d : Drive) (mount : MountInfo) (fname : Bytes) : Option Bytes :=
  (sectorsFrom mount.rootOffset 14).findSome? (entryIn d (dosFname fname))

/-- `fat_parse_rootdir` searches 14 sectors. -/
theorem fatParseRootdir_run (log : List (BitVec 32)) :
    (fatParseRootdir d mount file fname).run log =
      (subdirResult file fname (rootEntry d mount fname),
        log ++ searched d (dosFname fname) (sectorsFrom mount.rootOffset 14)) := by
  have hzero : mount.rootOffset + 0 = mount.rootOffset := BitVec.add_zero _
  have hrun := rootdirLoop_run d mount (dosFname fname) 14 0 log
  rw [hzero] at hrun
  simp only [fatParseRootdir, StateT.run_bind, hrun, rootEntry]
  cases (sectorsFrom mount.rootOffset 14).findSome? (entryIn d (dosFname fname)) <;> rfl

/-- The file that is made of an entry, if the name is terminated. -/
theorem fileOf_eq {n : ℕ} (h : IsLength fname n) (dir : Bytes) :
    fileOf file fname dir = some
      { file with
        name := fun x => if x < n then fname x else file.name x
        id := 0
        currentCluster := (firstCluster dir).setWidth 32
        size := filesize dir
        atEnd := 0
        flags := if attrib dir = 0x10 then fsDirectory else fsFile } := by
  rw [fileOf, strcpy_eq h, Option.map_some]

theorem isLength_fileTxt : IsLength (fileTxt.getD · 0) 11 where
  lt := by decide
  ne_zero := by decide
  terminator := rfl

/-- A file that `fat_parse_rootdir` finds starts at the cluster that its entry names. -/
theorem currentCluster_of_subdirResult {file' : File} {e : Option Bytes}
    (h : subdirResult file fname e = some file') (hfound : file'.flags ≠ fsInvaild) :
    ∃ dir, e = some dir ∧ file'.currentCluster = (firstCluster dir).setWidth 32 := by
  cases e with
  | none =>
    rw [subdirResult, Option.some.injEq] at h
    exact absurd (congrArg File.flags h).symm hfound
  | some dir =>
    rw [subdirResult, fileOf, Option.map_eq_some_iff] at h
    obtain ⟨name, _, rfl⟩ := h
    exact ⟨dir, rfl, rfl⟩

/-! ### Other directories -/

/-- The entry of a name in a directory that starts at the given cluster: the first one in the clusters
of its chain. -/
inductive Finds (d : Drive) (mount : MountInfo) (name : Bytes) : ℕ → Bytes → Prop
  | here {x : ℕ} {e : Bytes}
      (h : entryIn d name (fdChsToLba (.ofNat 16 x) + mount.dataOffset) = some e) :
      Finds d mount name x e
  | next {x y : ℕ} {e : Bytes}
      (h : entryIn d name (fdChsToLba (.ofNat 16 x) + mount.dataOffset) = none)
      (hlink : Links (tableByte d) x y) (hy : Finds d mount name y e) : Finds d mount name x e

end FanOS.Filesystem
