import FanOS.Filesystem.Equiv.Directories

/-!
# Loops along a chain of clusters

Whether the loops that follow a chain end is decided by the table on the disk alone.
`fat_load_image` goes on until the chain comes to a number from `0xFF0` on; `fat_read_file` sets `end`
at an entry that is zero or from `0xFF8` on, so the loops around it end if the chain comes to such a
one (`isSome_fatLoadImage_iff`, `isSome_readUntilEnd_iff`, `exists_isSome_fatParseSubdir`).  The loop of
`fat_parse_subdir` also ends at an entry of the name (`exists_fatParseSubdir_of_finds`).
-/

namespace FanOS.Filesystem

open FloppyDisk Strings

variable {d : Drive} {mount : MountInfo} {file kfile : File} {fat buffer fname : Bytes}

/-! ### `fat_load_image` -/

/-- A round of the loop, without its test. -/
def imageRound (d : Drive) (mount : MountInfo) (fat : Bytes) (s : ImageState) : ImageState where
  cluster := fatEntry fat s.cluster
  sectorCount := s.sectorCount + sectorsPerCluster
  buffer :=
    match d.fdReadSector (fdChsToLba s.cluster + mount.dataOffset) with
    | some sector => memcpy s.buffer (s.sectorCount * 512).toNat sector sectorSize
    | none => s.buffer

/-- Rounds go on from entry to entry. -/
theorem toNat_iterate_imageRound_cluster (s : ImageState) (k : ℕ) :
    ((imageRound d mount fat)^[k] s).cluster.toNat = (Fat12.entry fat)^[k] s.cluster.toNat := by
  induction k with
  | zero => rfl
  | succ k ih =>
    rw [Function.iterate_succ_apply', Function.iterate_succ_apply', ← ih]
    exact toNat_fatEntry fat _

variable (d mount buffer) in
/-- **`fat_load_image` returns** if and only if the chain comes to a number from `0xFF0` on. -/
theorem isSome_fatLoadImage_iff {c : BitVec 16} :
    (∃ rounds, (fatLoadImage d mount buffer fat c rounds).isSome = true) ↔
      ∃ k, 0xFF0 ≤ (Fat12.entry fat)^[k] c.toNat := by
  have hstop : ∀ s : ImageState, 0xFF0 ≤ s.cluster.toNat → ∃ a, loadImageBody d mount fat s = .inr a :=
    fun s hs => ⟨_, if_neg (Nat.not_lt.mpr hs)⟩
  have hgo : ∀ s : ImageState, ¬ 0xFF0 ≤ s.cluster.toNat →
      loadImageBody d mount fat s = .inl (imageRound d mount fat s) :=
    fun s hs => if_pos (Nat.lt_of_not_le hs)
  have hiff := Loop.terminates_iff_iterate (s := ⟨c, 0, buffer⟩) (imageRound d mount fat)
    (fun s => 0xFF0 ≤ s.cluster.toNat) (fun _ => True) (fun _ _ => trivial) hstop (fun s _ => hgo s)
    trivial
  simp only [toNat_iterate_imageRound_cluster] at hiff
  exact Loop.terminates_iff_run.symm.trans hiff

/-! ### `fat_read_file` -/

/-- `end` is set after some calls if and only if the chain comes to an entry that stops it. -/
theorem exists_iterate_advance_atEnd_iff (hend : file.atEnd = 0) :
    (∃ k, ((advance d)^[k] file).atEnd = 1) ↔
      ∃ k, Stops ((Fat12.entry (tableByte d))^[k + 1] file.currentCluster.toNat) := by
  constructor
  · rintro ⟨k, hk⟩
    induction k generalizing file with
    | zero => exact absurd (hend.symm.trans hk) (by decide)
    | succ k ih =>
      -- an entry that does not stop the chain is the cluster of the next call
      by_cases h : Stops (Fat12.entry (tableByte d) file.currentCluster.toNat)
      · exact ⟨0, h⟩
      · obtain ⟨j, hj⟩ := ih (by rw [advance_atEnd, if_neg h, hend]) hk
        rw [toNat_advance_cluster, if_neg h] at hj
        exact ⟨j + 1, hj⟩
  · rintro ⟨k, hk⟩
    induction k generalizing file with
    | zero => exact ⟨1, by rw [Function.iterate_one, advance_of_stops hk]⟩
    | succ k ih =>
      by_cases h : Stops (Fat12.entry (tableByte d) file.currentCluster.toNat)
      · exact ⟨1, by rw [Function.iterate_one, advance_of_stops h]⟩
      · have hnext : (advance d file).currentCluster.toNat =
            Fat12.entry (tableByte d) file.currentCluster.toNat := by
          rw [toNat_advance_cluster, if_neg h]
        rw [Function.iterate_succ_apply, ← hnext] at hk
        obtain ⟨j, hj⟩ := ih (by rw [advance_atEnd, if_neg h, hend]) hk
        exact ⟨j + 1, hj⟩

/-- A round of the loop around `fat_read_file`, without its test. -/
def readRound (d : Drive) (mount : MountInfo) (s : File × List Sector × List (BitVec 32)) :
    File × List Sector × List (BitVec 32) :=
  (advance d s.1, s.2.1 ++ [d.sector (dataSector mount s.1)],
    s.2.2 ++ [dataSector mount s.1, fatSector s.1, fatSector s.1 + 1])

theorem iterate_readRound_fst (s : File × List Sector × List (BitVec 32)) (k : ℕ) :
    ((readRound d mount)^[k] s).1 = (advance d)^[k] s.1 := by
  induction k with
  | zero => rfl
  | succ k ih => rw [Function.iterate_succ_apply', Function.iterate_succ_apply', ← ih, readRound]

variable (mount) in
/-- **Reading until `end` is set** ends if and only if the chain comes to an entry that stops it. -/
theorem isSome_readUntilEnd_iff (hc : file.currentCluster.toNat < 2 ^ 16) (hend : file.atEnd = 0) :
    (∃ rounds, (readUntilEnd d mount file rounds).isSome = true) ↔
      ∃ k, Stops ((Fat12.entry (tableByte d))^[k + 1] file.currentCluster.toNat) := by
  have hiff := Loop.terminates_iff_iterate (s := (file, [], [])) (readRound d mount)
    (fun s => s.1.atEnd = 1) (fun s => s.1.currentCluster.toNat < 2 ^ 16)
    (fun s hs => advance_cluster_lt hs)
    (fun s hs => ⟨_, readBody_of_atEnd (d := d) hs s.2.1 s.2.2⟩)
    (fun s hs hns => readBody_eq d mount hs hns s.2.1 s.2.2) hc
  simp only [iterate_readRound_fst] at hiff
  exact Loop.terminates_iff_run.symm.trans (hiff.trans (exists_iterate_advance_atEnd_iff hend))

/-! ### `fat_parse_subdir` -/

variable (d mount) in
/-- A round of the loop of `fat_parse_subdir`. -/
theorem subdirBody_eq (hc : kfile.currentCluster.toNat < 2 ^ 16) (hend : kfile.atEnd = 0)
    (name : Bytes) (log : List (BitVec 32)) :
    subdirBody d mount name (kfile, log) =
      match entryIn d name (dataSector mount kfile) with
      | some e => .inr (some e, log ++ [dataSector mount kfile, fatSector kfile, fatSector kfile + 1])
      | none => .inl (advance d kfile,
          log ++ [dataSector mount kfile, fatSector kfile, fatSector kfile + 1]) := by
  rw [subdirBody, if_pos hend, fatReadFile_run hc]
  rfl

theorem subdirBody_of_atEnd (hend : kfile.atEnd ≠ 0) (name : Bytes) (log : List (BitVec 32)) :
    subdirBody d mount name (kfile, log) = .inr (none, log) := by
  rw [subdirBody, if_neg hend]

variable (mount) in
/-- The loop of `fat_parse_subdir` ends if the chain comes to an entry that stops it. -/
theorem terminates_subdirBody (name : Bytes) {k : ℕ} (hc : kfile.currentCluster.toNat < 2 ^ 16)
    (hk : ((advance d)^[k] kfile).atEnd = 1) (log : List (BitVec 32)) :
    Loop.Terminates (subdirBody d mount name) (kfile, log) := by
  induction k generalizing kfile log with
  | zero =>
    have hend : kfile.atEnd ≠ 0 := by
      rw [show kfile.atEnd = 1 from hk]
      decide
    exact ⟨_, .exit (subdirBody_of_atEnd hend name log)⟩
  | succ k ih =>
    by_cases hend : kfile.atEnd = 0
    · have hround := subdirBody_eq d mount hc hend name log
      cases he : entryIn d name (dataSector mount kfile) with
      | some e =>
        rw [he] at hround
        exact ⟨_, .exit hround⟩
      | none =>
        rw [he] at hround
        exact (Loop.terminates_iff_of_round hround).mpr (ih (advance_cluster_lt hc) hk _)
    · exact ⟨_, .exit (subdirBody_of_atEnd hend name log)⟩

/-- `fat_parse_subdir` returns as well, if the name is terminated. -/
theorem exists_isSome_fatParseSubdir {n : ℕ} (hlen : IsLength fname n)
    (hc : kfile.currentCluster.toNat < 2 ^ 16) (hend : kfile.atEnd = 0)
    (h : ∃ k, Stops ((Fat12.entry (tableByte d))^[k + 1] kfile.currentCluster.toNat)) :
    ∃ rounds, (fatParseSubdir d mount file kfile fname rounds).isSome = true := by
  obtain ⟨k, hk⟩ := (exists_iterate_advance_atEnd_iff hend).mpr h
  obtain ⟨r, hr⟩ := terminates_subdirBody mount (dosFname fname) hc hk []
  obtain ⟨rounds, hrun⟩ := Loop.returns_iff_run.mp hr
  refine ⟨rounds, ?_⟩
  rw [fatParseSubdir, hrun, Option.bind_some]
  cases r.1 with
  | none => rfl
  | some dir => rw [subdirResult, fileOf_eq hlen, Option.isSome_some]

/-- The loop of `fat_parse_subdir` comes to the entry that the chain has first. -/
theorem returns_subdirBody_of_finds {name e : Bytes} {x : ℕ} (h : Finds d mount name x e)
    {kfile : File} (hx : kfile.currentCluster.toNat = x) (hlt : x < 2 ^ 16) (hend : kfile.atEnd = 0)
    (log : List (BitVec 32)) :
    ∃ log', Loop.Returns (subdirBody d mount name) (kfile, log) (some e, log') := by
  have hsector : ∀ {kfile : File} {x : ℕ}, kfile.currentCluster.toNat = x →
      dataSector mount kfile = fdChsToLba (.ofNat 16 x) + mount.dataOffset := by
    rintro kfile x rfl
    rw [dataSector, BitVec.ofNat_toNat]
  -- one round of the loop for each link of the chain up to the entry
  induction h generalizing kfile log with
  | here h =>
    have hround := subdirBody_eq d mount (hx ▸ hlt) hend name log
    rw [hsector hx, h] at hround
    exact ⟨_, .exit hround⟩
  | @next x y e h hlink _ ih =>
    have hround := subdirBody_eq d mount (hx ▸ hlt) hend name log
    rw [hsector hx, h] at hround
    obtain ⟨rfl, hgo⟩ := hlink
    rw [← hx] at hgo
    have hnext : (advance d kfile).currentCluster.toNat = Fat12.entry (tableByte d) x := by
      rw [toNat_advance_cluster, if_neg hgo, hx]
    have hy := Fat12.entry_lt (tableByte d) x
    obtain ⟨log', hret⟩ := ih hnext (by omega) (by rw [advance_atEnd, if_neg hgo, hend]) _
    exact ⟨log', .round hround hret⟩

/-- **`fat_parse_subdir`** makes its result of that entry. -/
theorem exists_fatParseSubdir_of_finds {fname e : Bytes} {kfile : File}
    (h : Finds d mount (dosFname fname) kfile.currentCluster.toNat e)
    (hlt : kfile.currentCluster.toNat < 2 ^ 16) (hend : kfile.atEnd = 0) :
    ∃ rounds, fatParseSubdir d mount file kfile fname rounds = fileOf file fname e := by
  obtain ⟨log, hret⟩ := returns_subdirBody_of_finds h rfl hlt hend []
  obtain ⟨rounds, hrun⟩ := Loop.returns_iff_run.mp hret
  exact ⟨rounds, by rw [fatParseSubdir, hrun, Option.bind_some, subdirResult]⟩

/-! ### All of them -/

/-- The loops end for a disk, a table in memory, a start cluster and a name. -/
structure LoopsEnd (d : Drive) (mount : MountInfo) (fatBuffer buffer : Bytes) (c : BitVec 16)
    (fname : Bytes) (file kfile : File) : Prop where
  fatParseSubdir : ∃ rounds, (fatParseSubdir d mount file kfile fname rounds).isSome = true
  fatLoadImage : ∃ rounds, (fatLoadImage d mount buffer fatBuffer c rounds).isSome = true
  readUntilEnd : ∃ rounds, (readUntilEnd d mount kfile rounds).isSome = true

/-- **The file system does not hang** if and only if both chains end: that of the table in memory in a
number from `0xFF0` on, and that of the table on the disk in an entry that is zero or from `0xFF8`
on. -/
theorem loopsEnd_iff {n : ℕ} (hlen : IsLength fname n) {c : BitVec 16} (hend : kfile.atEnd = 0)
    (hc : kfile.currentCluster = c.setWidth 32) :
    LoopsEnd d mount fat buffer c fname file kfile ↔
      (∃ k, 0xFF0 ≤ (Fat12.entry fat)^[k] c.toNat) ∧
      ∃ k, Stops ((Fat12.entry (tableByte d))^[k + 1] c.toNat) := by
  have htoNat : kfile.currentCluster.toNat = c.toNat := by
    rw [hc, BitVec.toNat_setWidth_of_le (by omega)]
  have hlt : kfile.currentCluster.toNat < 2 ^ 16 := htoNat ▸ c.isLt
  rw [← htoNat, ← isSome_readUntilEnd_iff mount hlt hend, htoNat,
    ← isSome_fatLoadImage_iff d mount buffer]
  constructor
  · exact fun h => ⟨h.fatLoadImage, h.readUntilEnd⟩
  · rintro ⟨himage, hread⟩
    exact ⟨exists_isSome_fatParseSubdir hlen hlt hend ((isSome_readUntilEnd_iff mount hlt hend).mp hread),
      himage, hread⟩

/-- A disk with a directory of the clusters 2 and 3, in the second of which is the entry of a file. -/
def subdirDisk : Drive :=
  .ofImage fun n i =>
    if n = 1 then ([0xF0, 0xFF, 0xFF, 0x03, 0xF0, 0xFF] : List (BitVec 8)).getD i 0
    else if n = 34 then (entryBytes fileTxt 0x20 4 0xFF).getD i 0
    else 0

/-- The file is found in the second cluster of the directory. -/
theorem finds_subdirDisk : ∃ e, Finds subdirDisk (mountInfo bootBpb) (dosFname (fileTxt.getD · 0)) 2 e ∧
    firstCluster e = 4 := by
  have hlink : Links (tableByte subdirDisk) 2 3 := by
    unfold Links
    decide +kernel
  have hnone : (entryIn subdirDisk (dosFname (fileTxt.getD · 0))
      (fdChsToLba (.ofNat 16 2) + (mountInfo bootBpb).dataOffset)).isNone = true := by
    decide +kernel
  have hsome : (entryIn subdirDisk (dosFname (fileTxt.getD · 0))
      (fdChsToLba (.ofNat 16 3) + (mountInfo bootBpb).dataOffset)).map firstCluster = some 4 := by
    decide +kernel
  obtain ⟨e, he, hcluster⟩ := Option.map_eq_some_iff.mp hsome
  exact ⟨e, .next (Option.isNone_iff_eq_none.mp hnone) hlink (.here he), hcluster⟩

/-- The chain of the directory ends, and the file is found in it. -/
theorem loopsEnd_subdirDisk :
    let kfile : File := { (default : File) with currentCluster := 2 }
    LoopsEnd subdirDisk (mountInfo bootBpb) (tableByte subdirDisk) (fun _ => 0) 2 (fileTxt.getD · 0)
        default kfile ∧
      ∃ rounds file, fatParseSubdir subdirDisk (mountInfo bootBpb) default kfile (fileTxt.getD · 0) rounds =
        some file ∧ file.currentCluster = 4 := by
  intro kfile
  constructor
  · refine (loopsEnd_iff isLength_fileTxt rfl rfl).mpr ⟨⟨2, ?_⟩, ⟨1, ?_⟩⟩ <;> decide +kernel
  · obtain ⟨e, he, hcluster⟩ := finds_subdirDisk
    obtain ⟨rounds, hrun⟩ : ∃ rounds, fatParseSubdir subdirDisk (mountInfo bootBpb) default kfile
        (fileTxt.getD · 0) rounds = fileOf default (fileTxt.getD · 0) e :=
      exists_fatParseSubdir_of_finds he (by decide) rfl
    rw [fileOf_eq isLength_fileTxt] at hrun
    refine ⟨rounds, _, hrun, ?_⟩
    rw [hcluster]
    rfl

/-- A cluster whose entry names the cluster itself is read for ever. -/
theorem not_loopsEnd_cluster_2_to_2 :
    ¬ LoopsEnd (disk [0xF0, 0xFF, 0xFF, 0x02, 0x00] []) (mountInfo bootBpb)
      ([0xF0, 0xFF, 0xFF, 0x02, 0x00].getD · 0) (fun _ => 0) 2 (fun _ => 0) default
      { (default : File) with currentCluster := 2 } := by
  intro h
  obtain ⟨k, hk⟩ := (isSome_fatLoadImage_iff _ _ _).mp h.fatLoadImage
  rw [Function.iterate_fixed (by decide +kernel)] at hk
  exact absurd hk (by decide)

end FanOS.Filesystem
