import FanOS.Filesystem.Equiv.Directories
import FanOS.Filesystem.Equiv.Readers

/-!
# The two searches of the root directory

`fat_parse_rootdir` goes through the 14 sectors of the root directory one by one;
`fat_load_root` copies the directory to a buffer, in which `fat_find_image` looks the name up.  Both
find the first entry of the name (`rootEntry_of_firstNamed`, `findImageLoop_of_firstNamed`), and so they
agree (`root_searches_agree`).

The number of sectors that `fat_load_root` copies is counted in sectors of the size that the boot sector
tells, while the driver reads sectors of 512 bytes.  On a disk that tells a larger size the rest of the
buffer is not filled.
-/

namespace FanOS.Filesystem

open FloppyDisk Strings

variable {d : Drive} {mount : MountInfo} {file : File} {name fname buffer : Bytes} {i k : ℕ}

/-! ### The first entry of a name -/

/-- Entry `i` is the first one of `n` that has the name. -/
structure FirstNamed (name : Bytes) (entry : ℕ → Bytes) (n i : ℕ) : Prop where
  lt : i < n
  named : Named name (entry i)
  first : ∀ j < i, ¬ Named name (entry j)

/-- Some entry is the first one of the name, or there is none. -/
theorem firstNamed_or_absent (name : Bytes) (entry : ℕ → Bytes) (n : ℕ) :
    (∃ i, FirstNamed name entry n i) ∨ ∀ i < n, ¬ Named name (entry i) := by
  by_cases h : ∃ i, i < n ∧ Named name (entry i)
  · refine Or.inl ⟨Nat.find h, (Nat.find_spec h).1, (Nat.find_spec h).2, fun j hj hn => ?_⟩
    exact Nat.find_min h hj ⟨Nat.lt_trans hj (Nat.find_spec h).1, hn⟩
  · exact Or.inr fun i hi hn => h ⟨i, hi, hn⟩

theorem findEntry_eq_some {s : Sector} {t : ℕ} (hit : i ≤ t) (htk : t < i + k)
    (hn : Named name (directory s t)) (hfirst : ∀ l, i ≤ l → l < t → ¬ Named name (directory s l)) :
    findEntry name s k i = some (directory s t) := by
  induction k generalizing i with
  | zero => omega
  | succ k ih =>
    rw [findEntry]
    rcases Nat.lt_or_eq_of_le hit with hlt | rfl
    · rw [if_neg fun h => hfirst i le_rfl hlt (strncmp_eq_zero_iff_named.mp h)]
      exact ih hlt (by omega) fun l hl => hfirst l (by omega)
    · rw [if_pos (strncmp_eq_zero_iff_named.mpr hn)]

theorem findImageLoop_succ :
    findImageLoop name buffer (k + 1) i =
      if Named name (directory buffer i) then some (32 * i)
      else findImageLoop name buffer k (i + 1) := by
  have hdir : (fun j => buffer (i * 32 + j)) = directory buffer i := by
    ext j : 1
    rw [directory, Nat.mul_comm]
  rw [findImageLoop, hdir, Nat.mul_comm i]
  exact if_congr strncmp_eq_zero_iff_named rfl rfl

theorem findImageLoop_eq_some {t : ℕ} (hit : i ≤ t) (htk : t < i + k)
    (hn : Named name (directory buffer t))
    (hfirst : ∀ l, i ≤ l → l < t → ¬ Named name (directory buffer l)) :
    findImageLoop name buffer k i = some (32 * t) := by
  induction k generalizing i with
  | zero => omega
  | succ k ih =>
    rw [findImageLoop_succ]
    rcases Nat.lt_or_eq_of_le hit with hlt | rfl
    · rw [if_neg (hfirst i le_rfl hlt)]
      exact ih hlt (by omega) fun l hl => hfirst l (by omega)
    · rw [if_pos hn]

theorem findImageLoop_eq_none (habsent : ∀ l, i ≤ l → l < i + k → ¬ Named name (directory buffer l)) :
    findImageLoop name buffer k i = none := by
  induction k generalizing i with
  | zero => rfl
  | succ k ih =>
    rw [findImageLoop_succ, if_neg (habsent i le_rfl (by omega))]
    exact ih fun l hl hlt => habsent l (by omega) (by omega)

/-! ### Sector by sector -/

/-- Entry `i` of the root directory, of which 16 are in a sector. -/
def rootDirectory (d : Drive) (mount : MountInfo) (i : ℕ) : Bytes :=
  directory (d.sector (mount.rootOffset + BitVec.ofNat 32 (i / 16))) (i % 16)

theorem rootDirectory_mul_add (q : ℕ) {r : ℕ} (hr : r < 16) :
    rootDirectory d mount (16 * q + r) =
      directory (d.sector (mount.rootOffset + BitVec.ofNat 32 q)) r := by
  rw [rootDirectory, show (16 * q + r) / 16 = q by omega, show (16 * q + r) % 16 = r by omega]

/-- The first sector from `lba` on for which `f` has a result. -/
theorem findSome?_sectorsFrom {f : BitVec 32 → Option Bytes} {lba : BitVec 32} {q : ℕ} {e : Bytes}
    (hq : q < k) (hfound : f (lba + BitVec.ofNat 32 q) = some e)
    (hbefore : ∀ j < q, f (lba + BitVec.ofNat 32 j) = none) :
    (sectorsFrom lba k).findSome? f = some e := by
  induction q generalizing lba k with
  | zero =>
    obtain ⟨k, rfl⟩ : ∃ k', k = k' + 1 := ⟨k - 1, by omega⟩
    rw [show lba + BitVec.ofNat 32 0 = lba from BitVec.add_zero lba] at hfound
    rw [sectorsFrom_succ, List.findSome?_cons, hfound]
  | succ q ih =>
    obtain ⟨k, rfl⟩ : ∃ k', k = k' + 1 := ⟨k - 1, by omega⟩
    have h0 := hbefore 0 (by omega)
    rw [show lba + BitVec.ofNat 32 0 = lba from BitVec.add_zero lba] at h0
    rw [← add_one_add_ofNat] at hfound
    rw [sectorsFrom_succ, List.findSome?_cons, h0]
    refine ih (by omega) hfound fun j hj => ?_
    rw [add_one_add_ofNat]
    exact hbefore (j + 1) (by omega)

theorem findSome?_sectorsFrom_eq_none {f : BitVec 32 → Option Bytes} {lba : BitVec 32}
    (h : ∀ j < k, f (lba + BitVec.ofNat 32 j) = none) : (sectorsFrom lba k).findSome? f = none := by
  rw [List.findSome?_eq_none_iff]
  intro x hx
  rw [sectorsFrom, List.mem_map] at hx
  obtain ⟨j, hj, rfl⟩ := hx
  exact h j (List.mem_range.mp hj)

/-- A sector of entries that do not have the name. -/
theorem entryIn_eq_none {q : ℕ} (h : ∀ r < 16, ¬ Named name (rootDirectory d mount (16 * q + r))) :
    entryIn d name (mount.rootOffset + BitVec.ofNat 32 q) = none := by
  rw [entryIn, findEntry_eq_none_iff]
  intro r hr
  rw [Nat.zero_add, ← rootDirectory_mul_add q hr]
  exact h r hr

/-- **`fat_parse_rootdir`** finds the first of the 224 entries that has the name. -/
theorem findSome?_of_firstNamed (h : FirstNamed name (rootDirectory d mount) 224 i) :
    (sectorsFrom mount.rootOffset 14).findSome? (entryIn d name) = some (rootDirectory d mount i) := by
  have hlt := h.lt
  refine findSome?_sectorsFrom (q := i / 16) (by omega) ?_ fun q hq => ?_
  · -- in its sector it is the first one too
    rw [entryIn, rootDirectory]
    refine findEntry_eq_some (Nat.zero_le _) (by omega) h.named fun l _ hl hn => ?_
    apply h.first (16 * (i / 16) + l) (by omega)
    rwa [rootDirectory_mul_add _ (by omega)]
  · exact entryIn_eq_none fun r hr => h.first _ (by omega)

theorem findSome?_of_absent (h : ∀ i < 224, ¬ Named name (rootDirectory d mount i)) :
    (sectorsFrom mount.rootOffset 14).findSome? (entryIn d name) = none :=
  findSome?_sectorsFrom_eq_none fun q hq => entryIn_eq_none fun r hr => h _ (by omega)

/-! ### In the buffer -/

/-- The fields of an entry are in its 32 bytes. -/
theorem fields_congr {dir dir' : Bytes} (h : ∀ j < 32, dir j = dir' j) :
    firstCluster dir = firstCluster dir' ∧ filesize dir = filesize dir' ∧ attrib dir = attrib dir' := by
  refine ⟨?_, ?_, h 11 (by omega)⟩
  · rw [firstCluster, firstCluster, halfWord, halfWord, h 26 (by omega), h 27 (by omega)]
  · rw [filesize, filesize, word, word, h 28 (by omega), h 29 (by omega), h 30 (by omega),
      h 31 (by omega)]

/-- **`fat_load_root`** fills the buffer with the sectors of the root directory. -/
theorem fatLoadRoot_eq (hd : d.Reads) :
    fatLoadRoot d mount buffer = fun o =>
      if o < mount.rootSize.toNat * 512 then
        d.sector (mount.rootOffset + BitVec.ofNat 32 (o / 512)) (o % 512)
      else buffer o := by
  ext o : 1
  rw [fatLoadRoot, loadSectors_apply hd]
  exact if_congr (by omega) rfl rfl

/-- The directory in the buffer, if all of it is copied. -/
theorem directory_fatLoadRoot (hd : d.Reads) (hsize : 14 ≤ mount.rootSize.toNat) (hi : i < 224) {j : ℕ}
    (hj : j < 32) :
    directory (fatLoadRoot d mount buffer) i j = rootDirectory d mount i j := by
  have hlt : 32 * i + j < mount.rootSize.toNat * 512 := by omega
  rw [directory, fatLoadRoot_eq hd]
  simp only [hlt, if_true]
  rw [rootDirectory, directory,
    show (32 * i + j) / 512 = i / 16 by omega, show (32 * i + j) % 512 = 32 * (i % 16) + j by omega]

theorem named_directory_fatLoadRoot (hd : d.Reads) (hsize : 14 ≤ mount.rootSize.toNat) (hi : i < 224) :
    Named name (directory (fatLoadRoot d mount buffer) i) ↔ Named name (rootDirectory d mount i) := by
  refine forall_congr' fun j => forall_congr' fun hj => ?_
  rw [directory_fatLoadRoot hd hsize hi (by omega)]

/-! ### Both searches -/

theorem named_dosFname {dir : Bytes} : Named (dosFname fname) dir ↔ Named fname dir := by
  refine forall_congr' fun j => forall_congr' fun hj => ?_
  rw [dosFname, if_pos hj]

theorem FirstNamed.dosFname {entry : ℕ → Bytes} {n : ℕ} (h : FirstNamed fname entry n i) :
    FirstNamed (Filesystem.dosFname fname) entry n i :=
  ⟨h.lt, named_dosFname.mpr h.named, fun j hj hn => h.first j hj (named_dosFname.mp hn)⟩

/-- A name of at most 11 characters ends somewhere. -/
theorem exists_isLength (hname : fname 11 = 0) : ∃ n ≤ 11, IsLength fname n := by
  have hex : ∃ n, fname n = 0 := ⟨11, hname⟩
  have hle : Nat.find hex ≤ 11 := Nat.find_min' hex hname
  exact ⟨Nat.find hex, hle, by omega, fun j hj => Nat.find_min hex hj, Nat.find_spec hex⟩

/-- What the boot sector tells about the root directory. -/
theorem rootSize_fatMount (hentries : (bpbOf (d.sector 0)).numRootEntries = 224) :
    (fatMount d).numRootEntries.toNat = 224 ∧
      (fatMount d).rootSize.toNat = 7168 / (bpbOf (d.sector 0)).bytesPerSector.toNat := by
  rw [fatMount, mountInfo]
  simp only [hentries]
  refine ⟨rfl, ?_⟩
  rw [BitVec.toNat_udiv, BitVec.toNat_setWidth_of_le (by omega)]
  rfl

/-- **Both searches of the root directory agree**, on every disk with 224 root entries whose boot sector
tells a sector size of at most 512 bytes: a file is found if and only if an entry is, which is the first
one of the name and has what the file gets. -/
theorem root_searches_agree (d : Drive) (file : File) (fname buffer : Bytes) (log : List (BitVec 32))
    (hd : d.Reads) (hentries : (bpbOf (d.sector 0)).numRootEntries = 224)
    (hpos : 0 < (bpbOf (d.sector 0)).bytesPerSector.toNat)
    (hbytes : (bpbOf (d.sector 0)).bytesPerSector.toNat ≤ 512) (hname : fname 11 = 0) :
    let mount := fatMount d
    let loaded := fatLoadRoot d mount buffer
    ∃ f, ((fatParseRootdir d mount file fname).run log).1 = some f ∧
      (f.flags ≠ fsInvaild ↔ ∃ o, fatFindImage mount fname loaded = some o) ∧
      (∀ o, fatFindImage mount fname loaded = some o →
        ∃ i, FirstNamed fname (rootDirectory d mount) 224 i ∧ o = 32 * i ∧
          (∀ j < 32, loaded (o + j) = rootDirectory d mount i j) ∧
          f.currentCluster = (firstCluster fun j => loaded (o + j)).setWidth 32 ∧
          f.size = filesize (fun j => loaded (o + j)) ∧
          f.flags = if attrib (fun j => loaded (o + j)) = 0x10 then fsDirectory else fsFile) ∧
      (fatFindImage mount fname loaded = none →
        f.flags = fsInvaild ∧ ∀ i < 224, ¬ Named fname (rootDirectory d mount i)) := by
  intro mount loaded
  obtain ⟨hnum, hsize⟩ := rootSize_fatMount hentries
  have hsize' : 14 ≤ (fatMount d).rootSize.toNat := by
    rw [hsize, Nat.le_div_iff_mul_le hpos]
    omega
  obtain ⟨n, -, hlen⟩ := exists_isLength hname
  have hparse : ((fatParseRootdir d mount file fname).run log).1 =
      subdirResult file fname (rootEntry d mount fname) := by
    rw [fatParseRootdir_run]
  rw [hparse, fatFindImage, hnum, rootEntry]
  rcases firstNamed_or_absent fname (rootDirectory d mount) 224 with ⟨i, hi⟩ | habsent
  · -- both find the first entry of the name
    have hentry : ∀ j < 32, loaded (32 * i + j) = rootDirectory d mount i j := fun j hj =>
      directory_fatLoadRoot hd hsize' hi.lt hj
    have hfind : findImageLoop fname loaded 224 0 = some (32 * i) := by
      have hlt := hi.lt
      refine findImageLoop_eq_some (Nat.zero_le i) (by omega) ?_ fun l _ hl => ?_
      · exact (named_directory_fatLoadRoot hd hsize' hi.lt).mpr hi.named
      · rw [named_directory_fatLoadRoot hd hsize' (by omega)]
        exact hi.first l hl
    rw [findSome?_of_firstNamed hi.dosFname, subdirResult, fileOf_eq hlen, hfind]
    refine ⟨_, rfl, ⟨fun _ => ⟨_, rfl⟩, fun _ => ?_⟩, ?_, fun h => absurd h (by simp)⟩
    · simp only
      split_ifs <;> decide
    · rintro o ho
      obtain rfl := Option.some.inj ho
      obtain ⟨hcluster, hfilesize, hattrib⟩ := fields_congr hentry
      refine ⟨i, hi, rfl, hentry, ?_, ?_, ?_⟩
      · rw [hcluster]
      · rw [hfilesize]
      · rw [hattrib]
  · have hfind : findImageLoop fname loaded 224 0 = none := by
      refine findImageLoop_eq_none fun l _ hl => ?_
      rw [named_directory_fatLoadRoot hd hsize' (by omega)]
      exact habsent l (by omega)
    rw [findSome?_of_absent fun i hi hn => habsent i hi (named_dosFname.mp hn), subdirResult, hfind]
    refine ⟨_, rfl, ⟨fun h => absurd rfl h, ?_⟩, fun o ho => absurd ho (by simp), fun _ => ⟨rfl, habsent⟩⟩
    rintro ⟨o, ho⟩
    exact absurd ho (by simp)

/-! ### Examples -/

/-- The name of the kernel image, as it stands in a directory. -/
def krnlName : Bytes := fun i =>
  ([0x4B, 0x52, 0x4E, 0x4C, 0x20, 0x20, 0x20, 0x20, 0x53, 0x59, 0x53] : List (BitVec 8)).getD i 0

/-- A directory whose second entry is that of the kernel image, at cluster 5. -/
def krnlDisk : Drive :=
  disk [] (List.replicate 32 0x41 ++ (List.range 11).map krnlName ++ [0x20] ++ List.replicate 14 0 ++ [5])

/-- The kernel image is found. -/
theorem root_searches_agree_krnl : ∃ f,
    ((fatParseRootdir krnlDisk (fatMount krnlDisk) default krnlName).run []).1 = some f ∧
      f.flags = fsFile ∧ f.currentCluster = 5 := by
  have hfind : fatFindImage (fatMount krnlDisk) krnlName
      (fatLoadRoot krnlDisk (fatMount krnlDisk) fun _ => 0) = some 32 := by
    rw [fatLoadRoot_eq (show krnlDisk.Reads from Drive.ofImage_reads _)]
    decide +kernel
  obtain ⟨f, hf, -, hsome, -⟩ := root_searches_agree krnlDisk default krnlName (fun _ => 0) []
    (Drive.ofImage_reads _) (by decide +kernel) (by decide +kernel) (by decide +kernel) rfl
  obtain ⟨i, -, -, -, hcluster, -, hflags⟩ := hsome 32 hfind
  refine ⟨f, hf, hflags.trans ?_, hcluster.trans ?_⟩
  · decide +kernel
  · decide +kernel

/-- A disk whose boot sector tells sectors of 1024 bytes, with the kernel image in the eighth sector of
its root directory. -/
def wideDisk : Drive :=
  .ofImage fun n i =>
    if n = 0 then (if i = 12 then 0x04 else bootSector i)
    else if n = 26 then krnlName i
    else 0

/-- There `fat_load_root` copies seven sectors, and the kernel image is found by the other search only. -/
theorem not_root_searches_agree :
    ¬ ∀ (d : Drive) (file : File) (fname buffer : Bytes), d.Reads →
      (bpbOf (d.sector 0)).numRootEntries = 224 → fname 11 = 0 →
      ∃ f, ((fatParseRootdir d (fatMount d) file fname).run []).1 = some f ∧
        (f.flags ≠ fsInvaild ↔
          ∃ o, fatFindImage (fatMount d) fname (fatLoadRoot d (fatMount d) buffer) = some o) := by
  intro hall
  obtain ⟨f, hf, hiff⟩ := hall wideDisk default krnlName (fun _ => 0) (Drive.ofImage_reads _)
    (by decide +kernel) rfl
  have hflags : ((fatParseRootdir wideDisk (fatMount wideDisk) default krnlName).run []).1.map File.flags =
      some fsFile := by
    decide +kernel
  rw [hf, Option.map_some, Option.some.injEq] at hflags
  have hnone : fatFindImage (fatMount wideDisk) krnlName
      (fatLoadRoot wideDisk (fatMount wideDisk) fun _ => 0) = none := by
    rw [fatLoadRoot_eq (show wideDisk.Reads from Drive.ofImage_reads _)]
    decide +kernel
  obtain ⟨o, ho⟩ := hiff.mp (by rw [hflags]; decide)
  rw [hnone] at ho
  exact absurd ho (by simp)

end FanOS.Filesystem
