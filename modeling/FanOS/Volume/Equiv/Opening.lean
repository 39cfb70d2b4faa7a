import FanOS.Filesystem.Equiv.Paths
import FanOS.Filesystem.Equiv.RootSearch
import FanOS.Volume.Equiv.Table

/-!
# What opening a file depends on

Two calls of `vol_open_file` with the same path and the same disk should return the same `FILE`, whatever
is in memory behind the path and on the stack (`OpensAlike`).  They do not: `invalid_file` and
`fat_open_file` return structures of which they have set only the flags, `fat_open_file` looks at a
variable that it has not set if there is a backslash in the path, and `strcpy` does not copy the
terminator of the name.

What is left are names of 32 to 60 characters whose first 11 are those of a file in the root directory
(`opensAlike_iff`): they fill the field `name`, and the flags behind it, which are zero, end the string.
-/

namespace FanOS.Volume

open FloppyDisk Filesystem
open Strings (Bytes strchr strchrLoop IsLength)

variable {d : Drive} {mount : MountInfo} {m : Mem} {p q : BitVec 32} {s : List (BitVec 8)} {k : ℕ}
  {v : Volume} {fat : BitVec 32} {u : Leftovers}

/-! ### Strings in memory -/

/-- A string of the given characters. -/
def string (s : List (BitVec 8)) : Bytes := fun i => s.getD i 0

/-- Two strings are the same, up to and including the terminating zero. -/
def SameString (a b : Bytes) : Prop := ∀ i, (∀ j < i, a j ≠ 0) → a i = b i

/-- The string `s` is at `p`. -/
def HoldsString (m : Mem) (p : BitVec 32) (s : List (BitVec 8)) : Prop :=
  ∀ i ≤ s.length, bytesAt m p i = string s i

/-- The bytes from `p` on are those of the string `s`, and zero behind it, as far as byte `k`. -/
def Spells (m : Mem) (p : BitVec 32) (s : List (BitVec 8)) (k : ℕ) : Prop :=
  ∀ i ≤ max s.length k, bytesAt m p i = string s i

theorem string_of_lt {i : ℕ} (hi : i < s.length) : string s i = s[i] := List.getD_eq_getElem _ _ hi

theorem string_of_le {i : ℕ} (hi : s.length ≤ i) : string s i = 0 := List.getD_eq_default _ _ hi

theorem Spells.isLength (h : Spells m p s k) (hs : ∀ b ∈ s, b ≠ 0) (hlt : s.length < 2 ^ 32) :
    IsLength (bytesAt m p) s.length where
  lt := hlt
  ne_zero i hi := by
    rw [h i (by omega), string_of_lt hi]
    exact hs _ (List.getElem_mem hi)
  terminator := by rw [h _ (by omega), string_of_le le_rfl]

/-- There is no such character in the string. -/
theorem Spells.strchr_eq_none (h : Spells m p s 1) (hs : ∀ b ∈ s, b ≠ 0) (hlt : s.length < 2 ^ 32)
    {c : BitVec 8} (hc : c ≠ 0) (hmem : c ∉ s) : strchr (bytesAt m p) c = some none := by
  have hne : ∀ i ≤ max s.length 1, bytesAt m p i ≠ c := by
    intro i hi
    rw [h i hi]
    rcases Nat.lt_or_ge i s.length with hlt | hge
    · rw [string_of_lt hlt]
      exact fun heq => hmem (heq ▸ List.getElem_mem hlt)
    · rw [string_of_le hge]
      exact hc.symm
  -- the first byte is not looked at for a terminator
  refine Strings.strchrLoop_eq_none (n := max s.length 1) (by omega) (by omega) (fun i _ hi => hne i (by omega))
    (fun i h0 hi => ?_) ?_
  · exact (h.isLength hs hlt).ne_zero i (by omega)
  · rw [h _ le_rfl, string_of_le (by omega)]

/-- The first such character of the string. -/
theorem Spells.strchr_eq_some (h : Spells m p s k) (hs : ∀ b ∈ s, b ≠ 0) (hlt : s.length < 2 ^ 32)
    {c : BitVec 8} (hmem : c ∈ s) : ∃ j, strchr (bytesAt m p) c = some (some j) := by
  have hex : ∃ j, j < s.length ∧ string s j = c := by
    obtain ⟨j, hj, heq⟩ := List.getElem_of_mem hmem
    exact ⟨j, hj, (string_of_lt hj).trans heq⟩
  have hlt' := (Nat.find_spec hex).1
  refine ⟨Nat.find hex, Strings.strchr_eq_some (by omega) (fun i hi heq => ?_) (fun i _ hi => ?_) ?_⟩
  · refine Nat.find_min hex hi ⟨by omega, ?_⟩
    rw [← h i (by omega), heq]
  · exact (h.isLength hs hlt).ne_zero i (by omega)
  · rw [h _ (by omega)]
    exact (Nat.find_spec hex).2

/-! ### The parts of a path -/

/-- The part of a path behind the letter of a device. -/
def nameOf (s : List (BitVec 8)) : List (BitVec 8) := if s[1]? = some 0x3A then s.drop 2 else s

theorem string_one : string s 1 = 0x3A ↔ s[1]? = some 0x3A := by
  rw [string, List.getD_eq_getElem?_getD]
  cases h : s[1]? with
  | none => simp
  | some b => simp

theorem mem_of_mem_nameOf {b : BitVec 8} (hb : b ∈ nameOf s) : b ∈ s := by
  unfold nameOf at hb
  split_ifs at hb
  · exact List.mem_of_mem_drop hb
  · exact hb

theorem length_nameOf_le : (nameOf s).length ≤ s.length := by
  unfold nameOf
  split_ifs
  · rw [List.length_drop]
    omega
  · exact le_rfl

theorem le_length_nameOf : s.length ≤ (nameOf s).length + 2 := by
  unfold nameOf
  split_ifs
  · rw [List.length_drop]
    omega
  · exact Nat.le_add_right _ _

/-- `get_device` looks at two bytes. -/
theorem Spells.getDevice_eq (h : Spells m p s 1) : getDevice (bytesAt m p) = getDevice (string s) := by
  rw [getDevice, getDevice, h 0 (by omega), h 1 (by omega)]

/-- `get_filename` takes a path apart. -/
theorem Spells.nameOf (h : Spells m p s (k + 2)) :
    Spells m (if bytesAt m p 1 = 0x3A then p + 2 else p) (Volume.nameOf s) k := by
  have h1 := h 1 (by omega)
  rw [h1]
  by_cases hcolon : string s 1 = 0x3A
  · have hsome := string_one.mp hcolon
    have hlen : 1 < s.length := (List.getElem?_eq_some_iff.mp hsome).1
    rw [if_pos hcolon, Volume.nameOf, if_pos hsome]
    intro i hi
    rw [List.length_drop] at hi
    have haddr : bytesAt m (p + 2) i = bytesAt m p (i + 2) := by
      rw [bytesAt, bytesAt, BitVec.add_assoc, Nat.add_comm i 2, BitVec.ofNat_add]
      rfl
    rw [haddr, h _ (by omega), string, string, List.getD_eq_getElem?_getD,
      List.getD_eq_getElem?_getD, List.getElem?_drop, Nat.add_comm]
  · rw [if_neg hcolon, Volume.nameOf, if_neg fun hsome => hcolon (string_one.mpr hsome)]
    exact fun i hi => h i (by omega)

/-! ### `fat_open_file` -/

/-- The `FILE` of an entry of the root directory that is a file. -/
def fileFrom (file : File) (s : List (BitVec 8)) (e : Bytes) : File :=
  { file with
    name := fun x => if x < s.length then string s x else file.name x
    id := 0
    currentCluster := (firstCluster e).setWidth 32
    size := filesize e
    atEnd := 0
    flags := fsFile }

/-- What `fat_open_file` returns for a name without a backslash. -/
def openedRoot (d : Drive) (mount : MountInfo) (u : Leftovers) (s : List (BitVec 8)) : File :=
  match rootEntry d mount (string s) with
  | some e => if attrib e = 0x10 then invalidFile u.ret else fileFrom u.file s e
  | none => invalidFile u.ret

/-- It is the `FILE` of an entry, or nothing but its flags is set. -/
theorem openedRoot_cases (d : Drive) (mount : MountInfo) (s : List (BitVec 8)) :
    (∀ u, openedRoot d mount u s = invalidFile u.ret) ∨
      ∃ e, rootEntry d mount (string s) = some e ∧ attrib e ≠ 0x10 ∧
        ∀ u, openedRoot d mount u s = fileFrom u.file s e := by
  unfold openedRoot
  cases hentry : rootEntry d mount (string s) with
  | none => exact Or.inl fun _ => rfl
  | some e =>
    by_cases hdir : attrib e = 0x10
    · exact Or.inl fun _ => if_pos hdir
    · exact Or.inr ⟨e, rfl, hdir, fun _ => if_neg hdir⟩

section Root

variable (h : Spells m p s 11) (hs : ∀ b ∈ s, b ≠ 0) (hlt : s.length < 2 ^ 32)
include h

theorem Spells.dosFname_eq : dosFname (bytesAt m p) = dosFname (string s) := by
  ext i : 1
  rw [dosFname, dosFname]
  split_ifs with hi
  · exact h i (by omega)
  · rfl

include hs hlt

/-- **Without a backslash** the name is looked up in the root directory. -/
theorem Spells.fatOpenFile_root (hmem : backslash ∉ s) (rounds : ℕ) :
    fatOpenFile d mount u.curdir u.ret u.file m p rounds = some (openedRoot d mount u s, m) := by
  have hnone := (show Spells m p s 1 from fun i hi => h i (by omega)).strchr_eq_none hs hlt
    (by decide) hmem
  have hentry : rootEntry d mount (bytesAt m p) = rootEntry d mount (string s) := by
    rw [rootEntry, rootEntry, h.dosFname_eq]
  rw [fatOpenFile, hnone]
  simp only [fatParseRootdir_run, hentry, openedRoot]
  cases rootEntry d mount (string s) with
  | none =>
    rw [subdirResult, Option.map_some, if_neg (show ¬ fsInvaild = fsFile by decide)]
    rfl
  | some e =>
    rw [subdirResult, fileOf_eq (h.isLength hs hlt), Option.map_some]
    simp only
    by_cases hdir : attrib e = 0x10
    · rw [if_pos hdir, if_neg (by decide), if_pos hdir]
      rfl
    · rw [if_neg hdir, if_pos rfl, if_neg hdir, fileFrom]
      congr 3
      ext x : 1
      split_ifs with hx
      · exact h x (by omega)
      · rfl

omit h in
/-- **With a backslash** and an invalid `curdir` an invalid file is returned, if anything is. -/
theorem Spells.fatOpenFile_backslash (h : Spells m p s k) (hmem : backslash ∈ s)
    (hcur : u.curdir.flags = fsInvaild) {rounds : ℕ} {f : File} {m' : Mem}
    (hsome : fatOpenFile d mount u.curdir u.ret u.file m p rounds = some (f, m')) :
    f = invalidFile u.ret := by
  obtain ⟨j, hj⟩ := h.strchr_eq_some hs hlt hmem
  rw [fatOpenFile, hj] at hsome
  cases rounds with
  | zero => exact absurd hsome (by simp [openLoop])
  | succ rounds =>
    simp only [openLoop, openComponent_eq, hcur] at hsome
    split_ifs at hsome with hp
    · exact (Prod.mk.inj (Option.some.inj hsome)).1.symm
    · cases hc : componentLoop pathname (2 ^ 32) m (p + BitVec.ofNat 32 j + 1) 0 with
      | none =>
        rw [hc] at hsome
        exact absurd hsome (by simp)
      | some r =>
        rw [hc] at hsome
        simp only at hsome
        exact (Prod.mk.inj (Option.some.inj hsome)).1.symm

end Root

/-! ### Files that are the same -/

/-- The fields of a `FILE` behind its name. -/
def fields (f : File) : List (BitVec 32) :=
  [f.flags, f.size, f.id, f.atEnd, f.position, f.currentCluster, f.deviceId]

/-- The bytes of a `FILE`: 32 of the name, and then the other fields. -/
def fileBytes (f : File) : Bytes := fun i =>
  if i < 32 then f.name i else ((fields f).getD ((i - 32) / 4) 0).extractLsb' (8 * ((i - 32) % 4)) 8

/-- What `cmd_read` and `vol_read_file` use of two files is the same. -/
structure SameFile (f g : File) : Prop where
  flags : f.flags = g.flags
  atEnd : f.atEnd = g.atEnd
  currentCluster : f.currentCluster = g.currentCluster
  name : SameString (fileBytes f) (fileBytes g)

theorem fileBytes_of_lt (f : File) {i : ℕ} (hi : i < 32) : fileBytes f i = f.name i := if_pos hi

/-- The first byte behind the name of a file is zero. -/
theorem fileBytes_flags {f : File} (hf : f.flags = fsFile) : fileBytes f 32 = 0 := by
  rw [fileBytes, if_neg (by omega)]
  simp only [fields, hf]
  rfl

/-- Files with all of the name set are the same, if their fields are. -/
theorem SameFile.of_name {f g : File} (hf : f.flags = fsFile) (hg : g.flags = fsFile)
    (hend : f.atEnd = g.atEnd) (hcluster : f.currentCluster = g.currentCluster)
    (hname : ∀ i < 32, f.name i = g.name i) : SameFile f g := by
  refine ⟨hf.trans hg.symm, hend, hcluster, fun i hi => ?_⟩
  rcases Nat.lt_trichotomy i 32 with hlt | rfl | hgt
  · rw [fileBytes_of_lt f hlt, fileBytes_of_lt g hlt, hname i hlt]
  · rw [fileBytes_flags hf, fileBytes_flags hg]
  · exact absurd (fileBytes_flags hf) (hi 32 hgt)

/-- The string is cut off where the name that was copied ends. -/
theorem not_sameFile_of_name {f g : File} {n : ℕ} (hn : n < 32) (hne : ∀ i < n, f.name i ≠ 0)
    (hdiffer : f.name n ≠ g.name n) : ¬ SameFile f g := by
  intro h
  have hsame := h.name n fun i hi => by
    rw [fileBytes_of_lt f (by omega)]
    exact hne i hi
  rw [fileBytes_of_lt f hn, fileBytes_of_lt g hn] at hsame
  exact hdiffer hsame

/-! ### The call -/

/-- The table of file systems as `fat_init` leaves it. -/
def Registered (fat : BitVec 32) (v : Volume) : Prop := ∀ j < 26, v.entry j = if j = 0 then fat else 0

/-- Two calls of `vol_open_file` for the path `s` return the same file, whatever is in memory behind the
path and in variables that are not set. -/
def OpensAlike (d : Drive) (fat : BitVec 32) (s : List (BitVec 8)) : Prop :=
  ∀ (p : BitVec 32) (v v' : Volume) (u u' : Leftovers), p ≠ 0 → Registered fat v → Registered fat v' →
    HoldsString v.mem p s → HoldsString v'.mem p s →
    ∃ r f r' f', volOpenFileFat d fat v u p r = some f ∧ volOpenFileFat d fat v' u' p r' = some f' ∧
      SameFile f f'

/-- The path leads to device `a`, and there to a file in the root directory whose name fills the field of
the `FILE` but not more than the `FILE`. -/
structure Determined (d : Drive) (s : List (BitVec 8)) : Prop where
  device : getDevice (string s) = 0x61
  root : backslash ∉ nameOf s
  length : 32 ≤ (nameOf s).length ∧ (nameOf s).length ≤ 60
  found : ∃ e, rootEntry d (fatMount d) (string (nameOf s)) = some e ∧ attrib e ≠ 0x10

/-- The call leads to no file system. -/
theorem volOpenFileFat_of_zero (hp : p ≠ 0)
    (hsystem : (v.load ((getDevice (bytesAt v.mem p)).setWidth 32 - 0x61)).1 = 0) (rounds : ℕ) :
    volOpenFileFat d fat v u p rounds = some (invalidFile u.invalid) := by
  rw [volOpenFileFat, if_neg hp]
  simp only [hsystem]
  rw [if_pos trivial]

/-- The call leads to `fat_open_file`. -/
theorem volOpenFileFat_of_fat (hp : p ≠ 0) (hfat : fat ≠ 0)
    (hsystem : (v.load ((getDevice (bytesAt v.mem p)).setWidth 32 - 0x61)).1 = fat) (rounds : ℕ) :
    volOpenFileFat d fat v u p rounds =
      (fatOpenFile d (fatMount d) u.curdir u.ret u.file v.mem
        (if bytesAt v.mem p 1 = 0x3A then p + 2 else p) rounds).bind fun r =>
        if r.1.flags = fsFile ∧ Overruns (bytesAt v.mem (if bytesAt v.mem p 1 = 0x3A then p + 2 else p))
          then none
        else some { r.1 with deviceId := (getDevice (bytesAt v.mem p)).setWidth 32 } := by
  rw [volOpenFileFat, if_neg hp]
  simp only [hsystem]
  rw [if_neg hfat, if_pos trivial]

/-- A file system that opens what `fat_open_file` does for the path at `p`. -/
def fatFileSystem (d : Drive) (v : Volume) (u : Leftovers) (p : BitVec 32) (rounds : ℕ) : FileSystem where
  read file buffer := (file, buffer)
  close file := file
  openFile _ :=
    ((fatOpenFile d (fatMount d) u.curdir u.ret u.file v.mem
      (if bytesAt v.mem p 1 = 0x3A then p + 2 else p) rounds).map Prod.fst).getD default

/-- It is the call of `vol_open_file` with such file systems. -/
theorem volOpenFile_eq_of_fat {rounds : ℕ} {f : File} (hp : p ≠ 0)
    (hsome : volOpenFileFat d fat v u p rounds = some f) :
    (volOpenFile (fun _ => fatFileSystem d v u p rounds) u.invalid v (some (bytesAt v.mem p))).1 = f := by
  rw [volOpenFile, volOpenFileImpl]
  by_cases h0 : (v.load ((getDevice (bytesAt v.mem p)).setWidth 32 - 0x61)).1 = 0
  · rw [volOpenFileFat_of_zero hp h0] at hsome
    simp only [h0, if_true]
    exact Option.some.inj hsome
  · by_cases hfat : (v.load ((getDevice (bytesAt v.mem p)).setWidth 32 - 0x61)).1 = fat
    · have hfat0 : fat ≠ 0 := fun h => h0 (hfat.trans h)
      rw [volOpenFileFat_of_fat hp hfat0 hfat] at hsome
      obtain ⟨r, hopen, hresult⟩ := Option.bind_eq_some_iff.mp hsome
      simp only [hfat, fatFileSystem, hopen, Option.map_some, Option.getD_some]
      rw [if_neg hfat0]
      by_cases hover : r.1.flags = fsFile ∧
          Overruns (bytesAt v.mem (if bytesAt v.mem p 1 = 0x3A then p + 2 else p))
      · rw [if_pos hover] at hresult
        exact absurd hresult (by simp)
      · rw [if_neg hover] at hresult
        exact Option.some.inj hresult
    · rw [volOpenFileFat, if_neg hp] at hsome
      simp only [h0, if_false, hfat] at hsome
      exact absurd hsome (by simp)

/-- Device `a` is the first one. -/
theorem load_device_a (hv : Registered fat v) {device : BitVec 8} (ha : device = 0x61) :
    (v.load (device.setWidth 32 - 0x61)).1 = fat := by
  rw [ha]
  exact hv 0 (by omega)

theorem Spells.overruns_iff (h : Spells m p s k) (hs : ∀ b ∈ s, b ≠ 0) (hlt : s.length < 2 ^ 32) :
    Overruns (bytesAt m p) ↔ 60 < s.length := by
  constructor
  · intro hover
    by_contra hle
    exact hover s.length (by omega) (h.isLength hs hlt).terminator
  · exact fun hlong i hi => (h.isLength hs hlt).ne_zero i (by omega)

section Path

variable (hp : p ≠ 0) (hfat : fat ≠ 0) (hs : ∀ b ∈ s, b ≠ 0) (hfits : s.length < 2 ^ 32)
  (h : Spells v.mem p s 1)
  (hname : Spells v.mem (if bytesAt v.mem p 1 = 0x3A then p + 2 else p) (nameOf s) 11)
include hp hfat hs hfits h hname

/-- **A name in the root directory** is looked up there. -/
theorem volOpenFileFat_root
    (hsystem : (v.load ((getDevice (bytesAt v.mem p)).setWidth 32 - 0x61)).1 = fat)
    (hroot : backslash ∉ nameOf s) (rounds : ℕ) :
    volOpenFileFat d fat v u p rounds =
      if (openedRoot d (fatMount d) u (nameOf s)).flags = fsFile ∧ 60 < (nameOf s).length then none
      else some { openedRoot d (fatMount d) u (nameOf s) with
        deviceId := (getDevice (string s)).setWidth 32 } := by
  have hs' : ∀ b ∈ nameOf s, b ≠ 0 := fun b hb => hs b (mem_of_mem_nameOf hb)
  have hle := length_nameOf_le (s := s)
  rw [volOpenFileFat_of_fat hp hfat hsystem, hname.fatOpenFile_root hs' (by omega) hroot,
    Option.bind_some, h.getDevice_eq]
  simp only [hname.overruns_iff hs' (by omega)]

/-- **A file of the root directory of device `a`** is opened. -/
theorem volOpenFileFat_found (hv : Registered fat v) (ha : getDevice (string s) = 0x61)
    (hroot : backslash ∉ nameOf s) (hlen : (nameOf s).length ≤ 60) {e : Bytes}
    (he : rootEntry d (fatMount d) (string (nameOf s)) = some e) (hfile : attrib e ≠ 0x10)
    (rounds : ℕ) :
    volOpenFileFat d fat v u p rounds =
      some { fileFrom u.file (nameOf s) e with deviceId := 0x61 } := by
  have hopened : openedRoot d (fatMount d) u (nameOf s) = fileFrom u.file (nameOf s) e := by
    rw [openedRoot, he]
    simp only
    rw [if_neg hfile]
  have hsystem := load_device_a hv (h.getDevice_eq.trans ha)
  rw [volOpenFileFat_root hp hfat hs hfits h hname hsystem hroot, hopened, if_neg (by omega), ha]
  rfl

omit h in
/-- **A path with a backslash**: with an invalid `curdir` the call returns a file of which only the flags
are set, if it returns. -/
theorem volOpenFileFat_backslash
    (hsystem : (v.load ((getDevice (bytesAt v.mem p)).setWidth 32 - 0x61)).1 = fat)
    (hroot : backslash ∈ nameOf s) (hcur : u.curdir.flags = fsInvaild) {rounds : ℕ} {f : File}
    (hsome : volOpenFileFat d fat v u p rounds = some f) : f.atEnd = u.ret.atEnd := by
  have hs' : ∀ b ∈ nameOf s, b ≠ 0 := fun b hb => hs b (mem_of_mem_nameOf hb)
  have hle := length_nameOf_le (s := s)
  rw [volOpenFileFat_of_fat hp hfat hsystem] at hsome
  obtain ⟨⟨f₀, m'⟩, hopen, hresult⟩ := Option.bind_eq_some_iff.mp hsome
  obtain rfl := Spells.fatOpenFile_backslash hs' (by omega) hname hroot hcur hopen
  rw [if_neg fun hc => absurd hc.1 (show ¬ fsInvaild = fsFile by decide)] at hresult
  rw [← Option.some.inj hresult]
  rfl

end Path

/-- Two such calls open the same file. -/
theorem Determined.opensAlike (hd : Determined d s) (hfat : fat ≠ 0) (hs : ∀ b ∈ s, b ≠ 0) :
    OpensAlike d fat s := by
  intro p v v' u u' hp hv hv' hm hm'
  obtain ⟨hlow, hhigh⟩ := hd.length
  obtain ⟨e, hentry, hfile⟩ := hd.found
  have hle := length_nameOf_le (s := s)
  have hfits : s.length < 2 ^ 32 := by
    have hge := le_length_nameOf (s := s)
    omega
  have hspells : ∀ {m} k, k ≤ 32 → HoldsString m p s → Spells m p s k := fun k hk hm i hi =>
    hm i (by omega)
  have hcall : ∀ {v : Volume} {u : Leftovers}, Registered fat v → HoldsString v.mem p s →
      volOpenFileFat d fat v u p 0 =
        some { fileFrom u.file (nameOf s) e with deviceId := 0x61 } := fun hv hm =>
    volOpenFileFat_found hp hfat hs hfits (hspells 1 (by omega) hm) (hspells 13 (by omega) hm).nameOf
      hv hd.device hd.root hhigh hentry hfile 0
  refine ⟨0, _, 0, _, hcall hv hm, hcall hv' hm', SameFile.of_name rfl rfl rfl rfl fun i hi => ?_⟩
  simp only [fileFrom]
  rw [if_pos (by omega), if_pos (by omega)]

/-! ### Two states with different leftovers -/

/-- Memory with the path at `0x1000`, the table of file systems at `0xC0000000` and zeros elsewhere. -/
def pathMem (fat : BitVec 32) (s : List (BitVec 8)) : Mem :=
  Mem.store32 (fun x => string s (x - 0x1000).toNat) 0xC0000000 fat

/-- A volume manager with that memory. -/
def pathVolume (fat : BitVec 32) (s : List (BitVec 8)) : Volume := ⟨pathMem fat s, 0xC0000000, []⟩

/-- Variables that hold the given number in `end` and in the name, and are invalid. -/
def leftovers (b : BitVec 8) : Leftovers :=
  let f : File := ⟨fun _ => b, fsInvaild, 0, 0, b.setWidth 32, 0, 0, 0⟩
  ⟨f, f, f, f⟩

section Witness

variable (fat) (hfits : s.length < 2 ^ 31)

theorem bytesAt_pathMem {i : ℕ} (hi : i < 2 ^ 31) : bytesAt (pathMem fat s) 0x1000 i = string s i := by
  have hoffset : (0x1000 + BitVec.ofNat 32 i - 0x1000).toNat = i := by bv_omega
  rw [bytesAt, pathMem, Mem.store32_apply, if_neg (by bv_omega), hoffset]

include hfits

theorem load_pathVolume (device : BitVec 8) :
    ((pathVolume fat s).load (device.setWidth 32 - 0x61)).1 = if device = 0x61 then fat else 0 := by
  have hload : ((pathVolume fat s).load (device.setWidth 32 - 0x61)).1 =
      (pathMem fat s).load32 (0xC0000000 + 4 * (device.setWidth 32 - 0x61)) := rfl
  rw [hload, pathMem]
  split_ifs with ha
  · rw [ha]
    exact Mem.load32_store32_self _ _ _
  · have hne : (device.setWidth 32).toNat ≠ 0x61 := by
      rw [BitVec.toNat_setWidth_of_le (by omega)]
      exact fun h => ha (BitVec.eq_of_toNat_eq h)
    have hlt : (device.setWidth 32).toNat < 256 := by
      rw [BitVec.toNat_setWidth_of_le (by omega)]
      exact device.isLt
    generalize device.setWidth 32 = x at hne hlt ⊢
    -- the word is neither the entry of device `a` nor in the path
    rw [Mem.load32_store32_of_apart _ _ (by unfold Mem.Apart; constructor <;> bv_omega)]
    have hzero : ∀ i < 4, string s (0xC0000000 + 4 * (x - 0x61) + BitVec.ofNat 32 i - 0x1000).toNat = 0 :=
      fun i hi => string_of_le (by bv_omega)
    have hcongr : Mem.load32 (fun x => string s (x - 0x1000).toNat) (0xC0000000 + 4 * (x - 0x61)) =
        Mem.load32 (fun _ => 0) (0xC0000000 + 4 * (x - 0x61)) := Mem.load32_congr hzero
    rw [hcongr, Mem.load32]
    decide

theorem registered_pathVolume : Registered fat (pathVolume fat s) := by
  intro j hj
  have hentry := load_pathVolume fat hfits (BitVec.ofNat 8 (0x61 + j))
  have hindex : (BitVec.ofNat 8 (0x61 + j)).setWidth 32 - 0x61 = BitVec.ofNat 32 j := by
    apply BitVec.eq_of_toNat_eq
    rw [BitVec.toNat_sub, BitVec.toNat_setWidth_of_le (by omega), BitVec.toNat_ofNat,
      BitVec.toNat_ofNat, show (0x61 : BitVec 32).toNat = 0x61 from rfl]
    omega
  rw [hindex] at hentry
  refine hentry.trans (if_congr ⟨fun h => ?_, fun h => ?_⟩ rfl rfl)
  · have hval := congrArg BitVec.toNat h
    rw [BitVec.toNat_ofNat, show (0x61 : BitVec 8).toNat = 0x61 from rfl] at hval
    omega
  · rw [h]
    rfl

/-- A path of less than 2 GiB is in memory then. -/
theorem exists_state : ∃ p v, p ≠ 0 ∧ Registered fat v ∧ HoldsString v.mem p s :=
  ⟨0x1000, pathVolume fat s, by decide, registered_pathVolume fat hfits, fun _ hi =>
    bytesAt_pathMem fat (Nat.lt_of_le_of_lt hi hfits)⟩

end Witness

/-! ### What makes the calls alike -/

/-- A path in memory is not as long as memory. -/
theorem HoldsString.length_lt (h : HoldsString m p s) (hs : ∀ b ∈ s, b ≠ 0) : s.length < 2 ^ 32 := by
  by_contra hge
  -- the terminator would be one of the characters, once around
  have hlt : s.length - 2 ^ 32 < s.length := by omega
  have haddr : BitVec.ofNat 32 s.length = BitVec.ofNat 32 (s.length - 2 ^ 32) := by
    apply BitVec.eq_of_toNat_eq
    rw [BitVec.toNat_ofNat, BitVec.toNat_ofNat]
    omega
  have hend := h s.length le_rfl
  have hchar := h (s.length - 2 ^ 32) (by omega)
  rw [string_of_le le_rfl, bytesAt, haddr] at hend
  rw [string_of_lt hlt] at hchar
  exact hs _ (List.getElem_mem hlt) (hchar.symm.trans hend)

/-- Calls that open the same file, with one and with the other leftovers, lead to the file system, and
there to a file in the root directory. -/
theorem OpensAlike.found (hopens : OpensAlike d fat s) (hfat : fat ≠ 0) (hs : ∀ b ∈ s, b ≠ 0)
    (hp : p ≠ 0) (hv : Registered fat v) (hholds : HoldsString v.mem p s) (h : Spells v.mem p s 1)
    (hname : Spells v.mem (if bytesAt v.mem p 1 = 0x3A then p + 2 else p) (nameOf s) 11) :
    (v.load ((getDevice (bytesAt v.mem p)).setWidth 32 - 0x61)).1 = fat ∧ backslash ∉ nameOf s ∧
      (32 ≤ (nameOf s).length ∧ (nameOf s).length ≤ 60) ∧
      ∃ e, rootEntry d (fatMount d) (string (nameOf s)) = some e ∧ attrib e ≠ 0x10 := by
  have hfits := hholds.length_lt hs
  obtain ⟨r, f, r', f', hf, hf', hsame⟩ := hopens p v v (leftovers 0) (leftovers 1) hp hv hv hholds hholds
  -- a file of which only the flags are set tells the two calls apart
  have hdiffer : ∀ {g g' : File}, g.atEnd = 0 → g'.atEnd = 1 → ¬ SameFile g g' := fun h0 h1 h =>
    absurd (h0.symm.trans (h.atEnd.trans h1)) (by decide)
  have hsystem : (v.load ((getDevice (bytesAt v.mem p)).setWidth 32 - 0x61)).1 = fat := by
    by_contra hother
    by_cases hzero : (v.load ((getDevice (bytesAt v.mem p)).setWidth 32 - 0x61)).1 = 0
    · rw [volOpenFileFat_of_zero hp hzero] at hf hf'
      exact hdiffer (by rw [← Option.some.inj hf]; rfl) (by rw [← Option.some.inj hf']; rfl) hsame
    · rw [volOpenFileFat, if_neg hp] at hf
      simp only [hzero, if_false, hother] at hf
      exact absurd hf (by simp)
  have hroot : backslash ∉ nameOf s := fun hback =>
    hdiffer (volOpenFileFat_backslash hp hfat hs hfits hname hsystem hback rfl hf)
      (volOpenFileFat_backslash hp hfat hs hfits hname hsystem hback rfl hf') hsame
  refine ⟨hsystem, hroot, ?_⟩
  rw [volOpenFileFat_root hp hfat hs hfits h hname hsystem hroot] at hf hf'
  rcases openedRoot_cases d (fatMount d) (nameOf s) with hnone | ⟨e, hentry, hfile, hopened⟩
  · rw [hnone, if_neg fun hc => absurd hc.1 (show ¬ fsInvaild = fsFile by decide)] at hf hf'
    exact absurd hsame
      (hdiffer (by rw [← Option.some.inj hf]; rfl) (by rw [← Option.some.inj hf']; rfl))
  · have hshort : ¬ 60 < (nameOf s).length := by
      intro hlong
      rw [hopened, if_pos ⟨rfl, hlong⟩] at hf
      exact absurd hf (by simp)
    rw [hopened, if_neg fun hc => hshort hc.2] at hf hf'
    refine ⟨⟨?_, by omega⟩, e, hentry, hfile⟩
    -- a shorter name ends with what the variable holds there
    by_contra hlow
    refine not_sameFile_of_name (n := (nameOf s).length) (by omega) (fun i hi => ?_) ?_ hsame
    · rw [← Option.some.inj hf]
      simp only [fileFrom]
      rw [if_pos hi, string_of_lt hi]
      exact hs _ (mem_of_mem_nameOf (List.getElem_mem hi))
    · rw [← Option.some.inj hf, ← Option.some.inj hf']
      simp only [fileFrom, lt_self_iff_false, if_false]
      exact (by decide : (0 : BitVec 8) ≠ 1)

/-- Such a path is determined. -/
theorem OpensAlike.determined (hopens : OpensAlike d fat s) (hfat : fat ≠ 0) (hs : ∀ b ∈ s, b ≠ 0)
    (hstate : ∃ p v, p ≠ 0 ∧ Registered fat v ∧ HoldsString v.mem p s) : Determined d s := by
  have hge := le_length_nameOf (s := s)
  by_cases hfits : s.length < 2 ^ 31
  · -- in memory with zeros behind the path
    have hmem : ∀ i < 2 ^ 31, bytesAt (pathVolume fat s).mem 0x1000 i = string s i := fun i hi =>
      bytesAt_pathMem fat hi
    have hspells : ∀ k ≤ 13, Spells (pathVolume fat s).mem 0x1000 s k := fun k hk i hi =>
      hmem i (by omega)
    obtain ⟨hsystem, hroot, hlength, hfound⟩ := hopens.found hfat hs (by decide)
      (registered_pathVolume fat hfits) (fun i hi => hmem i (by omega)) (hspells 1 (by omega))
      (hspells 13 (by omega)).nameOf
    rw [load_pathVolume fat hfits, (hspells 1 (by omega)).getDevice_eq] at hsystem
    refine ⟨?_, hroot, hlength, hfound⟩
    by_contra hother
    rw [if_neg hother] at hsystem
    exact hfat hsystem.symm
  · -- a longer name does not fit in a `FILE`
    obtain ⟨p, v, hp, hv, hholds⟩ := hstate
    have hspells : ∀ k ≤ 13, Spells v.mem p s k := fun k hk i hi => hholds i (by omega)
    obtain ⟨-, -, hlength, -⟩ := hopens.found hfat hs hp hv hholds (hspells 1 (by omega))
      (hspells 13 (by omega)).nameOf
    omega

/-- **Opening a file depends on the path and the disk only** if and only if the path is one of those for
which the whole name is set. -/
theorem opensAlike_iff (d : Drive) (fat : BitVec 32) (s : List (BitVec 8)) (hfat : fat ≠ 0)
    (hs : ∀ b ∈ s, b ≠ 0) (hstate : ∃ p v, p ≠ 0 ∧ Registered fat v ∧ HoldsString v.mem p s) :
    OpensAlike d fat s ↔ Determined d s :=
  ⟨fun hopens => hopens.determined hfat hs hstate, fun hd => hd.opensAlike hfat hs⟩

/-- The path that `cmd_read` opens. -/
def krnlPath : List (BitVec 8) := [0x4B, 0x52, 0x4E, 0x4C, 0x20, 0x20, 0x20, 0x20, 0x53, 0x59, 0x53]

/-- The same with 21 more characters. -/
def longPath : List (BitVec 8) := krnlPath ++ List.replicate 21 0x41

theorem determined_longPath : Determined krnlDisk longPath := by
  refine ⟨by decide, by decide, by decide, ?_⟩
  have hfound : (rootEntry krnlDisk (fatMount krnlDisk) (string (nameOf longPath))).map attrib =
      some 0x20 := by
    decide +kernel
  obtain ⟨e, he, hattrib⟩ := Option.map_eq_some_iff.mp hfound
  exact ⟨e, he, by rw [hattrib]; decide⟩

/-- It is opened alike in all states, so `vol_open_file` returns the same file with one and with other
leftovers. -/
theorem opensAlike_longPath :
    OpensAlike krnlDisk 4 longPath ∧ ∃ r r',
      let v := pathVolume 4 longPath
      let opened (u : Leftovers) (rounds : ℕ) : File :=
        (volOpenFile (fun _ => fatFileSystem krnlDisk v u 0x1000 rounds) u.invalid v
          (some (bytesAt v.mem 0x1000))).1
      SameFile (opened (leftovers 0) r) (opened (leftovers 1) r') := by
  have hfits : longPath.length < 2 ^ 31 := by decide
  have hv := registered_pathVolume 4 hfits
  have hholds : HoldsString (pathVolume 4 longPath).mem 0x1000 longPath := fun _ hi =>
    bytesAt_pathMem 4 (Nat.lt_of_le_of_lt hi hfits)
  have hopens : OpensAlike krnlDisk 4 longPath :=
    (opensAlike_iff krnlDisk 4 longPath (by decide) (by decide) (exists_state 4 hfits)).mpr
      determined_longPath
  obtain ⟨r, f, r', f', hf, hf', hsame⟩ := hopens 0x1000 _ _ (leftovers 0) (leftovers 1) (by decide) hv hv
    hholds hholds
  refine ⟨hopens, r, r', ?_⟩
  dsimp only
  rwa [volOpenFile_eq_of_fat (by decide) hf, volOpenFile_eq_of_fat (by decide) hf']

/-- The path that `cmd_read` opens is not: its name has 11 characters. -/
theorem not_opensAlike_krnl :
    ¬ ∀ (d : Drive) (fat : BitVec 32) (s : List (BitVec 8)), fat ≠ 0 → (∀ b ∈ s, b ≠ 0) →
      (∃ p v, p ≠ 0 ∧ Registered fat v ∧ HoldsString v.mem p s) → OpensAlike d fat s := by
  intro hall
  have hstate := exists_state 4 (s := krnlPath) (by decide)
  have hopens := hall krnlDisk 4 krnlPath (by decide) (by decide) hstate
  have hlow := (hopens.determined (by decide) (by decide) hstate).length.1
  exact absurd hlow (by decide)

end FanOS.Volume
