import FanOS.Filesystem.Equiv.Requests
import FanOS.Filesystem.Equiv.Termination

/-!
# Paths

`Resolves` says what a path is to lead to: its first component is looked up in the root directory and
every other one in the directory found for the one before, up to the first that is a file.  The
functions of the file system do look names up that way (`fatParseRootdir_run`,
`exists_fatParseSubdir_of_finds`).

`fat_open_file` does not call them for a path with a backslash: it copies the components to a null
pointer, and calls them only if that is not null.  What it returns is decided by the bytes that its
variable `curdir` happens to hold (`opensPath_iff`).
-/

namespace FanOS.Filesystem

open FloppyDisk Strings

variable {d : Drive} {mount : MountInfo} {curdir ret file : File}

/-! ### Looking a path up -/

/-- A component of a path, an 11-character name. -/
structure Component where
  char : Fin 11 → BitVec 8
  ne_backslash : ∀ i, char i ≠ backslash
  ne_zero : ∀ i, char i ≠ 0

/-- The string of a component. -/
def Component.string (c : Component) : Bytes := fun i => if h : i < 11 then c.char ⟨i, h⟩ else 0

/-- A path leads to the entry `e` of the component `c`, if names are looked up by `look` first. -/
inductive Resolves (d : Drive) (mount : MountInfo) :
    (Bytes → Bytes → Prop) → List Component → Component → Bytes → Prop
  | file {look : Bytes → Bytes → Prop} {c : Component} {cs : List Component} {e : Bytes}
      (h : look c.string e) (hfile : attrib e ≠ 0x10) : Resolves d mount look (c :: cs) c e
  | directory {look : Bytes → Bytes → Prop} {c c' : Component} {cs : List Component} {e e' : Bytes}
      (h : look c.string e) (hdir : attrib e = 0x10)
      (hrest : Resolves d mount (fun name => Finds d mount (dosFname name) (firstCluster e).toNat) cs
        c' e') :
      Resolves d mount look (c :: cs) c' e'

/-- A path leads to an entry, from the root directory on. -/
def LeadsTo (d : Drive) (mount : MountInfo) (cs : List Component) (c : Component) (e : Bytes) : Prop :=
  Resolves d mount (fun fname e => rootEntry d mount fname = some e) cs c e

/-! ### A path in memory -/

/-- The path `\\c1\\c2…` of the components `cs` is a string at `path`. -/
structure HoldsPath (m : Mem) (path : BitVec 32) (cs : List Component) : Prop where
  fits : path.toNat + 12 * cs.length < 2 ^ 32
  backslash : ∀ j < cs.length, m (path + .ofNat 32 (12 * j)) = backslash
  char : ∀ j (h : j < cs.length) i, i < 11 → m (path + .ofNat 32 (12 * j + 1 + i)) = cs[j].string i
  terminator : m (path + .ofNat 32 (12 * cs.length)) = 0

variable {m : Mem} {path : BitVec 32} {cs : List Component}

/-- A byte that ends a component. -/
def Delimits (b : BitVec 8) : Prop := b = backslash ∨ b = 0

theorem Component.not_delimits (c : Component) {i : ℕ} (hi : i < 11) : ¬ Delimits (c.string i) := by
  rw [string, dif_pos hi]
  exact not_or.mpr ⟨c.ne_backslash _, c.ne_zero _⟩

namespace HoldsPath

/-- The path does not wrap around. -/
theorem toNat_add (h : HoldsPath m path cs) {n : ℕ} (hn : n ≤ 12 * cs.length) :
    (path + .ofNat 32 n).toNat = path.toNat + n := by
  have := h.fits
  rw [BitVec.toNat_add, BitVec.toNat_ofNat]
  omega

/-- What follows a component. -/
theorem delimits (h : HoldsPath m path cs) {j : ℕ} (hj : j < cs.length) :
    Delimits (m (path + .ofNat 32 (12 * (j + 1)))) := by
  rcases Nat.lt_or_eq_of_le (Nat.succ_le_of_lt hj) with hlt | heq
  · exact Or.inl (h.backslash _ hlt)
  · rw [show j + 1 = cs.length from heq]
    exact Or.inr h.terminator

end HoldsPath

/-- The loop over the characters of a component writes them from `pathname + i` on. -/
theorem componentLoop_eq {n k : ℕ} (hk : n < k) {m : Mem} {p i : BitVec 32}
    (hp : p.toNat + n < 2 ^ 32) (hi : i.toNat < p.toNat)
    (hchars : ∀ j < n, ¬ Delimits (m (p + .ofNat 32 j))) (hend : Delimits (m (p + .ofNat 32 n))) :
    ∃ m', componentLoop pathname k m p i = some (m', p + .ofNat 32 n) ∧
      (∀ x, x.toNat < i.toNat ∨ i.toNat + n ≤ x.toNat → m' x = m x) ∧
      ∀ x, i.toNat ≤ x.toNat → x.toNat < i.toNat + n → ¬ Delimits (m' x) := by
  have hzero : pathname + i = i := BitVec.zero_add i
  induction n generalizing k m p i with
  | zero =>
    obtain ⟨k, rfl⟩ : ∃ k', k = k' + 1 := ⟨k - 1, by omega⟩
    have hdelim : Delimits (m p) := by simpa using hend
    refine ⟨m, ?_, fun _ _ => rfl, fun x h1 h2 => by omega⟩
    rw [componentLoop, if_neg (fun h => hdelim.elim h.1 h.2)]
    simp
  | succ n ih =>
    obtain ⟨k, rfl⟩ : ∃ k', k = k' + 1 := ⟨k - 1, by omega⟩
    have hfirst : ¬ Delimits (m p) := by simpa using hchars 0 (by omega)
    have hgo : m p ≠ backslash ∧ m p ≠ 0 := not_or.mp hfirst
    have hp1 : (p + 1).toNat = p.toNat + 1 := by bv_omega
    have hi1 : (i + 1).toNat = i.toNat + 1 := by bv_omega
    -- the write is in front of what is still to be read
    have hread : ∀ j ≤ n, (m.store8 i (m p)) (p + 1 + .ofNat 32 j) = m (p + .ofNat 32 (j + 1)) := by
      intro j hj
      rw [add_one_add_ofNat, Mem.store8_apply, if_neg]
      intro heq
      have := congrArg BitVec.toNat heq
      rw [BitVec.toNat_add, BitVec.toNat_ofNat] at this
      omega
    obtain ⟨m', hloop, hframe, hcopied⟩ := ih (k := k) (by omega) (m := m.store8 i (m p)) (p := p + 1)
      (i := i + 1) (by omega) (by omega) (fun j hj => by rw [hread j (by omega)]; exact hchars _ (by omega))
      (by rw [hread n (Nat.le_refl n)]; exact hend) (BitVec.zero_add _)
    refine ⟨m', ?_, fun x hx => ?_, fun x h1 h2 => ?_⟩
    · rw [componentLoop, if_pos hgo, hzero, hloop, add_one_add_ofNat]
    · rw [hframe x (by omega), Mem.store8_apply, if_neg]
      rintro rfl
      omega
    · by_cases hx : x = i
      · rw [hframe x (by rw [hx]; omega), Mem.store8_apply, if_pos hx]
        exact hfirst
      · have hne : x.toNat ≠ i.toNat := fun h => hx (BitVec.eq_of_toNat_eq h)
        exact hcopied x (by omega) (by omega)

/-- A component is copied to the first bytes of memory. -/
theorem HoldsPath.componentLoop (h : HoldsPath m path cs) {j : ℕ} (hj : j < cs.length) :
    ∃ m', componentLoop pathname (2 ^ 32) m (path + .ofNat 32 (12 * j + 1)) 0 =
        some (m', path + .ofNat 32 (12 * (j + 1))) ∧
      (∀ x : BitVec 32, 11 ≤ x.toNat → m' x = m x) ∧
      ∀ x : BitVec 32, x.toNat < 11 → ¬ Delimits (m' x) := by
  have hfits := h.fits
  have hp := h.toNat_add (n := 12 * j + 1) (by omega)
  have hadd : ∀ i, path + .ofNat 32 (12 * j + 1) + .ofNat 32 i = path + .ofNat 32 (12 * j + 1 + i) :=
    fun i => by rw [BitVec.add_assoc, ← BitVec.ofNat_add]
  obtain ⟨m', hloop, hframe, hcopied⟩ := componentLoop_eq (n := 11) (k := 2 ^ 32) (by omega) (m := m)
    (p := path + .ofNat 32 (12 * j + 1)) (i := 0) (by omega) (by rw [hp]; simp)
    (fun i hi => by
      rw [hadd, h.char j hj i hi]
      exact cs[j].not_delimits hi)
    (by
      rw [hadd]
      exact h.delimits hj)
  rw [hadd] at hloop
  exact ⟨m', hloop, fun x hx => hframe x (Or.inr (by simpa using hx)),
    fun x hx => hcopied x (by simp) (by simpa using hx)⟩

/-! ### `fat_open_file` -/

/-- No name is looked up, as `pathname` is null. -/
theorem openComponent_eq (rounds : ℕ) (s : OpenState) :
    openComponent d mount file rounds s = some s := by
  rw [openComponent, if_neg (fun h => h.2 rfl), if_neg (fun h => h rfl)]

variable (d mount ret file) in
/-- A round of the loop of `fat_open_file`, at component `j` of the path. -/
theorem exists_openLoop_eq {s : OpenState} (h : HoldsPath s.mem path cs) {j : ℕ} (hj : j < cs.length)
    (hp : s.p = path + .ofNat 32 (12 * j + 1)) (k : ℕ) :
    ∃ m', (∀ x : BitVec 32, 11 ≤ x.toNat → m' x = s.mem x) ∧
      (∀ x : BitVec 32, x.toNat < 11 → ¬ Delimits (m' x)) ∧
      (s.curdir.flags = fsInvaild →
        openLoop d mount file ret (k + 1) s = some ({ ret with flags := fsInvaild }, m')) ∧
      (s.curdir.flags = fsFile → openLoop d mount file ret (k + 1) s = some (s.curdir, m')) ∧
      ∀ q, s.curdir.flags ≠ fsInvaild → s.curdir.flags ≠ fsFile →
        strchr (bytesAt m' (path + .ofNat 32 (12 * (j + 1)))) backslash = some (some q) →
        openLoop d mount file ret (k + 1) s = openLoop d mount file ret k
          { s with mem := m', p := path + .ofNat 32 (12 * (j + 1)) + .ofNat 32 q + 1 } := by
  obtain ⟨m', hloop, hframe, hcopied⟩ := h.componentLoop hj
  -- the loop ends only at a null pointer, and the path is not at address 0
  have hne : s.p ≠ 0 := by
    intro h0
    have hto := h.toNat_add (n := 12 * j + 1) (by omega)
    rw [← hp, h0, show BitVec.toNat (0 : BitVec 32) = 0 from rfl] at hto
    omega
  rw [openLoop, if_neg hne, hp, hloop]
  simp only [openComponent_eq]
  refine ⟨m', hframe, hcopied, fun hinvalid => if_pos hinvalid, fun hfile => ?_,
    fun q hinvalid hfile hstr => ?_⟩
  · have hinvalid : s.curdir.flags ≠ fsInvaild := by
      rw [hfile]
      decide
    rw [if_neg hinvalid, if_pos hfile]
  · simp only [if_neg hinvalid, if_neg hfile, hstr]

/-- What is written to the first bytes of memory does not change a path elsewhere. -/
theorem HoldsPath.congr {m' : Mem} (h : HoldsPath m path cs) (hpath : 11 ≤ path.toNat)
    (hframe : ∀ x : BitVec 32, 11 ≤ x.toNat → m' x = m x) : HoldsPath m' path cs where
  fits := h.fits
  backslash j hj := by
    rw [hframe _ (by rw [h.toNat_add (by omega)]; omega), h.backslash j hj]
  char j hj i hi := by
    rw [hframe _ (by rw [h.toNat_add (by omega)]; omega), h.char j hj i hi]
  terminator := by
    rw [hframe _ (by rw [h.toNat_add (by omega)]; omega), h.terminator]

/-- A path in memory whose other bytes do not end components. -/
structure Alone (m : Mem) (path : BitVec 32) (cs : List Component) : Prop extends
    HoldsPath m path cs where
  le_path : 11 ≤ path.toNat
  not_delimits : ∀ n, 12 * cs.length < n → n < 2 ^ 32 → ¬ Delimits (m (path + .ofNat 32 n))

theorem Alone.congr {m' : Mem} (h : Alone m path cs)
    (hframe : ∀ x : BitVec 32, 11 ≤ x.toNat → m' x = m x)
    (hcopied : ∀ x : BitVec 32, x.toNat < 11 → ¬ Delimits (m' x)) : Alone m' path cs where
  toHoldsPath := h.toHoldsPath.congr h.le_path hframe
  le_path := h.le_path
  not_delimits n hn hlt := by
    rcases Nat.lt_or_ge (path + .ofNat 32 n).toNat 11 with hx | hx
    · exact hcopied _ hx
    · rw [hframe _ hx]
      exact h.not_delimits n hn hlt

/-- From the end of the last component `strchr` comes round to the first. -/
theorem Alone.strchr_terminator (h : Alone m path cs) (hcs : 0 < cs.length) :
    strchr (bytesAt m (path + .ofNat 32 (12 * cs.length))) backslash =
      some (some (2 ^ 32 - 12 * cs.length)) := by
  have hfits := h.fits
  have hadd : ∀ i, bytesAt m (path + .ofNat 32 (12 * cs.length)) i =
      m (path + .ofNat 32 (12 * cs.length + i)) := fun i => by
    rw [bytesAt, BitVec.add_assoc, ← BitVec.ofNat_add]
  -- addresses wrap, and the first backslash is that of the path
  have hround : bytesAt m (path + .ofNat 32 (12 * cs.length)) (2 ^ 32 - 12 * cs.length) =
      backslash := by
    have hfirst := h.backslash 0 hcs
    rw [hadd, show 12 * cs.length + (2 ^ 32 - 12 * cs.length) = 2 ^ 32 by omega]
    exact hfirst
  refine strchr_eq_some (by omega) (fun i hi => ?_) (fun i h1 h2 => ?_) hround
  · rw [hadd]
    rcases Nat.eq_zero_or_pos i with rfl | hpos
    · rw [Nat.add_zero, h.terminator]
      decide
    · exact (not_or.mp (h.not_delimits _ (by omega) (by omega))).1
  · rcases Nat.lt_or_eq_of_le h2 with hlt | rfl
    · rw [hadd]
      exact (not_or.mp (h.not_delimits _ (by omega) (by omega))).2
    · rw [hround]
      decide

/-- **The loop goes round and round** a path that is alone in memory, if `curdir` is neither a file
nor invalid. -/
theorem openLoop_eq_none {s : OpenState} (h : Alone s.mem path cs) {j : ℕ} (hj : j < cs.length)
    (hp : s.p = path + .ofNat 32 (12 * j + 1)) (hinvalid : s.curdir.flags ≠ fsInvaild)
    (hfile : s.curdir.flags ≠ fsFile) (k : ℕ) : openLoop d mount file ret k s = none := by
  induction k generalizing s j with
  | zero => rfl
  | succ k ih =>
    obtain ⟨m', hframe, hcopied, -, -, hround⟩ := exists_openLoop_eq d mount ret file
      h.toHoldsPath hj hp k
    have h' := h.congr hframe hcopied
    rcases Nat.lt_or_eq_of_le (Nat.succ_le_of_lt hj) with hlt | heq
    · have hstr : strchr (bytesAt m' (path + .ofNat 32 (12 * (j + 1)))) backslash = some (some 0) :=
        strchr_eq_some (by decide) (by omega) (by omega)
          (by rw [bytesAt, BitVec.add_zero]; exact h'.backslash _ hlt)
      rw [hround 0 hinvalid hfile hstr]
      refine ih h' hlt ?_ hinvalid hfile
      rw [BitVec.add_zero, BitVec.add_assoc, BitVec.ofNat_add _ 1]
      rfl
    · -- behind the last component, back to the first one
      rw [show j + 1 = cs.length from heq] at hround
      rw [hround _ hinvalid hfile (h'.strchr_terminator (by omega))]
      refine ih (j := 0) h' (by omega) ?_ hinvalid hfile
      have hfits := h.fits
      rw [BitVec.add_assoc path, ← BitVec.ofNat_add,
        show 12 * cs.length + (2 ^ 32 - 12 * cs.length) = 2 ^ 32 by omega,
        show BitVec.ofNat 32 (2 ^ 32) = 0#32 from rfl, BitVec.add_zero]
      rfl

/-- `fat_open_file` enters its loop at the first component. -/
theorem fatOpenFile_eq (h : HoldsPath m path cs) (hcs : 0 < cs.length) (rounds : ℕ) :
    fatOpenFile d mount curdir ret file m path rounds =
      openLoop d mount file ret rounds ⟨m, curdir, true, path + .ofNat 32 (12 * 0 + 1)⟩ := by
  have hfirst : strchr (bytesAt m path) backslash = some (some 0) :=
    strchr_eq_some (by decide) (by omega) (by omega) (h.backslash 0 hcs)
  rw [fatOpenFile, hfirst]
  simp only [BitVec.add_zero]
  rfl

/-- What `fat_open_file` can return: `curdir` if that is a file, and an invalid `FILE` if it is
invalid. -/
theorem of_fatOpenFile_eq_some (h : HoldsPath m path cs) (hcs : 0 < cs.length) {rounds : ℕ} {f : File}
    {m' : Mem} (hsome : fatOpenFile d mount curdir ret file m path rounds = some (f, m')) :
    (curdir.flags = fsFile → f = curdir) ∧ (curdir.flags = fsInvaild → f.flags = fsInvaild) := by
  rw [fatOpenFile_eq h hcs] at hsome
  cases rounds with
  | zero => exact absurd hsome (by simp [openLoop])
  | succ k =>
    obtain ⟨m'', -, -, hinvalid, hfile, -⟩ := exists_openLoop_eq d mount ret file
      (s := ⟨m, curdir, true, path + .ofNat 32 (12 * 0 + 1)⟩) h hcs rfl k
    constructor
    · intro hflags
      rw [hfile hflags] at hsome
      exact (Prod.mk.inj (Option.some.inj hsome)).1.symm
    · intro hflags
      rw [hinvalid hflags] at hsome
      rw [← (Prod.mk.inj (Option.some.inj hsome)).1]

variable (d mount ret file) in
/-- It does return in these two cases. -/
theorem exists_fatOpenFile_eq_some (h : HoldsPath m path cs) (hcs : 0 < cs.length)
    (hflags : curdir.flags = fsFile ∨ curdir.flags = fsInvaild) :
    ∃ rounds f m', fatOpenFile d mount curdir ret file m path rounds = some (f, m') := by
  obtain ⟨m', -, -, hinvalid, hfile, -⟩ := exists_openLoop_eq d mount ret file
    (s := ⟨m, curdir, true, path + .ofNat 32 (12 * 0 + 1)⟩) h hcs rfl 0
  rw [← fatOpenFile_eq h hcs] at hinvalid hfile
  rcases hflags with hflags | hflags
  · exact ⟨1, _, m', hfile hflags⟩
  · exact ⟨1, _, m', hinvalid hflags⟩

/-! ### The paths that are opened -/

/-- `fat_open_file` opens what the path leads to: wherever the path is in memory, it returns the `FILE`
of the entry, or an invalid one if there is none. -/
def OpensPath (d : Drive) (mount : MountInfo) (curdir ret file : File) (cs : List Component) : Prop :=
  ∀ m path, HoldsPath m path cs →
    ∃ rounds f m', fatOpenFile d mount curdir ret file m path rounds = some (f, m') ∧
      ((∃ c e, LeadsTo d mount cs c e ∧ ∃ file₀, fileOf file₀ c.string e = some f) ∨
        (¬ ∃ c e, LeadsTo d mount cs c e) ∧ f.flags = fsInvaild)

/-- Memory with the path at address 4096 and letters `A` around it. -/
def pathMem (cs : List Component) : Mem := fun x =>
  let n := (x - 4096).toNat
  if n < 12 * cs.length then
    if n % 12 = 0 then backslash else (cs[n / 12]?).elim 0 fun c => c.string (n % 12 - 1)
  else if n = 12 * cs.length then 0
  else 0x41

theorem pathMem_apply {n : ℕ} (hn : n < 2 ^ 32) :
    pathMem cs (4096 + .ofNat 32 n) =
      if n < 12 * cs.length then
        if n % 12 = 0 then backslash else (cs[n / 12]?).elim 0 fun c => c.string (n % 12 - 1)
      else if n = 12 * cs.length then 0 else 0x41 := by
  have hoffset : (4096 + BitVec.ofNat 32 n - 4096).toNat = n := by bv_omega
  simp only [pathMem, hoffset]

variable (cs) in
theorem alone_pathMem (hfits : 12 * cs.length < 2 ^ 31) : Alone (pathMem cs) 4096 cs where
  fits := by
    rw [show (4096 : BitVec 32).toNat = 4096 from rfl]
    omega
  backslash j hj := by rw [pathMem_apply (by omega), if_pos (by omega), if_pos (by omega)]
  char j hj i hi := by
    have hdiv : (12 * j + 1 + i) / 12 = j := by omega
    have hmod : (12 * j + 1 + i) % 12 = i + 1 := by omega
    rw [pathMem_apply (by omega), if_pos (by omega), hdiv, hmod, if_neg (by omega),
      List.getElem?_eq_getElem hj, Option.elim_some, Nat.add_sub_cancel]
  terminator := by rw [pathMem_apply (by omega), if_neg (by omega), if_pos rfl]
  le_path := by decide
  not_delimits n hn hlt := by
    rw [pathMem_apply hlt, if_neg (by omega), if_neg (by omega), Delimits]
    decide

/-- The `FILE` of an entry is not invalid. -/
theorem flags_ne_of_fileOf {file₀ f : File} {fname e : Bytes} (h : fileOf file₀ fname e = some f) :
    f.flags ≠ fsInvaild := by
  rw [fileOf, Option.map_eq_some_iff] at h
  obtain ⟨name, _, rfl⟩ := h
  simp only
  split_ifs <;> decide

/-- **`fat_open_file` opens a path** with a backslash if and only if its uninitialised variable happens
to hold the `FILE` that the path leads to, or to be invalid if the path leads to none. -/
theorem opensPath_iff (hcs : 0 < cs.length) (hfits : 12 * cs.length < 2 ^ 31) :
    OpensPath d mount curdir ret file cs ↔
      (curdir.flags = fsFile ∧
        ∃ c e, LeadsTo d mount cs c e ∧ ∃ file₀, fileOf file₀ c.string e = some curdir) ∨
      (curdir.flags = fsInvaild ∧ ¬ ∃ c e, LeadsTo d mount cs c e) := by
  constructor
  · intro hopens
    have halone := alone_pathMem cs hfits
    obtain ⟨rounds, f, m', hsome, hspec⟩ := hopens (pathMem cs) 4096 halone.toHoldsPath
    obtain ⟨hfile, hinvalid⟩ := of_fatOpenFile_eq_some halone.toHoldsPath hcs hsome
    by_cases h1 : curdir.flags = fsFile
    · obtain rfl := hfile h1
      refine Or.inl ⟨h1, hspec.resolve_right fun h => ?_⟩
      exact absurd (h1.symm.trans h.2) (by decide)
    by_cases h2 : curdir.flags = fsInvaild
    · refine Or.inr ⟨h2, fun h => ?_⟩
      obtain ⟨c, e, -, file₀, hf⟩ := hspec.resolve_right fun hnone => hnone.1 h
      exact flags_ne_of_fileOf hf (hinvalid h2)
    · -- the loop does not end
      rw [fatOpenFile_eq halone.toHoldsPath hcs, openLoop_eq_none halone hcs rfl h2 h1] at hsome
      exact absurd hsome (by simp)
  · rintro (⟨h1, c, e, hleads, hmade⟩ | ⟨h2, hnone⟩) m path h
    · obtain ⟨rounds, f, m', hsome⟩ := exists_fatOpenFile_eq_some d mount ret file
        h hcs (Or.inl h1)
      obtain rfl := (of_fatOpenFile_eq_some h hcs hsome).1 h1
      exact ⟨rounds, f, m', hsome, Or.inl ⟨c, e, hleads, hmade⟩⟩
    · obtain ⟨rounds, f, m', hsome⟩ := exists_fatOpenFile_eq_some d mount ret file
        h hcs (Or.inr h2)
      exact ⟨rounds, f, m', hsome, Or.inr ⟨hnone, (of_fatOpenFile_eq_some h hcs hsome).2 h2⟩⟩

/-- The component of the file `FILE    TXT`. -/
def fileTxtComponent : Component where
  char i := fileTxt.getD i 0
  ne_backslash := by decide
  ne_zero := by decide

theorem fileTxtComponent_string : fileTxtComponent.string = (fileTxt.getD · 0) := by
  ext i : 1
  rw [Component.string]
  split_ifs with h
  · rfl
  · exact (List.getD_eq_default _ _ (Nat.le_of_not_lt h)).symm

theorem leadsTo_fileTxt :
    let d := disk [] (entryBytes fileTxt 0x20 2 0xFF)
    LeadsTo d (fatMount d) [fileTxtComponent] fileTxtComponent
      (directory ((entryBytes fileTxt 0x20 2 0xFF).getD · 0) 0) := by
  have hroot := rootEntry_fileTxt [] 2 0xFF
  rw [← fileTxtComponent_string] at hroot
  exact .file hroot (by decide)

theorem not_leadsTo_fileTxt {c : Component} {e : Bytes} :
    ¬ LeadsTo (disk [] []) (mountInfo bootBpb) [fileTxtComponent] c e := by
  have hnone : (rootEntry (disk [] []) (mountInfo bootBpb) (fileTxt.getD · 0)).isNone = true := by
    decide +kernel
  have habsent : ∀ e, rootEntry (disk [] []) (mountInfo bootBpb) fileTxtComponent.string ≠ some e := by
    intro e he
    rw [fileTxtComponent_string] at he
    rw [he, Option.isNone_some] at hnone
    exact absurd hnone (by decide)
  intro hleads
  cases hleads with
  | file h _ => exact habsent _ h
  | directory h _ _ => exact habsent _ h

/-- The path of a file in the root directory is opened if `curdir` holds the `FILE` of its entry.  A path
that leads to nothing is not opened, if `curdir` is invalid. -/
theorem opensPath_fileTxt :
    (let d := disk [] (entryBytes fileTxt 0x20 2 0xFF)
      ∃ curdir : File, curdir.currentCluster = 2 ∧
        OpensPath d (fatMount d) curdir default default [fileTxtComponent]) ∧
    OpensPath (disk [] []) (mountInfo bootBpb) { (default : File) with flags := fsInvaild } default
      default [fileTxtComponent] := by
  constructor
  · have hmade : fileOf default (fileTxt.getD · 0)
      (directory ((entryBytes fileTxt 0x20 2 0xFF).getD · 0) 0) = some _ := fileOf_eq isLength_fileTxt _
    rw [← fileTxtComponent_string] at hmade
    exact ⟨_, by decide, (opensPath_iff (by decide) (by decide)).mpr
      (Or.inl ⟨by decide, fileTxtComponent, _, leadsTo_fileTxt, default, hmade⟩)⟩
  · exact (opensPath_iff (by decide) (by decide)).mpr
      (Or.inr ⟨rfl, fun ⟨_, _, hleads⟩ => not_leadsTo_fileTxt hleads⟩)

/-- The path of a file in the root directory, with an invalid `curdir`: the file is not opened. -/
theorem not_opensPath_fileTxt :
    let d := disk [] (entryBytes fileTxt 0x20 2 0xFF)
    (∃ e, LeadsTo d (fatMount d) [fileTxtComponent] fileTxtComponent e) ∧
      ¬ OpensPath d (fatMount d) { (default : File) with flags := fsInvaild } default default
        [fileTxtComponent] := by
  intro d
  refine ⟨⟨_, leadsTo_fileTxt⟩, fun hopens => ?_⟩
  have hpath := (alone_pathMem [fileTxtComponent] (by decide)).toHoldsPath
  obtain ⟨rounds, f, m', hsome, hspec⟩ := hopens _ _ hpath
  have hinvalid := (of_fatOpenFile_eq_some hpath (by decide) hsome).2 rfl
  obtain ⟨c', e', -, file₀, hf⟩ := hspec.resolve_right fun hnone => hnone.1 ⟨_, _, leadsTo_fileTxt⟩
  exact flags_ne_of_fileOf hf hinvalid

end FanOS.Filesystem
