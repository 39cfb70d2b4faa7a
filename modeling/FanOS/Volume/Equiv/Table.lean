import FanOS.Transition.Basic
import FanOS.Volume.Basic
import Mathlib.Logic.Function.Basic

/-!
# The table of file systems

`volumeSystem` takes calls of the volume manager, with any numbers of devices and any names, and with
files that `vol_open_file` has returned.  Beside it runs the registry: which file system is registered
for which of the 26 devices.

Every access to the table should be in its range, and a name that does not lead to a registered device
should yield an invalid file.  Three slips stand against that: `device_id > DEVICE_MAX` lets number 26
pass; the letter before the colon is not checked at all; and `invalid_file` leaves the device number of
the file as it finds it.  `VolCond` excludes them, and then the table is safe in every state, while a
call that does not meet it is an access out of range (`volume_table_safe`).
-/

namespace FanOS.Volume

open Filesystem (File fsInvaild)
open Strings (Bytes)

variable {v : Volume} {i j : ℕ}

/-! ### Entries -/

/-- The pointer at index `j`. -/
def entry (v : Volume) (j : ℕ) : BitVec 32 := v.mem.load32 (v.fileSystem + 4 * BitVec.ofNat 32 j)

theorem load_ofNat (v : Volume) (j : ℕ) :
    v.load (BitVec.ofNat 32 j) = (v.entry j, { v with accesses := v.accesses ++ [BitVec.ofNat 32 j] }) :=
  rfl

/-- A store changes one entry. -/
theorem entry_store (v : Volume) (hi : i < 26) (hj : j < 26) (system : BitVec 32) :
    (v.store (BitVec.ofNat 32 i) system).entry j = if i = j then system else v.entry j := by
  by_cases hij : i = j
  · rw [if_pos hij, ← hij]
    exact Mem.load32_store32_self _ _ _
  · have hapart : Mem.Apart (v.fileSystem + 4 * BitVec.ofNat 32 j)
        (v.fileSystem + 4 * BitVec.ofNat 32 i) := by
      unfold Mem.Apart
      constructor <;> bv_omega
    rw [if_neg hij]
    exact Mem.load32_store32_of_apart _ _ hapart

/-- All accesses so far have been in range. -/
def InRange (v : Volume) : Prop := ∀ i ∈ v.accesses, i.toNat < 26

theorem InRange.append (hv : v.InRange) {x : BitVec 32} (hx : x.toNat < 26) :
    ∀ i ∈ v.accesses ++ [x], i.toNat < 26 := by
  intro i hi
  rcases List.mem_append.mp hi with hi | hi
  · exact hv i hi
  · rw [List.mem_singleton.mp hi]
    exact hx

theorem InRange.store (hv : v.InRange) {x : BitVec 32} (hx : x.toNat < 26) (system : BitVec 32) :
    (v.store x system).InRange := hv.append hx

theorem InRange.load (hv : v.InRange) {x : BitVec 32} (hx : x.toNat < 26) : (v.load x).2.InRange :=
  hv.append hx

/-- What the loop of `vol_unregister_filesystem` does to the entries from `i` on. -/
theorem unregisterLoop_spec (system : BitVec 32) (hv : v.InRange) {n : ℕ} (hle : i + n ≤ 26) :
    (unregisterLoop system n (BitVec.ofNat 32 i) v).InRange ∧
      ∀ j < 26, (unregisterLoop system n (BitVec.ofNat 32 i) v).entry j =
        if i ≤ j ∧ j < i + n ∧ v.entry j = system then 0 else v.entry j := by
  induction n generalizing i v with
  | zero =>
    refine ⟨hv, fun j _ => ?_⟩
    rw [if_neg (by omega)]
    rfl
  | succ n ih =>
    have hi : (BitVec.ofNat 32 i).toNat < 26 := by
      rw [BitVec.toNat_ofNat]
      omega
    have hsucc : BitVec.ofNat 32 i + 1 = BitVec.ofNat 32 (i + 1) := (BitVec.ofNat_add _ _).symm
    rw [unregisterLoop, load_ofNat]
    simp only [hsucc]
    -- the round looks at entry `i`; the induction hypothesis is about those behind it
    by_cases heq : v.entry i = system
    · rw [if_pos heq]
      obtain ⟨hrange, hentry⟩ := ih ((hv.load hi).store hi 0) (i := i + 1) (by omega)
      refine ⟨hrange, fun j hj => (hentry j hj).trans ?_⟩
      have hstore := (v.load (BitVec.ofNat 32 i)).2.entry_store (i := i) (by omega) hj 0
      rw [hstore]
      by_cases hij : i = j
      · rw [if_pos hij, ite_self, if_pos ⟨by omega, by omega, hij ▸ heq⟩]
      · rw [if_neg hij]
        refine if_congr ⟨fun h => ⟨by omega, by omega, h.2.2⟩, fun h => ⟨by omega, by omega, h.2.2⟩⟩ rfl rfl
    · rw [if_neg heq]
      obtain ⟨hrange, hentry⟩ := ih (hv.load hi) (i := i + 1) (by omega)
      refine ⟨hrange, fun j hj => (hentry j hj).trans ?_⟩
      refine if_congr ⟨fun h => ⟨by omega, by omega, h.2.2⟩, fun h => ⟨?_, by omega, h.2.2⟩⟩ rfl rfl
      by_contra hlt
      exact heq ((show i = j by omega) ▸ h.2.2)

theorem volUnregisterFilesystem_spec (system : BitVec 32) (hv : v.InRange) :
    (v.volUnregisterFilesystem system).InRange ∧
      ∀ j < 26, (v.volUnregisterFilesystem system).entry j =
        if v.entry j = system then 0 else v.entry j := by
  obtain ⟨hrange, hentry⟩ := unregisterLoop_spec system hv (i := 0) (n := 26) le_rfl
  have hloop : v.volUnregisterFilesystem system = unregisterLoop system 26 (BitVec.ofNat 32 0) v := rfl
  rw [hloop]
  refine ⟨hrange, fun j hj => ?_⟩
  rw [hentry j hj]
  by_cases heq : v.entry j = system
  · rw [if_pos ⟨Nat.zero_le j, by omega, heq⟩, if_pos heq]
  · rw [if_neg fun hc => heq hc.2.2, if_neg heq]

/-! ### The system -/

/-- A call of the volume manager.  Names and files may be null; a file is given by its place among those
that have been returned. -/
inductive VolCall
  | register (system deviceId : BitVec 32)
  | registerById (deviceId : BitVec 32)
  | unregister (system : BitVec 32)
  | openFile (fname : Option Bytes)
  | readFile (place : Option ℕ)
  | closeFile (place : Option ℕ)

/-- The volume manager beside what it is to keep. -/
structure VolState where
  vol : Volume
  /-- The file system that is registered for each device. -/
  registry : ℕ → BitVec 32
  /-- The files that `vol_open_file` has returned, and whether a file system has opened them. -/
  files : List (File × Bool)

/-- File systems leave the device of a file alone. -/
def KeepDevice (systems : BitVec 32 → FileSystem) : Prop :=
  ∀ p f, (∀ buffer, ((systems p).read f buffer).1.deviceId = f.deviceId) ∧
    ((systems p).close f).deviceId = f.deviceId

/-- Some file system is to open the name. -/
def opens (v : Volume) : Option Bytes → Bool
  | none => false
  | some fname => (v.load ((getDevice fname).setWidth 32 - 0x61)).1 ≠ 0

/-- What registering a file system under a number does to the registry. -/
def enterRegistry (registry : ℕ → BitVec 32) (system deviceId : BitVec 32) : ℕ → BitVec 32 :=
  if deviceId.toNat < 26 then Function.update registry deviceId.toNat system else registry

/-- What a call does.  What the file systems do is left open but for `KeepDevice`. -/
def volStep (s : VolState) : VolCall → VolState → Prop
  | .register system deviceId, s' =>
    s' = ⟨s.vol.volRegisterFilesystem system deviceId, enterRegistry s.registry system deviceId, s.files⟩
  | .registerById deviceId, s' =>
    s' = ⟨s.vol.volRegisterFilesystemById deviceId, enterRegistry s.registry 0 deviceId, s.files⟩
  | .unregister system, s' =>
    s' = ⟨s.vol.volUnregisterFilesystem system,
      fun j => if s.registry j = system then 0 else s.registry j, s.files⟩
  | .openFile fname, s' => ∃ systems file, KeepDevice systems ∧
    s' = ⟨(volOpenFile systems file s.vol fname).2, s.registry,
      s.files ++ [((volOpenFile systems file s.vol fname).1, s.vol.opens fname)]⟩
  | .readFile none, s' => s' = s
  | .readFile (some k), s' => ∃ systems buffer f o, KeepDevice systems ∧ s.files[k]? = some (f, o) ∧
    s' = ⟨(volReadFile systems s.vol buffer (some f)).2, s.registry,
      s.files.set k (((volReadFile systems s.vol buffer (some f)).1.getD (f, buffer)).1, o)⟩
  | .closeFile none, s' => s' = s
  | .closeFile (some k), s' => ∃ systems f o, KeepDevice systems ∧ s.files[k]? = some (f, o) ∧
    s' = ⟨(volCloseFile systems s.vol (some f)).2, s.registry,
      s.files.set k ((volCloseFile systems s.vol (some f)).1.getD f, o)⟩

/-- Calls on an empty table. -/
def volumeSystem : System VolState VolCall where
  init s := s.vol.accesses = [] ∧ (∀ j < 26, s.vol.entry j = 0) ∧ s.registry = (fun _ => 0) ∧ s.files = []
  step := volStep

/-- The number is that of one of the letters `a` to `z`. -/
def IsDrive (device : BitVec 32) : Prop := (device - 0x61).toNat < 26

instance (device : BitVec 32) : Decidable (IsDrive device) :=
  inferInstanceAs (Decidable ((device - 0x61).toNat < 26))

/-- A name has no drive in front, or one of the letters `a` to `z`. -/
def NameCond : Option Bytes → Prop
  | none => True
  | some fname => fname 1 = 0x3A → IsDrive ((fname 0).setWidth 32)

/-- Devices are not registered under the number 26; names have no drive in front or one of the letters
`a` to `z`; and an invalid file that is read or closed happens to have such a device. -/
def VolCond (s : VolState) : VolCall → Prop
  | .register _ deviceId => deviceId ≠ deviceMax
  | .registerById deviceId => deviceId ≠ deviceMax
  | .unregister _ => True
  | .openFile fname => NameCond fname
  | .readFile place => ∀ k f, place = some k → s.files[k]? = some (f, false) → IsDrive f.deviceId
  | .closeFile place => ∀ k f, place = some k → s.files[k]? = some (f, false) → IsDrive f.deviceId

/-- The name leads to a device with a file system. -/
def VolState.Designates (s : VolState) : Option Bytes → Prop
  | none => False
  | some fname => ∃ j < 26, (getDevice fname).toNat = 0x61 + j ∧ s.registry j ≠ 0

/-! ### The invariant -/

/-- All accesses have been in range, the table is that of the registry, and files that a file system has
opened have a device. -/
structure VolInv (s : VolState) : Prop where
  inRange : s.vol.InRange
  table : ∀ j < 26, s.vol.entry j = s.registry j
  files : ∀ f, (f, true) ∈ s.files → IsDrive f.deviceId

namespace VolInv

variable {s s' : VolState}

/-- Entering a file system under a number other than 26. -/
theorem enter (h : VolInv s) (system : BitVec 32) {deviceId : BitVec 32} (hne : deviceId ≠ deviceMax) :
    VolInv ⟨s.vol.enter system deviceId, enterRegistry s.registry system deviceId, s.files⟩ := by
  have hmax : deviceMax.toNat = 26 := rfl
  have hne' : deviceId.toNat ≠ 26 := fun heq => hne (BitVec.eq_of_toNat_eq heq)
  by_cases hgt : deviceId > deviceMax
  · -- the call returns at once
    have hlt : 26 < deviceId.toNat := hgt
    rw [Volume.enter, if_pos hgt, enterRegistry, if_neg (by omega)]
    exact h
  · -- the guard lets 26 pass as well, which is excluded here
    have hlt : deviceId.toNat < 26 := by
      rw [gt_iff_lt, BitVec.lt_def] at hgt
      omega
    rw [Volume.enter, if_neg hgt, enterRegistry, if_pos hlt]
    refine ⟨h.inRange.store hlt system, fun j hj => ?_, h.files⟩
    have hstore := s.vol.entry_store hlt hj system
    rw [BitVec.ofNat_toNat, BitVec.setWidth_eq] at hstore
    simp only
    rw [hstore, h.table j hj]
    by_cases hj' : deviceId.toNat = j
    · rw [if_pos hj', ← hj', Function.update_self]
    · rw [if_neg hj', Function.update_of_ne (Ne.symm hj')]

theorem unregister (h : VolInv s) (system : BitVec 32) :
    VolInv ⟨s.vol.volUnregisterFilesystem system,
      fun j => if s.registry j = system then 0 else s.registry j, s.files⟩ := by
  obtain ⟨hrange, hentry⟩ := volUnregisterFilesystem_spec system h.inRange
  refine ⟨hrange, fun j hj => ?_, h.files⟩
  rw [hentry j hj, h.table j hj]

/-- Reading an entry in range, with the files changed in some way that keeps the devices. -/
theorem load (h : VolInv s) {x : BitVec 32} (hx : x.toNat < 26) {files : List (File × Bool)}
    (hfiles : ∀ f, (f, true) ∈ files → IsDrive f.deviceId) :
    VolInv ⟨(s.vol.load x).2, s.registry, files⟩ := ⟨h.inRange.load hx, h.table, hfiles⟩

end VolInv

/-- The device of a name that meets the condition. -/
theorem isDrive_getDevice {fname : Bytes} (h : NameCond (some fname)) :
    IsDrive ((getDevice fname).setWidth 32) := by
  rw [getDevice]
  split_ifs with hcolon
  · exact h hcolon
  · decide

/-- What `vol_open_file` accesses. -/
theorem volOpenFile_some_snd (systems : BitVec 32 → FileSystem) (file : File) (v : Volume)
    (fname : Bytes) : (volOpenFile systems file v (some fname)).2 =
      (v.load ((getDevice fname).setWidth 32 - 0x61)).2 := by
  rw [volOpenFile, volOpenFileImpl]
  dsimp only
  split_ifs <;> rfl

/-- A file that a file system has opened has the device of the name. -/
theorem deviceId_volOpenFile (systems : BitVec 32 → FileSystem) (file : File) (v : Volume)
    {fname : Bytes} (h : v.opens (some fname) = true) :
    (volOpenFile systems file v (some fname)).1.deviceId = (getDevice fname).setWidth 32 := by
  have hne : (v.load ((getDevice fname).setWidth 32 - 0x61)).1 ≠ 0 := of_decide_eq_true h
  rw [volOpenFile, volOpenFileImpl]
  dsimp only
  rw [if_neg hne]

/-- Where there is no file system, the file is invalid. -/
theorem flags_volOpenFile (systems : BitVec 32 → FileSystem) (file : File) (v : Volume)
    {fname : Option Bytes} (h : v.opens fname = false) :
    (volOpenFile systems file v fname).1.flags = fsInvaild := by
  cases fname with
  | none => rfl
  | some fname =>
    have hz : (v.load ((getDevice fname).setWidth 32 - 0x61)).1 = 0 := by
      simpa [opens] using h
    rw [volOpenFile, volOpenFileImpl]
    dsimp only
    rw [if_pos hz]
    rfl

/-- What `vol_read_file` accesses, and the device of the file after it. -/
theorem volReadFile_some (systems : BitVec 32 → FileSystem) (hk : KeepDevice systems) (v : Volume)
    (buffer : Bytes) (f : File) :
    (volReadFile systems v buffer (some f)).2 = (v.load (f.deviceId - 0x61)).2 ∧
      ((volReadFile systems v buffer (some f)).1.getD (f, buffer)).1.deviceId = f.deviceId := by
  rw [volReadFile]
  dsimp only
  split_ifs
  · exact ⟨rfl, rfl⟩
  · exact ⟨rfl, (hk _ f).1 buffer⟩

/-- The same for `vol_close_file`. -/
theorem volCloseFile_some (systems : BitVec 32 → FileSystem) (hk : KeepDevice systems) (v : Volume)
    (f : File) :
    (volCloseFile systems v (some f)).2 = (v.load (f.deviceId - 0x61)).2 ∧
      ((volCloseFile systems v (some f)).1.getD f).deviceId = f.deviceId := by
  rw [volCloseFile]
  dsimp only
  split_ifs
  · exact ⟨rfl, rfl⟩
  · exact ⟨rfl, (hk _ f).2⟩

/-! ### Steps -/

variable {s s' : VolState}

/-- Changing a file in a way that keeps its device. -/
theorem isDrive_of_mem_set {files : List (File × Bool)} {k : ℕ} {f f' : File} {o : Bool}
    (h : ∀ f, (f, true) ∈ files → IsDrive f.deviceId) (hk : files[k]? = some (f, o))
    (hf : f'.deviceId = f.deviceId) : ∀ g, (g, true) ∈ files.set k (f', o) → IsDrive g.deviceId := by
  intro g hg
  rcases List.mem_or_eq_of_mem_set hg with hg | hg
  · exact h g hg
  · obtain ⟨rfl, rfl⟩ := Prod.mk.inj hg
    rw [hf]
    exact h f (List.mem_of_getElem? hk)

/-- The device of a file under the condition. -/
theorem VolInv.isDrive (h : VolInv s) {k : ℕ} {f : File} {o : Bool} (hk : s.files[k]? = some (f, o))
    (hc : s.files[k]? = some (f, false) → IsDrive f.deviceId) : IsDrive f.deviceId := by
  cases o with
  | true => exact h.files f (List.mem_of_getElem? hk)
  | false => exact hc hk

/-- **A call that meets the condition** keeps the invariant. -/
theorem VolInv.step (h : VolInv s) {c : VolCall} (hc : VolCond s c) (hs : volStep s c s') :
    VolInv s' := by
  cases c with
  | register system deviceId =>
    obtain rfl := hs
    exact h.enter system hc
  | registerById deviceId =>
    obtain rfl := hs
    exact h.enter 0 hc
  | unregister system =>
    obtain rfl := hs
    exact h.unregister system
  | openFile fname =>
    obtain ⟨systems, file, -, rfl⟩ := hs
    -- the file that is returned is new; if a file system has opened it, it has the device of the name
    cases fname with
    | none =>
      refine ⟨h.inRange, h.table, fun f hf => ?_⟩
      rcases List.mem_append.mp hf with hf | hf
      · exact h.files f hf
      · simp [opens] at hf
    | some fname =>
      have hdrive := isDrive_getDevice hc
      rw [volOpenFile_some_snd]
      refine h.load hdrive fun f hf => ?_
      rcases List.mem_append.mp hf with hf | hf
      · exact h.files f hf
      · obtain ⟨rfl, hopens⟩ := Prod.mk.inj (List.mem_singleton.mp hf)
        rw [deviceId_volOpenFile systems file s.vol hopens.symm]
        exact hdrive
  | readFile place =>
    cases place with
    | none =>
      obtain rfl := hs
      exact h
    | some k =>
      obtain ⟨systems, buffer, f, o, hkeep, hk, rfl⟩ := hs
      obtain ⟨hvol, hdev⟩ := volReadFile_some systems hkeep s.vol buffer f
      rw [hvol]
      exact h.load (h.isDrive hk (hc k f rfl)) (isDrive_of_mem_set h.files hk hdev)
  | closeFile place =>
    cases place with
    | none =>
      obtain rfl := hs
      exact h
    | some k =>
      obtain ⟨systems, f, o, hkeep, hk, rfl⟩ := hs
      obtain ⟨hvol, hdev⟩ := volCloseFile_some systems hkeep s.vol f
      rw [hvol]
      exact h.load (h.isDrive hk (hc k f rfl)) (isDrive_of_mem_set h.files hk hdev)

theorem volInv_of_reachable (h : (volumeSystem.restrict VolCond).Reachable s) : VolInv s := by
  refine h.invariant ?_ ?_
  · rintro s ⟨hacc, htable, hreg, hfiles⟩
    refine ⟨fun i hi => ?_, fun j hj => ?_, fun f hf => ?_⟩
    · rw [hacc] at hi
      exact absurd hi List.not_mem_nil
    · rw [htable j hj, hreg]
    · rw [hfiles] at hf
      exact absurd hf List.not_mem_nil
  · rintro s c s' hinv ⟨hc, hs⟩
    exact hinv.step hc hs

/-! ### Calls that go wrong -/

/-- There has been an access out of range. -/
def OutOfRange (v : Volume) : Prop := ∃ i ∈ v.accesses, 26 ≤ i.toNat

theorem outOfRange_load (v : Volume) {device : BitVec 32} (h : ¬ IsDrive device) :
    (v.load (device - 0x61)).2.OutOfRange :=
  ⟨_, List.mem_append_right _ (List.mem_singleton_self _), Nat.le_of_not_lt h⟩

theorem outOfRange_enter (v : Volume) (system : BitVec 32) : (v.enter system deviceMax).OutOfRange := by
  rw [enter, if_neg (by decide)]
  exact ⟨_, List.mem_append_right _ (List.mem_singleton_self _), le_rfl⟩

/-- **A call that does not meet the condition** accesses the table out of range. -/
theorem outOfRange_of_not_volCond {c : VolCall} (hc : ¬ VolCond s c) (hs : volStep s c s') :
    s'.vol.OutOfRange := by
  cases c with
  | register system deviceId =>
    obtain rfl := hs
    obtain rfl : deviceId = deviceMax := not_not.mp hc
    exact outOfRange_enter s.vol system
  | registerById deviceId =>
    obtain rfl := hs
    obtain rfl : deviceId = deviceMax := not_not.mp hc
    exact outOfRange_enter s.vol 0
  | unregister system => exact absurd trivial hc
  | openFile fname =>
    obtain ⟨systems, file, -, rfl⟩ := hs
    cases fname with
    | none => exact absurd trivial hc
    | some fname =>
      obtain ⟨hcolon, hdrive⟩ := Classical.not_imp.mp hc
      rw [volOpenFile_some_snd, getDevice, if_pos hcolon]
      exact outOfRange_load s.vol hdrive
  | readFile place =>
    -- the file is an invalid one, with whatever device it happens to have
    simp only [VolCond, not_forall] at hc
    obtain ⟨k, f, rfl, hk, hdrive⟩ := hc
    obtain ⟨systems, buffer, f', o, hkeep, hk', rfl⟩ := hs
    obtain ⟨rfl, -⟩ := Prod.mk.inj (Option.some.inj (hk.symm.trans hk'))
    rw [(volReadFile_some systems hkeep s.vol buffer f).1]
    exact outOfRange_load s.vol hdrive
  | closeFile place =>
    simp only [VolCond, not_forall] at hc
    obtain ⟨k, f, rfl, hk, hdrive⟩ := hc
    obtain ⟨systems, f', o, hkeep, hk', rfl⟩ := hs
    obtain ⟨rfl, -⟩ := Prod.mk.inj (Option.some.inj (hk.symm.trans hk'))
    rw [(volCloseFile_some systems hkeep s.vol f).1]
    exact outOfRange_load s.vol hdrive

/-! ### Runs -/

/-- Names that do not lead to a registered device find no file system. -/
theorem VolInv.opens_eq_false (h : VolInv s) {fname : Option Bytes} (hname : NameCond fname)
    (hd : ¬ s.Designates fname) : s.vol.opens fname = false := by
  cases fname with
  | none => rfl
  | some fname =>
    have hdrive : ((getDevice fname).setWidth 32 - 0x61).toNat < 26 := isDrive_getDevice hname
    have hload := s.vol.load_ofNat ((getDevice fname).setWidth 32 - 0x61).toNat
    rw [BitVec.ofNat_toNat, BitVec.setWidth_eq] at hload
    -- the device is one of the 26, so the name would lead to what is registered there
    have hzero : s.registry ((getDevice fname).setWidth 32 - 0x61).toNat = 0 := by
      by_contra hne
      refine hd ⟨_, hdrive, ?_, hne⟩
      bv_omega
    rw [opens, hload]
    simp only [h.table _ hdrive, hzero, ne_eq, not_true_eq_false, decide_false]

/-- **When the table is safe**: in every run of calls that meet the condition, all accesses are in range
and names that do not lead to a registered device yield invalid files; every other call is an access out
of range. -/
theorem volume_table_safe (s : VolState) (h : (volumeSystem.restrict VolCond).Reachable s) :
    (∀ i ∈ s.vol.accesses, i.toNat < 26) ∧
    (∀ systems file fname, NameCond fname → ¬ s.Designates fname →
      (volOpenFile systems file s.vol fname).1.flags = fsInvaild) ∧
    ∀ c s', volumeSystem.step s c s' → ¬ VolCond s c → ∃ i ∈ s'.vol.accesses, 26 ≤ i.toNat := by
  have hinv := volInv_of_reachable h
  refine ⟨hinv.inRange, fun systems file fname hname hd => ?_, fun c s' hs hc => ?_⟩
  · exact flags_volOpenFile systems file s.vol (hinv.opens_eq_false hname hd)
  · exact outOfRange_of_not_volCond hc hs

/-- A table in a memory of zeros. -/
def emptyTable : VolState := ⟨⟨fun _ => 0, 0x8000, []⟩, fun _ => 0, []⟩

theorem init_emptyTable : volumeSystem.init emptyTable := by
  refine ⟨rfl, fun j _ => ?_, rfl, rfl⟩
  simp [entry, emptyTable, Mem.load32]

/-- The table after a file system has been registered for the first device. -/
def oneDevice : VolState :=
  ⟨emptyTable.vol.volRegisterFilesystem 0x9000 0, enterRegistry emptyTable.registry 0x9000 0, []⟩

/-- A file system that finds every name and does nothing else. -/
def idleSystem : FileSystem := ⟨fun file buffer => (file, buffer), id, fun _ => default⟩

/-- The name `b:X` is then invalid. -/
theorem volume_table_safe_one_device :
    (volOpenFile (fun _ => idleSystem) default oneDevice.vol
      (some fun i => [0x62, 0x3A, 0x58].getD i 0)).1.flags = fsInvaild := by
  have hid : (0 : BitVec 32) ≠ deviceMax := by decide
  have hreach : (volumeSystem.restrict VolCond).Reachable oneDevice :=
    .step (.init init_emptyTable) (a := .register 0x9000 0) ⟨hid, rfl⟩
  refine (volume_table_safe _ hreach).2.1 _ _ _ (fun _ => by decide) ?_
  rintro ⟨j, -, hj, hreg⟩
  obtain rfl : j = 1 := by
    have hdevice : (getDevice fun i => [0x62, 0x3A, 0x58].getD i 0).toNat = 0x62 := by decide
    omega
  exact hreg (by decide)

/-- Registering a file system under the number 26 accesses the table out of range. -/
theorem not_volume_table_safe :
    ¬ ∀ s, volumeSystem.Reachable s → ∀ i ∈ s.vol.accesses, i.toNat < 26 := by
  intro hall
  have hreach : volumeSystem.Reachable ⟨emptyTable.vol.volRegisterFilesystem 0x9000 26,
      enterRegistry emptyTable.registry 0x9000 26, []⟩ :=
    .step (.init init_emptyTable) (a := .register 0x9000 26) rfl
  exact absurd (hall _ hreach 26 (by decide)) (by decide)

end FanOS.Volume
