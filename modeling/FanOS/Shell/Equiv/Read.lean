import FanOS.Malloc.Equiv.OutOfMemory
import FanOS.Shell.Basic
import FanOS.Volume.Equiv.Opening

/-!
# The buffer of the command `read`

`cmd_read` allocates 128 bytes and has `fat_read_file` copy a sector of 512 bytes there; it prints 128
bytes for each of them.  So every call of `vol_read_file` writes 384 bytes behind its block, and three
quarters of the file are not shown (`cmdRead_not_ok`), for every file and every heap.
-/

namespace FanOS.Shell

open FloppyDisk Filesystem Volume
open Strings (Bytes)

variable {d : Drive} {fat : BitVec 32} {v : Volume} {c : Console} {buf : BitVec 32} {s s' : ReadState}

/-! ### One round -/

/-- The addresses that a call of `vol_read_file` writes. -/
def sectorAddrs (buf : BitVec 32) : List (BitVec 32) :=
  (List.range 512).map fun i => buf + BitVec.ofNat 32 i

theorem copyTo_snd (src : Bytes) (n : ℕ) (m : Mem) :
    (copyTo buf src n m).2 = (List.range n).map fun i => buf + BitVec.ofNat 32 i := by
  induction n with
  | zero => rfl
  | succ n ih =>
    have hsucc : (copyTo buf src (n + 1) m).2 =
        (copyTo buf src n m).2 ++ [buf + BitVec.ofNat 32 n] := rfl
    rw [hsucc, ih, List.range_succ, List.map_append, List.map_singleton]

variable (d buf) in
/-- **`vol_read_file`** writes a sector to the buffer. -/
theorem readFile_eq (hfat : fat ≠ 0) (hv : Registered fat v) (hdev : s.file.deviceId = 0x61)
    (hc : s.file.currentCluster.toNat < 2 ^ 16) :
    ∃ mem, readFile d fat v buf s = some { s with
      mem := mem
      file := advance d s.file
      written := s.written ++ [sectorAddrs buf] } := by
  have hsystem : (v.load (s.file.deviceId - 0x61)).1 = fat := by
    rw [hdev]
    exact hv 0 (by omega)
  refine ⟨(copyTo buf (d.sector (dataSector (fatMount d) s.file)) sectorSize s.mem).1, ?_⟩
  rw [readFile]
  simp only [hsystem]
  rw [if_neg hfat, if_pos trivial]
  simp only [fatReadFile_run hc, copyTo_snd, sectorAddrs, sectorSize]

/-- A call of `printf` does not return. -/
def Console.Hangs (c : Console) : Prop := ∃ msg m, c.printf msg m = none

theorem hangs_of_showLoop {n : ℕ} {i : BitVec 32} (h : showLoop c buf n i s = none) : c.Hangs := by
  induction n generalizing i s with
  | zero => exact absurd h (by simp [showLoop])
  | succ n ih =>
    rw [showLoop] at h
    cases hp : c.printf (.byte (s.mem (buf + i))) s.mem with
    | none => exact ⟨_, _, hp⟩
    | some mem =>
      rw [hp] at h
      exact ih h

theorem hangs_of_promptUser (h : promptUser c s = none) : c.Hangs := by
  rw [promptUser] at h
  split_ifs at h with hend
  cases hp : c.printf .prompt s.mem with
  | none => exact ⟨_, _, hp⟩
  | some mem =>
    rw [hp] at h
    simp only at h
    split_ifs at h with hquit
    exact ⟨_, _, Option.map_eq_none_iff.mp h⟩

/-- Printing the buffer prints so many bytes. -/
theorem showLoop_spec {n : ℕ} {i : BitVec 32} (h : showLoop c buf n i s = some s') :
    s'.file = s.file ∧ s'.written = s.written ∧ s'.printed.length = s.printed.length + n := by
  induction n generalizing i s with
  | zero =>
    obtain rfl := Option.some.inj h
    exact ⟨rfl, rfl, rfl⟩
  | succ n ih =>
    rw [showLoop] at h
    cases hp : c.printf (.byte (s.mem (buf + i))) s.mem with
    | none =>
      rw [hp] at h
      exact absurd h (by simp)
    | some mem =>
      rw [hp] at h
      obtain ⟨h1, h2, h3⟩ := ih h
      refine ⟨h1, h2, h3.trans ?_⟩
      rw [List.length_append, List.length_singleton]
      omega

/-- The prompt changes nothing, and a user who does not quit goes on. -/
theorem promptUser_spec (hq : ∀ k, c.quits k = false) {q : Bool} (h : promptUser c s = some (s', q)) :
    q = false ∧ s'.file = s.file ∧ s'.written = s.written ∧ s'.printed = s.printed := by
  rw [promptUser] at h
  split_ifs at h with hend
  · cases hp : c.printf .prompt s.mem with
    | none =>
      rw [hp] at h
      exact absurd h (by simp)
    | some mem =>
      rw [hp] at h
      simp only [hq, Bool.false_eq_true, if_false] at h
      obtain ⟨mem', -, heq⟩ := Option.map_eq_some_iff.mp h
      obtain ⟨rfl, rfl⟩ := Prod.mk.inj heq
      exact ⟨rfl, rfl, rfl, rfl⟩
  · obtain ⟨rfl, rfl⟩ := Prod.mk.inj (Option.some.inj h)
    exact ⟨rfl, rfl, rfl, rfl⟩

variable (d buf) in
/-- **One round** of the loop of `cmd_read`: a sector is written to the buffer and 128 bytes are printed,
unless a call of `printf` does not return. -/
theorem cmdReadBody_cases (hfat : fat ≠ 0) (hv : Registered fat v) (hq : ∀ k, c.quits k = false)
    (hend : s.file.atEnd ≠ 1) (hdev : s.file.deviceId = 0x61)
    (hc : s.file.currentCluster.toNat < 2 ^ 16) :
    (c.Hangs ∧ cmdReadBody d fat v c buf s = .inr none) ∨
      ∃ s', cmdReadBody d fat v c buf s = .inl s' ∧ s'.file = advance d s.file ∧
        s'.written = s.written ++ [sectorAddrs buf] ∧ s'.printed.length = s.printed.length + 128 := by
  obtain ⟨mem, hread⟩ := readFile_eq d buf hfat hv hdev hc
  rw [cmdReadBody, if_pos hend, hread, Option.bind_some]
  cases hshow : showLoop c buf 128 0 { s with
      mem := mem
      file := advance d s.file
      written := s.written ++ [sectorAddrs buf] } with
  | none => exact Or.inl ⟨hangs_of_showLoop hshow, rfl⟩
  | some s₁ =>
    obtain ⟨h1, h2, h3⟩ := showLoop_spec hshow
    rw [Option.bind_some]
    cases hprompt : promptUser c s₁ with
    | none => exact Or.inl ⟨hangs_of_promptUser hprompt, rfl⟩
    | some r =>
      obtain ⟨s₂, q⟩ := r
      obtain ⟨rfl, g1, g2, g3⟩ := promptUser_spec hq hprompt
      refine Or.inr ⟨_, rfl, g1.trans h1, g2.trans h2, ?_⟩
      rw [← h3, ← g3]

theorem cmdReadBody_of_atEnd (hend : s.file.atEnd = 1) : cmdReadBody d fat v c buf s = .inr (some s) := by
  rw [cmdReadBody, if_neg (by simp [hend])]

/-! ### The loop -/

/-- What the loop has done for so many clusters. -/
structure Rounds (buf : BitVec 32) (n : ℕ) (s s' : ReadState) : Prop where
  written : s'.written = s.written ++ List.replicate n (sectorAddrs buf)
  printed : s'.printed.length = s.printed.length + 128 * n

/-- **The loop of `cmd_read`** is left at the end of the chain, unless a call of `printf` does not
return. -/
theorem returns_cmdReadBody (hfat : fat ≠ 0) (hv : Registered fat v) (hq : ∀ k, c.quits k = false)
    {x : ℕ} {xs : List ℕ} (h : Ahead d s.file x xs) (hdev : s.file.deviceId = 0x61) :
    (c.Hangs ∧ Loop.Returns (cmdReadBody d fat v c buf) s none) ∨
      ∃ s', Loop.Returns (cmdReadBody d fat v c buf) s (some s') ∧ Rounds buf (xs.length + 1) s s' := by
  -- on the chain: each cluster is a round
  induction xs generalizing s x with
  | nil =>
    rcases cmdReadBody_cases d buf hfat hv hq h.atEnd_ne_one hdev h.cluster_lt with
      ⟨hhangs, hnone⟩ | ⟨s₁, hround, hfile, hwritten, hprinted⟩
    · exact Or.inl ⟨hhangs, .exit hnone⟩
    · have hend : s₁.file.atEnd = 1 := by rw [hfile, h.advance_last]
      exact Or.inr ⟨s₁, .round hround (.exit (cmdReadBody_of_atEnd hend)), hwritten, hprinted⟩
  | cons y xs ih =>
    rcases cmdReadBody_cases d buf hfat hv hq h.atEnd_ne_one hdev h.cluster_lt with
      ⟨hhangs, hnone⟩ | ⟨s₁, hround, hfile, hwritten, hprinted⟩
    · exact Or.inl ⟨hhangs, .exit hnone⟩
    · have hnext : Ahead d s₁.file y xs := hfile ▸ h.next
      have hdev₁ : s₁.file.deviceId = 0x61 := by rw [hfile, h.advance_next, hdev]
      rcases ih hnext hdev₁ with ⟨hhangs, hnone⟩ | ⟨s', hret, hrounds⟩
      · exact Or.inl ⟨hhangs, .round hround hnone⟩
      · refine Or.inr ⟨s', .round hround hret, ?_, ?_⟩
        · rw [hrounds.written, hwritten, List.append_assoc, List.singleton_append,
            ← List.replicate_succ, List.length_cons]
        · rw [hrounds.printed, hprinted, List.length_cons]
          omega

/-! ### The command -/

/-- The disk holds the file `KRNL    SYS`, with the entry `e` and the clusters `cs`. -/
structure HoldsFile (d : Drive) (e : Bytes) (cs : List ℕ) : Prop where
  entry : rootEntry d (fatMount d) (string krnlPath) = some e
  file : attrib e ≠ 0x10
  first : cs.head? = some (firstCluster e).toNat
  chain : Fat12.Chain (tableByte d) cs
  range : ∀ x ∈ cs, 2 ≤ x ∧ x ≤ 0xFEF

theorem HoldsFile.length_pos {e : Bytes} {cs : List ℕ} (h : HoldsFile d e cs) : 0 < cs.length := by
  cases cs with
  | nil => exact absurd h.first (by simp)
  | cons x xs => exact Nat.succ_pos _

/-- The bytes of the clusters of a file. -/
def contents (d : Drive) (cs : List ℕ) : List (BitVec 8) :=
  cs.flatMap fun x => (List.range 512).map (clusterSector d (fatMount d) x)

/-- Every call of `vol_read_file` writes only to the block that `malloc` returned. -/
def Inside (buf : VirtualAddr) (h : Malloc) (s : ReadState) : Prop :=
  ∀ addrs ∈ s.written, ∀ a ∈ addrs, a - buf < nodeSize h.mem (buf - mallocBlockSize)

theorem length_contents (d : Drive) (cs : List ℕ) : (contents d cs).length = 512 * cs.length := by
  induction cs with
  | nil => rfl
  | cons x cs ih =>
    rw [contents, List.flatMap_cons, List.length_append, List.length_map, List.length_range,
      List.length_cons, ← contents, ih]
    omega

/-- Byte 128 of the sector is behind the block. -/
theorem not_inside {h : Malloc} {n : ℕ} (hn : 0 < n)
    (hsize : nodeSize h.mem (buf - mallocBlockSize) = 128)
    (hwritten : s.written = List.replicate n (sectorAddrs buf)) : ¬ Inside buf h s := by
  intro hinside
  have hcall : sectorAddrs buf ∈ s.written := by
    rw [hwritten]
    exact List.mem_replicate.mpr ⟨by omega, rfl⟩
  have haddr : buf + BitVec.ofNat 32 128 ∈ sectorAddrs buf :=
    List.mem_map.mpr ⟨128, List.mem_range.mpr (by decide), rfl⟩
  have hlt := hinside _ hcall _ haddr
  rw [hsize, BitVec.add_comm, BitVec.add_sub_cancel] at hlt
  exact absurd hlt (by decide)

section Command

variable {u : Leftovers} {path : BitVec 32} {h h' : Malloc} {fresh : Mem} {e : Bytes} {cs : List ℕ}
  {rounds : ℕ}

/-- The file is opened at its first cluster. -/
theorem volOpenFileFat_krnl (hfat : fat ≠ 0) (hv : Registered fat v) (hp : path ≠ 0)
    (hpath : HoldsString v.mem path krnlPath) (hfile : HoldsFile d e cs) (rounds : ℕ) :
    volOpenFileFat d fat v u path rounds =
      some { fileFrom u.file krnlPath e with deviceId := 0x61 } := by
  have hspells : Spells v.mem path krnlPath 1 := hpath
  have h1 : bytesAt v.mem path 1 ≠ 0x3A := by
    rw [hpath 1 (by decide)]
    decide
  have hname : Spells v.mem (if bytesAt v.mem path 1 = 0x3A then path + 2 else path) (nameOf krnlPath)
      11 := by
    rw [if_neg h1]
    exact hpath
  exact volOpenFileFat_found hp hfat (by decide) (by decide) hspells hname hv (by decide) (by decide)
    (by decide) hfile.entry hfile.file rounds

variable (buf) in
/-- The loop of `cmd_read`, entered with the file. -/
theorem returns_cmdReadBody_krnl (hfat : fat ≠ 0) (hv : Registered fat v) (hq : ∀ k, c.quits k = false)
    (hfile : HoldsFile d e cs) (f : File) (mem : Mem) :
    (c.Hangs ∧ Loop.Returns (cmdReadBody d fat v c buf)
      ⟨mem, { fileFrom f krnlPath e with deviceId := 0x61 }, [], [], 0⟩ none) ∨
    ∃ s, Loop.Returns (cmdReadBody d fat v c buf)
        ⟨mem, { fileFrom f krnlPath e with deviceId := 0x61 }, [], [], 0⟩ (some s) ∧
      s.written = List.replicate cs.length (sectorAddrs buf) ∧ s.printed.length = 128 * cs.length := by
  obtain ⟨x, xs, rfl, hx⟩ : ∃ x xs, cs = x :: xs ∧ x = (firstCluster e).toNat := by
    cases cs with
    | nil => exact absurd hfile.first (by simp)
    | cons x xs => exact ⟨x, xs, rfl, Option.some.inj hfile.first⟩
  have hcluster : ((firstCluster e).setWidth 32).toNat = x := by
    rw [hx, BitVec.toNat_setWidth_of_le (by omega)]
  rcases returns_cmdReadBody (s := ⟨mem, { fileFrom f krnlPath e with deviceId := 0x61 }, [], [], 0⟩)
    hfat hv hq ⟨hfile.chain, hfile.range, hcluster, rfl⟩ rfl with hnone | ⟨s, hret, hrounds⟩
  · exact Or.inl hnone
  · refine Or.inr ⟨s, hret, ?_, ?_⟩
    · rw [hrounds.written, List.nil_append, List.length_cons]
    · rw [hrounds.printed, List.length_nil, Nat.zero_add, List.length_cons]

variable (hfat : fat ≠ 0) (hv : Registered fat v) (hp : path ≠ 0)
  (hpath : HoldsString v.mem path krnlPath) (hfile : HoldsFile d e cs) (hq : ∀ k, c.quits k = false)
include hfat hv hp hpath hfile hq

/-- **What `cmd_read` has done** when it returns: a sector has been written to the buffer for each
cluster, and 128 bytes have been printed. -/
theorem cmdRead_spec (hhead : h.mallocListHead = Malloc.mallocVirtAddr)
    (heq : cmdRead d fat v u path c h fresh rounds = some (buf, h', s)) :
    nodeSize h'.mem (buf - mallocBlockSize) = 128 ∧
      s.written = List.replicate cs.length (sectorAddrs buf) ∧ s.printed.length = 128 * cs.length := by
  obtain ⟨file, hopen, heq⟩ := Option.bind_eq_some_iff.mp heq
  obtain ⟨⟨buf', h₁⟩, hmalloc, heq⟩ := Option.bind_eq_some_iff.mp heq
  obtain ⟨mem, -, heq⟩ := Option.bind_eq_some_iff.mp heq
  obtain ⟨r, hrun, heq⟩ := Option.bind_eq_some_iff.mp heq
  obtain ⟨s₁, rfl, heq⟩ := Option.bind_eq_some_iff.mp heq
  obtain ⟨rfl, rfl, rfl⟩ : buf' = buf ∧ h₁ = h' ∧ s₁ = s := by simpa using heq
  obtain ⟨cur, rfl, hhands⟩ := Malloc.hands_of_syscallMalloc hhead (by decide) hmalloc
  rw [BitVec.add_sub_cancel]
  refine ⟨hhands.size, ?_⟩
  rw [volOpenFileFat_krnl hfat hv hp hpath hfile] at hopen
  obtain rfl := Option.some.inj hopen
  have hret := Loop.returns_iff_run.mpr ⟨rounds, hrun⟩
  rcases returns_cmdReadBody_krnl _ hfat hv hq hfile u.file mem with ⟨-, hnone⟩ | ⟨s, hsome, hs⟩
  · exact absurd (hret.unique hnone) (by simp)
  · obtain rfl := Option.some.inj (hret.unique hsome)
    exact hs

/-- **`cmd_read` returns**, if `malloc` and `printf` do. -/
theorem exists_cmdRead (hmalloc : h.syscallMalloc fresh 128 = some (buf, h')) (hc : ¬ c.Hangs) :
    ∃ rounds s, cmdRead d fat v u path c h fresh rounds = some (buf, h', s) := by
  obtain ⟨mem, hmem⟩ := Option.ne_none_iff_exists'.mp fun hnone => hc ⟨.title, h'.mem, hnone⟩
  rcases returns_cmdReadBody_krnl buf hfat hv hq hfile u.file mem with ⟨hhangs, -⟩ | ⟨s, hsome, -⟩
  · exact absurd hhangs hc
  · obtain ⟨rounds, hrun⟩ := Loop.returns_iff_run.mp hsome
    refine ⟨rounds, s, ?_⟩
    refine Option.bind_eq_some_iff.mpr ⟨_, volOpenFileFat_krnl hfat hv hp hpath hfile rounds, ?_⟩
    refine Option.bind_eq_some_iff.mpr ⟨_, hmalloc, ?_⟩
    refine Option.bind_eq_some_iff.mpr ⟨_, hmem, ?_⟩
    exact Option.bind_eq_some_iff.mpr ⟨_, hrun, rfl⟩

end Command

/-- What `read` is for: it returns, all calls of `vol_read_file` write to the block of the buffer, and the
bytes of the file are printed. -/
def ReadOk (d : Drive) (fat : BitVec 32) (v : Volume) (u : Leftovers) (path : BitVec 32) (c : Console)
    (h : Malloc) (fresh : Mem) (cs : List ℕ) : Prop :=
  ∃ rounds buf h' s, cmdRead d fat v u path c h fresh rounds = some (buf, h', s) ∧
    Inside buf h' s ∧ s.printed = contents d cs

/-- **The command `read`** does not do this for any file or any heap, and where it returns it has done
neither. -/
theorem cmdRead_not_ok (d : Drive) (fat : BitVec 32) (v : Volume) (u : Leftovers) (path : BitVec 32)
    (c : Console) (h : Malloc) (fresh : Mem) (e : Bytes) (cs : List ℕ) (hfat : fat ≠ 0)
    (hv : Registered fat v) (hp : path ≠ 0) (hpath : HoldsString v.mem path krnlPath)
    (hfile : HoldsFile d e cs) (hhead : h.mallocListHead = Malloc.mallocVirtAddr)
    (hq : ∀ k, c.quits k = false) :
    ¬ ReadOk d fat v u path c h fresh cs ∧
      ∀ rounds buf h' s, cmdRead d fat v u path c h fresh rounds = some (buf, h', s) →
        ¬ Inside buf h' s ∧ s.printed ≠ contents d cs := by
  have hpos : 0 < cs.length := hfile.length_pos
  have hfails : ∀ rounds buf h' s, cmdRead d fat v u path c h fresh rounds = some (buf, h', s) →
      ¬ Inside buf h' s ∧ s.printed ≠ contents d cs := by
    intro rounds buf h' s heq
    obtain ⟨hsize, hwritten, hprinted⟩ := cmdRead_spec hfat hv hp hpath hfile hq hhead heq
    refine ⟨not_inside hpos hsize hwritten, fun hshown => ?_⟩
    rw [hshown, length_contents] at hprinted
    omega
  refine ⟨?_, hfails⟩
  rintro ⟨rounds, buf, h', s, heq, hinside, -⟩
  exact (hfails rounds buf h' s heq).1 hinside

/-! ### A file of one cluster -/

/-- A disk with the kernel image in cluster 2. -/
def imageDisk : Drive :=
  disk [0xF0, 0xFF, 0xFF, 0xFF, 0x0F] (krnlPath ++ [0x20] ++ List.replicate 14 0 ++ [2])

/-- A console where `printf` uses no memory, and a user who does not quit. -/
def patientConsole : Console := ⟨fun _ m => some m, fun _ => false⟩

theorem holdsFile_imageDisk : ∃ e, HoldsFile imageDisk e [2] := by
  have hfound : (rootEntry imageDisk (fatMount imageDisk) (string krnlPath)).map
      (fun e => (attrib e, firstCluster e)) = some (0x20, 2) := by
    decide +kernel
  obtain ⟨e, he, heq⟩ := Option.map_eq_some_iff.mp hfound
  obtain ⟨hattrib, hfirst⟩ := Prod.mk.inj heq
  refine ⟨e, he, ?_, ?_, by decide +kernel, by decide⟩
  · rw [hattrib]
    decide
  · rw [hfirst]
    rfl

theorem registered_krnlPath : Registered 4 (pathVolume 4 krnlPath) := registered_pathVolume 4 (by decide)

theorem holdsString_krnlPath : HoldsString (pathVolume 4 krnlPath).mem 0x1000 krnlPath := fun i hi =>
  bytesAt_pathMem 4 (Nat.lt_of_le_of_lt hi (by decide))

/-- The command returns there. -/
theorem exists_cmdRead_imageDisk : ∃ rounds h' s,
    cmdRead imageDisk 4 (pathVolume 4 krnlPath) (leftovers 0) 0x1000 patientConsole
      (Malloc.newHeap Vmmngr.smallMachine.vmmngrInit).1 (fun _ => 0) rounds = some (12, h', s) := by
  obtain ⟨e, he⟩ := holdsFile_imageDisk
  obtain ⟨h', hmalloc, -, -⟩ := Malloc.syscallMalloc_smallMachine (n := 128) (fun _ => 0) (by decide)
    (by decide)
  have hreturns : ¬ patientConsole.Hangs := by
    rintro ⟨msg, m, hnone⟩
    exact Option.some_ne_none m hnone
  obtain ⟨rounds, s, heq⟩ := exists_cmdRead (u := leftovers 0) (by decide) registered_krnlPath (by decide)
    holdsString_krnlPath he (fun _ => rfl) hmalloc hreturns
  exact ⟨rounds, h', s, heq⟩

/-- A sector is written to the 128 bytes of the buffer, and a quarter of it is shown. -/
theorem cmdRead_not_ok_imageDisk : ∃ rounds h' s,
    cmdRead imageDisk 4 (pathVolume 4 krnlPath) (leftovers 0) 0x1000 patientConsole
      (Malloc.newHeap Vmmngr.smallMachine.vmmngrInit).1 (fun _ => 0) rounds = some (12, h', s) ∧
    ¬ Inside 12 h' s ∧ s.printed ≠ contents imageDisk [2] := by
  obtain ⟨e, he⟩ := holdsFile_imageDisk
  obtain ⟨rounds, h', s, heq⟩ := exists_cmdRead_imageDisk
  have hfails := (cmdRead_not_ok imageDisk 4 _ (leftovers 0) 0x1000 patientConsole
    (Malloc.newHeap Vmmngr.smallMachine.vmmngrInit).1 (fun _ => 0) e [2] (by decide)
    registered_krnlPath (by decide) holdsString_krnlPath he rfl fun _ => rfl).2
  exact ⟨rounds, h', s, heq, hfails rounds 12 h' s heq⟩

/-- So the command does not work for all files. -/
theorem not_cmdRead_ok :
    ¬ ∀ (d : Drive) (fat : BitVec 32) (v : Volume) (u : Leftovers) (path : BitVec 32) (c : Console)
      (h : Malloc) (fresh : Mem) (e : Bytes) (cs : List ℕ), fat ≠ 0 → Registered fat v → path ≠ 0 →
      HoldsString v.mem path krnlPath → HoldsFile d e cs →
      h.mallocListHead = Malloc.mallocVirtAddr → (∀ k, c.quits k = false) →
      ReadOk d fat v u path c h fresh cs := by
  intro hall
  obtain ⟨e, he⟩ := holdsFile_imageDisk
  obtain ⟨rounds, buf, h', s, heq, hinside, -⟩ := hall imageDisk 4 _ (leftovers 0) 0x1000 patientConsole
    (Malloc.newHeap Vmmngr.smallMachine.vmmngrInit).1 (fun _ => 0) e [2] (by decide)
    registered_krnlPath (by decide) holdsString_krnlPath he rfl fun _ => rfl
  obtain ⟨hsize, hwritten, -⟩ := cmdRead_spec (by decide) registered_krnlPath (by decide)
    holdsString_krnlPath he (fun _ => rfl) rfl heq
  exact not_inside (by decide) hsize hwritten hinside

end FanOS.Shell
