import FanOS.Boot.Equiv.MemoryMap
import FanOS.Boot.FirstStage

/-!
# What the boot sector leaves

The boot sector is the second stage at other addresses: its directory is that of the second stage moved up
by `0x5000` (`findImage_moved`) and its table by `0x5200` (`nextCluster_moved`), so what is known of the
second stage applies to memory moved down.

The image grows towards the boot sector and not over the table.  It arrives as it is on the disk when it
is at most 59 sectors long (`main_of_holdsFile`); the 60th is read over the boot sector
(`main_of_long_file`).
-/

namespace FanOS.Boot.FirstStage

variable {f : Floppy} {m m₀ m' : Mem} {es ax bx bx' c di : BitVec 16} {sp cx k : ℕ} {cs ds : List ℕ}
  {name : List (BitVec 8)}

/-! ### Reading -/

/-- Clear of the boot sector, `read_sectors` is that of the second stage. -/
theorem readSectors_of_clear (hsp : sp ≤ 0xFFFF) (h : Boot.readSectors f es sp cx ax bx m = .ok (bx', m'))
    (hclear : 16 * es.toNat + bx.toNat + cx * 512 ≤ 0x7C00 ∨ 0x7E00 ≤ 16 * es.toNat + bx.toNat) :
    readSectors f es sp cx ax bx m = .ok (bx', m') := by
  induction cx generalizing ax bx m with
  | zero =>
    rw [Boot.readSectors, Except.ok.injEq] at h
    rw [readSectors, h]
  | succ cx ih =>
    obtain ⟨s, hs, hfit, hrest⟩ := of_readSectors_succ h
    have hnext := toNat_add_bytesPerSector hsp hfit
    have hover : ¬overLoader es bx := by
      unfold overLoader
      rw [toNat_linear]
      omega
    rw [readSectors, hs]
    simp only
    rw [if_neg hover, if_pos hfit]
    exact ih hrest (by omega)

/-- A sector of the disk that would be read over the boot sector ends the boot. -/
theorem readSectors_of_over (hax : ax.toNat < 2880) (hover : overLoader es bx) :
    readSectors f es sp (cx + 1) ax bx m = .error .loaderOverwritten := by
  rw [readSectors, sectorLoop_of_lt f hax]
  exact if_pos hover

/-! ### Memory moved -/

/-- Memory as it is `s` bytes further up. -/
def moved (s : BitVec 32) (m : Mem) : Mem := fun a => m (a + s)

theorem load16_moved (s : BitVec 32) (m : Mem) (a : BitVec 32) :
    (moved s m).load16 a = m.load16 (a + s) := by
  rw [Mem.load16, Mem.load16, moved, moved, show a + 1 + s = a + s + 1 by bv_omega]

theorem linear_bootSeg (hdi : di.toNat < 0xD400) :
    linear bootSeg di = linear 0 (di + 0x2C00) + 0x5000 := by
  unfold linear bootSeg
  bv_omega

theorem cmpsb_moved (hdi : di.toNat + name.length ≤ 0xD400) :
    cmpsb m name di = Boot.cmpsb (moved 0x5000 m) name (di + 0x2C00) := by
  induction name generalizing di with
  | nil => rfl
  | cons b name ih =>
    rw [List.length_cons] at hdi
    have hnext : di + 0x2C00 + 1 = di + 1 + 0x2C00 := by bv_omega
    rw [cmpsb, Boot.cmpsb, hnext, ← ih (by bv_omega), linear_bootSeg (by omega), moved]

/-- The search is that of the second stage, in the directory moved down. -/
theorem findImage_moved (hname : name.length ≤ 32) (hdi : di.toNat + cx * 32 ≤ 0xD400) :
    (findImage m name cx di).map (· + 0x2C00) =
      Boot.findImage (moved 0x5000 m) name cx (di + 0x2C00) := by
  induction cx generalizing di with
  | zero => rfl
  | succ cx ih =>
    have hnext : di + 0x2C00 + 0x20 = di + 0x20 + 0x2C00 := by bv_omega
    rw [findImage, Boot.findImage, ← cmpsb_moved (by omega), hnext]
    split_ifs
    · rfl
    · exact ih (by bv_omega)

/-- So is the step to the next cluster, with the table moved down. -/
theorem nextCluster_moved (hc : c.toNat ≤ 2848) :
    nextCluster m c = Boot.nextCluster (moved 0x5200 m) c := by
  have haddr : linear bootSeg (bufferOffset + (c + c >>> 1)) = linear fatSeg (c + c >>> 1) + 0x5200 := by
    have hshift : (c >>> 1).toNat = c.toNat / 2 := by
      rw [BitVec.toNat_ushiftRight, Nat.shiftRight_eq_div_pow, Nat.pow_one]
    have hsum : (c + c >>> 1).toNat = c.toNat + c.toNat / 2 := by
      rw [BitVec.toNat_add, hshift]
      omega
    unfold linear bootSeg bufferOffset fatSeg
    bv_omega
  rw [nextCluster, Boot.nextCluster, load16_moved, haddr]

/-! ### The directory and the tables -/

/-- The root directory is read behind the boot sector, and nothing below it changes. -/
theorem readRoot_spec (f : Floppy) (m : Mem) :
    ∃ bx' m', readSectors f bootSeg rootSp (rootSectors bpb).toNat (rootBase bpb) bufferOffset m =
        .ok (bx', m') ∧ HasRoot f (moved 0x5000 m') ∧
      ∀ x < 0x7C00, m' (BitVec.ofNat 32 x) = m (BitVec.ofNat 32 x) := by
  obtain ⟨bx', m', heq, -, hm'⟩ := readSectors_spec f bootSeg rootSp (rootSectors bpb).toNat
    (rootBase bpb) bufferOffset m (by decide) (by decide) (by decide)
  have hcx : (rootSectors bpb).toNat = 14 := by decide
  have hbase : 16 * bootSeg.toNat + bufferOffset.toNat = 0x7E00 := by decide
  have hax : (rootBase bpb).toNat = 19 := by decide
  simp only [hcx, hbase, hax] at hm'
  refine ⟨bx', m', readSectors_of_clear (by decide) heq (Or.inr (by decide)), fun o ho => ?_, fun x hx => ?_⟩
  · rw [moved, show (0x5000 : BitVec 32) = BitVec.ofNat 32 0x5000 from rfl, ← BitVec.ofNat_add,
      hm' _ (by omega), if_pos (by omega), show 0x2E00 + o + 0x5000 - 0x7E00 = o by omega]
  · rw [hm' _ (by omega), if_neg (by omega)]

/-- The tables are read over it. -/
theorem readFat_spec (f : Floppy) (m : Mem) :
    ∃ bx' m', readSectors f bootSeg loadSp (fatSectors bpb).toNat bpb.reservedSectors bufferOffset m =
        .ok (bx', m') ∧ (∀ o < 9216, m' (BitVec.ofNat 32 (0x7E00 + o)) = f.fat o) ∧
      ∀ x < 0x7C00, m' (BitVec.ofNat 32 x) = m (BitVec.ofNat 32 x) := by
  obtain ⟨bx', m', heq, -, hm'⟩ := readSectors_spec f bootSeg loadSp (fatSectors bpb).toNat
    bpb.reservedSectors bufferOffset m (by decide) (by decide) (by decide)
  have hcx : (fatSectors bpb).toNat = 18 := by decide
  have hbase : 16 * bootSeg.toNat + bufferOffset.toNat = 0x7E00 := by decide
  have hax : bpb.reservedSectors.toNat = 1 := by decide
  simp only [hcx, hbase, hax] at hm'
  refine ⟨bx', m', readSectors_of_clear (by decide) heq (Or.inr (by decide)), fun o ho => ?_, fun x hx => ?_⟩
  · rw [hm' _ (by omega), if_pos (by omega), Nat.add_sub_cancel_left]
    rfl
  · rw [hm' _ (by omega), if_neg (by omega)]

/-- The entry of the file, in the directory in memory. -/
theorem findImage_of_named (hm : HasRoot f (moved 0x5000 m)) (hname : name.length ≤ 32) {i : ℕ}
    (hi : i < 224) (hnamed : f.Named name i) (hfirst : ∀ j < i, ¬f.Named name j) :
    findImage m name bpb.rootEntries.toNat bufferOffset = some (BitVec.ofNat 16 (0x200 + 32 * i)) := by
  have hfound := findImage_eq hm hname hi hnamed hfirst (Nat.zero_le i)
  have hmoved : (findImage m name 224 bufferOffset).map (· + 0x2C00) =
      Boot.findImage (moved 0x5000 m) name 224 (bufferOffset + 0x2C00) := findImage_moved hname (by decide)
  rw [show bufferOffset + 0x2C00 = BitVec.ofNat 16 (0x2E00 + 32 * 0) from rfl, hfound,
    Option.map_eq_some_iff] at hmoved
  obtain ⟨di, hdi, hsum⟩ := hmoved
  have hsame : di = BitVec.ofNat 16 (0x200 + 32 * i) := by bv_omega
  rw [show bpb.rootEntries.toNat = 224 from rfl, hdi, hsame]

/-- Without an entry of the name there is nothing to find. -/
theorem findImage_of_absent (hm : HasRoot f (moved 0x5000 m)) (hname : name.length ≤ 32)
    (habsent : ∀ i < 224, ¬f.Named name i) :
    findImage m name bpb.rootEntries.toNat bufferOffset = none := by
  have hrest : ∀ n i, i + n ≤ 224 →
      Boot.findImage (moved 0x5000 m) name n (BitVec.ofNat 16 (0x2E00 + 32 * i)) = none := by
    intro n
    induction n with
    | zero => exact fun _ _ => rfl
    | succ n ih =>
      intro i hi
      have hskip : ¬Boot.cmpsb (moved 0x5000 m) name (BitVec.ofNat 16 (0x2E00 + 32 * i)) = true :=
        fun h => habsent i (by omega) ((cmpsb_entry_iff hm hname (by omega)).mp h)
      have hnext : BitVec.ofNat 16 (0x2E00 + 32 * i) + 0x20 =
          BitVec.ofNat 16 (0x2E00 + 32 * (i + 1)) := by bv_omega
      rw [Boot.findImage, if_neg hskip, hnext]
      exact ih (i + 1) (by omega)
  have hmoved : (findImage m name 224 bufferOffset).map (· + 0x2C00) =
      Boot.findImage (moved 0x5000 m) name 224 (bufferOffset + 0x2C00) := findImage_moved hname (by decide)
  rw [show bufferOffset + 0x2C00 = BitVec.ofNat 16 (0x2E00 + 32 * 0) from rfl,
    hrest 224 0 (by decide)] at hmoved
  exact Option.map_eq_none_iff.mp hmoved

/-! ### The image -/

/-- The clusters `cs` lie at `0x0500`, the tables behind the boot sector, and what else is below the boot
sector is what was there. -/
structure Placed (f : Floppy) (m₀ m : Mem) (cs : List ℕ) : Prop where
  table : ∀ o < 9216, m (BitVec.ofNat 32 (0x7E00 + o)) = f.fat o
  below : ∀ x < 0x7C00, m (BitVec.ofNat 32 x) =
    if 0x500 ≤ x ∧ x < 0x500 + cs.length * 512 then f.bytes cs (x - 0x500) else m₀ (BitVec.ofNat 32 x)

/-- The loop decodes the entry that is on the disk. -/
theorem Placed.toNat_nextCluster (h : Placed f m₀ m cs) (hc : c.toNat ≤ 2848) :
    (nextCluster m c).toNat = Fat12.entry f.fat c.toNat := by
  have hload : Loaded f (moved 0x5200 m) [] := by
    refine ⟨fun o ho => ?_, fun i hi => absurd hi (by simp)⟩
    rw [moved, show (0x5200 : BitVec 32) = BitVec.ofNat 32 0x5200 from rfl, ← BitVec.ofNat_add,
      Nat.add_right_comm, h.table o ho, Floppy.tableUnder, if_neg (by simp)]
  rw [nextCluster_moved hc, Boot.toNat_nextCluster hload hc]
  apply Fat12.entry_congr <;> exact if_neg (by simp)

/-- A cluster read behind those before it. -/
theorem Placed.append {c n : ℕ} (h : Placed f m₀ m cs) (hn : cs.length * 512 = n) (hlt : n + 512 ≤ 0x7700)
    (hm' : ∀ x < 2 ^ 32, m' (BitVec.ofNat 32 x) =
      if 0x500 + n ≤ x ∧ x < 0x500 + n + 512 then f.cluster c (x - (0x500 + n))
      else m (BitVec.ofNat 32 x)) :
    Placed f m₀ m' (cs ++ [c]) := by
  have hlen : (cs ++ [c]).length * 512 = n + 512 := by
    rw [List.length_append, List.length_singleton, Nat.add_one_mul, hn]
  have hnew : ∀ i < 512, f.bytes (cs ++ [c]) (n + i) = f.cluster c i := fun i hi => by
    rw [← hn]
    exact Fat12.content_append_cons cs [] hi
  have hold : ∀ i < n, f.bytes (cs ++ [c]) i = f.bytes cs i := fun i hi =>
    Fat12.content_append_of_lt cs _ (by rwa [hn])
  have hbelow := h.below
  rw [hn] at hbelow
  constructor
  · intro o ho
    rw [hm' _ (by omega), if_neg (by omega), h.table o ho]
  · intro x hx
    rw [hm' x (by omega), hlen, hbelow x hx]
    by_cases h1 : 0x500 + n ≤ x ∧ x < 0x500 + n + 512
    · obtain ⟨i, rfl⟩ := Nat.exists_eq_add_of_le h1.1
      rw [if_pos h1, if_pos (by omega), Nat.add_sub_cancel_left, Nat.add_assoc, Nat.add_sub_cancel_left,
        hnew i (by omega)]
    · rw [if_neg h1]
      by_cases h2 : 0x500 ≤ x ∧ x < 0x500 + n
      · rw [if_pos h2, if_pos (by omega), hold _ (by omega)]
      · rw [if_neg h2, if_neg (by omega)]

theorem loadImage_eq (f : Floppy) (c bx : BitVec 16) (m : Mem) :
    loadImage f c bx m =
      match readSectors f imageSeg loadSp 1 (clusterLba bpb (datasector bpb) c) bx m with
      | .error e => .error e
      | .ok (bx', m') =>
        if nextCluster m' c < 0x0FF0 then loadImage f (nextCluster m' c) bx' m' else .ok m' := by
  rw [loadImage]
  split <;> rename_i h <;> rw [show 1 = bpb.sectorsPerCluster.toNat from rfl, h]

/-- **One round** of the loop. -/
theorem loadImage_round (h : Placed f m₀ m cs) (hbx : bx.toNat = cs.length * 512) (hc : c.toNat ≤ 2848)
    (hlen : cs.length < 59) :
    ∃ bx' m', Placed f m₀ m' (cs ++ [c.toNat]) ∧ bx'.toNat = (cs ++ [c.toNat]).length * 512 ∧
      loadImage f c bx m =
        if nextCluster m' c < 0x0FF0 then loadImage f (nextCluster m' c) bx' m' else .ok m' := by
  have hlba := toNat_clusterLba (c := c) (by omega)
  have hbase : 16 * imageSeg.toNat = 0x500 := rfl
  have hsp : loadSp - 12 = 0xFFEF := rfl
  obtain ⟨bx', m', heq, hbx', hm'⟩ := readSectors_spec f imageSeg loadSp 1
    (clusterLba bpb (datasector bpb) c) bx m (by omega) (by decide) (by omega)
  simp only [hbase, Nat.one_mul, hbx, hlba] at hm'
  refine ⟨bx', m', h.append rfl (by omega) hm', ?_, ?_⟩
  · rw [hbx', hbx, List.length_append, List.length_singleton, Nat.add_mul]
  · rw [loadImage_eq, readSectors_of_clear (by decide) heq (Or.inl (by omega))]

/-- The loop reads the chain of the file. -/
theorem loadImage_of_chain (h : Placed f m₀ m cs) (hbx : bx.toNat = cs.length * 512)
    (hds : ∀ d ∈ c.toNat :: ds, d ≤ 2848) (hlen : cs.length + (ds.length + 1) ≤ 59)
    (hchain : Fat12.Chain f.fat (c.toNat :: ds)) :
    ∃ m', loadImage f c bx m = .ok m' ∧ Placed f m₀ m' (cs ++ c.toNat :: ds) := by
  have hc : c.toNat ≤ 2848 := hds _ List.mem_cons_self
  induction ds generalizing cs c bx m with
  | nil =>
    obtain ⟨bx', m', hplaced, -, heq⟩ := loadImage_round h hbx hc (by omega)
    have hend : 0xFF8 ≤ (nextCluster m' c).toNat := by
      rw [hplaced.toNat_nextCluster hc]
      exact hchain
    exact ⟨m', by rw [heq, if_neg (by bv_omega)], hplaced⟩
  | cons d ds ih =>
    rw [List.length_cons] at hlen
    obtain ⟨bx', m', hplaced, hbx', heq⟩ := loadImage_round h hbx hc (by omega)
    obtain ⟨hentry, hrest⟩ := hchain
    obtain rfl : (nextCluster m' c).toNat = d := by rw [hplaced.toNat_nextCluster hc, hentry]
    have hds' : ∀ e ∈ (nextCluster m' c).toNat :: ds, e ≤ 2848 :=
      fun e he => hds e (List.mem_cons_of_mem _ he)
    have hd := hds' _ List.mem_cons_self
    have hone : (cs ++ [c.toNat]).length = cs.length + 1 := by simp
    obtain ⟨m'', heq', hplaced'⟩ := ih hplaced hbx' hds' (by omega) hrest hd
    rw [List.append_cons]
    exact ⟨m'', by rw [heq, if_pos (by bv_omega), heq'], hplaced'⟩

/-- Where 59 sectors end, the next one is read over the boot sector. -/
theorem loadImage_of_full (hbx : bx.toNat = 59 * 512) (hc : c.toNat ≤ 2848) :
    loadImage f c bx m = .error .loaderOverwritten := by
  have hlba := toNat_clusterLba (c := c) (by omega)
  have hover : overLoader imageSeg bx := by
    unfold overLoader
    rw [toNat_linear, show imageSeg.toNat = 0x50 from rfl]
    omega
  rw [loadImage_eq, readSectors_of_over (by omega) hover]

/-- So does a longer image. -/
theorem loadImage_of_long_chain (h : Placed f m₀ m cs) (hbx : bx.toNat = cs.length * 512)
    (hds : ∀ d ∈ c.toNat :: ds, d ≤ 2848) (hle : cs.length ≤ 59) (hlen : 59 < cs.length + (ds.length + 1))
    (hchain : Fat12.Chain f.fat (c.toNat :: ds)) :
    loadImage f c bx m = .error .loaderOverwritten := by
  have hc : c.toNat ≤ 2848 := hds _ List.mem_cons_self
  induction ds generalizing cs c bx m with
  | nil =>
    rw [List.length_nil] at hlen
    exact loadImage_of_full (by rw [hbx, show cs.length = 59 by omega]) hc
  | cons d ds ih =>
    rw [List.length_cons] at hlen
    obtain h59 | h59 := Nat.eq_or_lt_of_le hle
    · exact loadImage_of_full (by rw [hbx, h59]) hc
    · obtain ⟨bx', m', hplaced, hbx', heq⟩ := loadImage_round h hbx hc h59
      obtain ⟨hentry, hrest⟩ := hchain
      obtain rfl : (nextCluster m' c).toNat = d := by rw [hplaced.toNat_nextCluster hc, hentry]
      have hds' : ∀ e ∈ (nextCluster m' c).toNat :: ds, e ≤ 2848 :=
        fun e he => hds e (List.mem_cons_of_mem _ he)
      have hd := hds' _ List.mem_cons_self
      have hone : (cs ++ [c.toNat]).length = cs.length + 1 := by simp
      rw [heq, if_pos (by bv_omega)]
      exact ih hplaced hbx' hds' (by omega) (by omega) hrest hd

/-! ### The boot sector as a whole -/

/-- Without a second stage in the root directory the boot sector says so. -/
theorem main_of_absent (habsent : ∀ i < 224, ¬f.Named imageName i) (m : Mem) :
    main f m = .error (.disk .noImage) := by
  obtain ⟨bx', m₁, hroot, hm₁, -⟩ := readRoot_spec f m
  have hnone := findImage_of_absent hm₁ (by decide) habsent
  rw [main, hroot]
  simp only [bind, Except.bind, hnone]

/-- With one, the first of its name is read, behind the tables. -/
theorem main_of_named {i : ℕ} (hi : i < 224) (hnamed : f.Named imageName i)
    (hfirst : ∀ j < i, ¬f.Named imageName j) (m : Mem) :
    ∃ (c : BitVec 16) (m₂ : Mem), c.toNat = f.firstCluster i ∧ Placed f m m₂ [] ∧
      main f m = loadImage f c 0 m₂ := by
  obtain ⟨bx₁, m₁, hroot, hm₁, hbelow₁⟩ := readRoot_spec f m
  obtain ⟨bx₂, m₂, hfat, htable, hbelow₂⟩ := readFat_spec f m₁
  have hfound := findImage_of_named hm₁ (by decide) hi hnamed hfirst
  -- the first cluster is read before the tables overwrite the directory
  obtain ⟨c, hc⟩ : ∃ c, c = m₁.load16 (linear bootSeg (BitVec.ofNat 16 (0x200 + 32 * i) + 0x1A)) := ⟨_, rfl⟩
  have haddr : linear bootSeg (BitVec.ofNat 16 (0x200 + 32 * i) + 0x1A) =
      linear rootSeg (BitVec.ofNat 16 (0x2E00 + 32 * i) - rootOffset + 0x1A) + 0x5000 := by
    unfold linear bootSeg rootSeg rootOffset
    bv_omega
  refine ⟨c, m₂, ?_, ⟨htable, fun x hx => ?_⟩, ?_⟩
  · rw [hc, haddr, ← load16_moved]
    exact toNat_load16_entry hm₁ hi
  · rw [if_neg (by simp only [List.length_nil]; omega), hbelow₂ x hx, hbelow₁ x hx]
  · rw [main, hroot]
    simp only [bind, Except.bind, hfound, hfat, hc]

/-- A second stage of at most 59 sectors arrives. -/
theorem main_of_holdsFile (hfile : f.HoldsFile imageName cs) (hlen : cs.length ≤ 59) (m : Mem) :
    ∃ m', main f m = .ok m' ∧ Placed f m m' cs := by
  obtain ⟨i, hi, hnamed, hfirst, hhead⟩ := hfile.entry
  obtain ⟨c, m₂, hc, hplaced, hmain⟩ := main_of_named hi hnamed hfirst m
  obtain _ | ⟨k, cs⟩ := cs
  · cases hhead
  obtain rfl : k = c.toNat := by rw [hc, ← Option.some.inj hhead]
  rw [hmain]
  exact loadImage_of_chain hplaced rfl (fun d hd => (hfile.range d hd).2) (by simpa using hlen) hfile.chain

/-- A longer one does not. -/
theorem main_of_long_file (hfile : f.HoldsFile imageName cs) (hlen : 59 < cs.length) (m : Mem) :
    main f m = .error .loaderOverwritten := by
  obtain ⟨i, hi, hnamed, hfirst, hhead⟩ := hfile.entry
  obtain ⟨c, m₂, hc, hplaced, hmain⟩ := main_of_named hi hnamed hfirst m
  obtain _ | ⟨k, cs⟩ := cs
  · cases hhead
  obtain rfl : k = c.toNat := by rw [hc, ← Option.some.inj hhead]
  rw [hmain]
  exact loadImage_of_long_chain hplaced rfl (fun d hd => (hfile.range d hd).2) (Nat.zero_le 59)
    (by simpa using hlen) hfile.chain

/-- **The second stage**: it is at `0x0500` as it is on the disk, and memory below the boot sector is
otherwise as before, exactly when it is at most 59 sectors long; a longer one is read over the boot
sector. -/
theorem second_stage_placed_iff (f : Floppy) (m : Mem) (cs : List ℕ) (hfile : f.HoldsFile imageName cs) :
    ((∃ m', main f m = .ok m' ∧ Placed f m m' cs) ↔ cs.length ≤ 59) ∧
      (main f m = .error .loaderOverwritten ↔ 59 < cs.length) := by
  constructor
  · refine ⟨?_, fun hlen => main_of_holdsFile hfile hlen m⟩
    rintro ⟨m', hmain, -⟩
    by_contra hlong
    rw [main_of_long_file hfile (by omega)] at hmain
    cases hmain
  · refine ⟨fun herr => ?_, fun hlen => main_of_long_file hfile hlen m⟩
    by_contra hshort
    obtain ⟨m', hmain, -⟩ := main_of_holdsFile hfile (by omega) m
    rw [hmain] at herr
    cases herr

/-- Two files of one sector: the second stage on cluster 2 and the kernel on cluster 4. -/
def bootFloppy : Floppy := fun a =>
  if a = 512 then 0xF8
  else if a = 513 ∨ a = 514 ∨ a = 515 ∨ a = 518 then 0xFF
  else if a = 516 ∨ a = 519 then 0x0F
  else if 9728 ≤ a ∧ a < 9739 then imageName.getD (a - 9728) 0
  else if a = 9754 then 2
  else if 9760 ≤ a ∧ a < 9771 then kernelImageName.getD (a - 9760) 0
  else if a = 9786 then 4
  else 0

/-- The bytes of a name, one by one. -/
theorem named_iff_getD (f : Floppy) (name : List (BitVec 8)) (i : ℕ) :
    f.Named name i ↔ ∀ j < name.length, f.dirEntry i j = name.getD j 0 := by
  constructor
  · intro h j hj
    rw [List.getD_eq_getElem _ _ hj]
    exact h j _ (List.getElem?_eq_getElem hj)
  · intro h j b hb
    obtain ⟨hj, rfl⟩ := List.getElem?_eq_some_iff.mp hb
    rw [h j hj, List.getD_eq_getElem _ _ hj]

theorem holdsFile_bootFloppy_image : bootFloppy.HoldsFile imageName [2] where
  entry := by
    simp only [named_iff_getD]
    exact ⟨0, by decide, by decide, by decide, by decide⟩
  range := by decide
  chain := by decide

/-- A second stage of one sector arrives. -/
theorem second_stage_placed_one_sector :
    ∃ m', main bootFloppy (fun _ => 0) = .ok m' ∧ Placed bootFloppy (fun _ => 0) m' [2] :=
  (second_stage_placed_iff bootFloppy _ [2] holdsFile_bootFloppy_image).1.mpr (by decide)

/-! ### Floppies of any kind -/

/-- One sector of an image of which `n` were read. -/
theorem readSectors_image {n : ℕ} (f : Floppy) (ax : BitVec 16) (m : Mem) (hbx : bx.toNat = n * 512)
    (hn : n ≤ 59) :
    (∃ e, readSectors f imageSeg loadSp 1 ax bx m = .error e ∧
        (e = .loaderOverwritten ∨ e = .disk .readError)) ∨
      n < 59 ∧ ∃ bx' m', readSectors f imageSeg loadSp 1 ax bx m = .ok (bx', m') ∧
        bx'.toNat = (n + 1) * 512 ∧ ∀ x < 2 ^ 32, x < 0x500 + n * 512 ∨ 0x500 + (n + 1) * 512 ≤ x →
          m' (BitVec.ofNat 32 x) = m (BitVec.ofNat 32 x) := by
  have haddr : (linear imageSeg bx).toNat = 0x500 + n * 512 := by
    rw [toNat_linear, hbx]
    rfl
  rw [readSectors]
  cases hs : sectorLoop f ax 5 with
  | none => exact Or.inl ⟨_, rfl, Or.inr rfl⟩
  | some s =>
    simp only
    by_cases hover : overLoader imageSeg bx
    · exact Or.inl ⟨_, if_pos hover, Or.inl rfl⟩
    · have h59 : n < 59 := by
        unfold overLoader at hover
        omega
      have hsp : loadSp - 12 = 0xFFEF := rfl
      rw [if_neg hover, if_pos (by omega)]
      refine Or.inr ⟨h59, _, _, rfl, ?_, fun x hx hout => ?_⟩
      · rw [show bpb.bytesPerSector = 512 from rfl]
        bv_omega
      · rw [linear_eq, hbx, show 16 * imageSeg.toNat = 0x500 from rfl,
          Mem.storeBlock_ofNat _ _ hx (by omega), if_neg (by omega)]

/-- The loop ends with an image of at most 59 sectors, or in one of two errors. -/
theorem loadImage_safe {n : ℕ} (f : Floppy) (c : BitVec 16) (m : Mem) (hbx : bx.toNat = n * 512)
    (hn : n ≤ 59) :
    (∃ e, loadImage f c bx m = .error e ∧ (e = .loaderOverwritten ∨ e = .disk .readError)) ∨
      ∃ n' m', loadImage f c bx m = .ok m' ∧ n < n' ∧ n' ≤ 59 ∧ ∀ x < 2 ^ 32,
        x < 0x500 + n * 512 ∨ 0x500 + n' * 512 ≤ x → m' (BitVec.ofNat 32 x) = m (BitVec.ofNat 32 x) := by
  -- induction on the sectors that still fit
  induction hr : 59 - n generalizing n c bx m with
  | zero =>
    rw [loadImage_eq]
    obtain ⟨e, hread, he⟩ | ⟨h59, -⟩ :=
      readSectors_image f (clusterLba bpb (datasector bpb) c) m hbx hn
    · exact Or.inl ⟨e, by rw [hread], he⟩
    · omega
  | succ r ih =>
    rw [loadImage_eq]
    obtain ⟨e, hread, he⟩ | ⟨h59, bx', m₁, hread, hbx', hm₁⟩ :=
      readSectors_image f (clusterLba bpb (datasector bpb) c) m hbx hn
    · exact Or.inl ⟨e, by rw [hread], he⟩
    · rw [hread]
      simp only
      split_ifs
      · obtain herr | ⟨n', m', hok, hlt, hle, hm'⟩ := ih (nextCluster m₁ c) m₁ hbx' h59 (by omega)
        · exact Or.inl herr
        · refine Or.inr ⟨n', m', hok, by omega, hle, fun x hx hout => ?_⟩
          have hread_le : 0x500 + n * 512 ≤ 0x500 + (n + 1) * 512 := by omega
          have hrest_le : 0x500 + (n + 1) * 512 ≤ 0x500 + n' * 512 := by gcongr
          rw [hm' x hx (hout.imp_left hread_le.trans_lt'), hm₁ x hx (hout.imp_right hrest_le.trans)]
      · exact Or.inr ⟨n + 1, m₁, rfl, by omega, h59, fun x hx hout => hm₁ x hx hout⟩

/-- What the boot sector promises of any floppy: when it jumps to the second stage, it has read one to 59
sectors, and nothing else below it has changed; it reports a missing file exactly when there is none; and
it does not read over its stack. -/
structure Safe (f : Floppy) (m : Mem) : Prop where
  image : ∀ m', main f m = .ok m' → ∃ n, 0 < n ∧ n ≤ 59 ∧ ∀ x < 0x7C00,
    x < 0x500 ∨ 0x500 + n * 512 ≤ x → m' (BitVec.ofNat 32 x) = m (BitVec.ofNat 32 x)
  missing : main f m = .error (.disk .noImage) ↔ ∀ i < 224, ¬f.Named imageName i
  stack : main f m ≠ .error (.disk .stackOverwritten)

/-- The first entry of a name, or none. -/
theorem named_cases (f : Floppy) (name : List (BitVec 8)) :
    (∀ i < 224, ¬f.Named name i) ∨ ∃ i < 224, f.Named name i ∧ ∀ j < i, ¬f.Named name j := by
  classical
  by_cases h : ∃ i, i < 224 ∧ f.Named name i
  · obtain ⟨hlt, hnamed⟩ := Nat.find_spec h
    exact Or.inr ⟨Nat.find h, hlt, hnamed, fun j hj hj' => Nat.find_min h hj ⟨by omega, hj'⟩⟩
  · push Not at h
    exact Or.inl h

/-- **Safety of the boot sector**, on floppies of any kind. -/
theorem boot_sector_safe (f : Floppy) (m : Mem) : Safe f m := by
  obtain habsent | ⟨i, hi, hnamed, hfirst⟩ := named_cases f imageName
  · have hmain := main_of_absent habsent m
    refine ⟨fun m' hok => ?_, ⟨fun _ => habsent, fun _ => hmain⟩, fun herr => ?_⟩
    · rw [hmain] at hok
      cases hok
    · rw [hmain] at herr
      cases herr
  · obtain ⟨c, m₂, -, hplaced, hmain⟩ := main_of_named hi hnamed hfirst m
    have hpresent : ¬∀ i < 224, ¬f.Named imageName i := fun h => h i hi hnamed
    obtain ⟨e, herr, he⟩ | ⟨n, m', hok, hpos, hle, hm'⟩ :=
      loadImage_safe f c m₂ (show (0 : BitVec 16).toNat = 0 * 512 from rfl) (by decide)
    · rw [← hmain] at herr
      refine ⟨fun m' hok => ?_, ⟨fun h => ?_, fun h => absurd h hpresent⟩, fun h => ?_⟩
      · rw [herr] at hok
        cases hok
      · rw [herr] at h
        obtain rfl | rfl := he <;> cases h
      · rw [herr] at h
        obtain rfl | rfl := he <;> cases h
    · rw [← hmain] at hok
      refine ⟨fun m₃ h => ?_, ⟨fun h => ?_, fun h => absurd h hpresent⟩, fun h => ?_⟩
      · obtain rfl : m' = m₃ := Except.ok.inj (hok.symm.trans h)
        refine ⟨n, hpos, hle, fun x hx hout => ?_⟩
        rw [hm' x (by omega) (by omega), hplaced.below x hx,
          if_neg (by simp only [List.length_nil]; omega)]
      · rw [hok] at h
        cases h
      · rw [hok] at h
        cases h

/-! ### Both stages -/

/-- The kernel is at its place when it starts, and so is its size. -/
def Boots (ρ : Report) (f : Floppy) (m : Mem) (cs : List ℕ) : Prop :=
  ∃ n m', boot ρ f m n = some (.ok m') ∧
    (∀ i < cs.length * 512, m' (BitVec.ofNat 32 (0x100000 + i)) = f.bytes cs i) ∧
      (m'.load32 0x8000).toNat = cs.length

/-- The second stage finds the same kernel, whatever is in memory. -/
theorem delivers_of_delivers (hfile : f.HoldsFile kernelImageName cs) (h : Delivers f m cs) (m' : Mem) :
    Delivers f m' cs := by
  obtain _ | ⟨k, cs⟩ := cs
  · exact hfile.chain.elim
  obtain ⟨m₁, hmain, himage, hsize⟩ := h
  obtain ⟨ds, hds, hlen, hf, harr⟩ := follows_of_main hfile hmain
  obtain ⟨m₂, hmain', harr'⟩ := main_of_follows hfile m' ds hds hlen hf
  have hsame : (k :: ds).length = (k :: cs).length := by
    rw [← hsize, harr.size, BitVec.toNat_ofNat, Nat.mod_eq_of_lt]
    simp only [List.length_cons]
    omega
  refine ⟨m₂, hmain', fun i hi => ?_, ?_⟩
  · rw [← hsame] at hi
    rw [harr'.image i hi, ← harr.image i hi, himage i (by rwa [← hsame])]
  · rw [harr'.size, ← harr.size, hsize]

/-- What `boot` does once the second stage is there. -/
theorem boot_of_main {ρ : Report} {m₁ : Mem} {n : ℕ} (hmain : main f m = .ok m₁) (m' : Mem) :
    boot ρ f m n = some (.ok m') ↔
      ∃ s, getMemoryMap ρ m₁ n = some (.ok s) ∧ Boot.main f (storeCount s) = .ok m' := by
  have hboot : boot ρ f m n = (getMemoryMap ρ m₁ n).map fun r =>
      (r >>= fun s => Boot.main f (storeCount s)).mapError Failure.disk := by
    rw [boot, hmain]
  rw [hboot, Option.map_eq_some_iff]
  constructor
  · rintro ⟨r, hr, hok⟩
    obtain e | s := r
    · cases hok
    · refine ⟨s, hr, ?_⟩
      change (Boot.main f (storeCount s)).mapError Failure.disk = _ at hok
      cases hrun : Boot.main f (storeCount s) with
      | error e =>
        rw [hrun] at hok
        cases hok
      | ok m₂ =>
        rw [hrun] at hok
        rw [Except.ok.inj hok]
  · rintro ⟨s, hs, hok⟩
    refine ⟨.ok s, hs, ?_⟩
    change (Boot.main f (storeCount s)).mapError Failure.disk = _
    rw [hok]
    rfl

/-- **From the boot sector to the kernel**: on a floppy with both files the kernel is delivered exactly
when the second stage is at most 59 sectors long, `get_memory_map` comes back in the memory that the boot
sector leaves, and the second stage delivers the kernel in any memory.  If the memory map is collected
there, `kmain` reads it as the BIOS reports it. -/
theorem boots_iff (ρ : Report) (f : Floppy) (m : Mem) (ss cs : List ℕ) (hstage : f.HoldsFile imageName ss)
    (hkernel : f.HoldsFile kernelImageName cs) :
    (Boots ρ f m cs ↔ ss.length ≤ 59 ∧
      (∀ m₁, main f m = .ok m₁ → ∃ n s, getMemoryMap ρ m₁ n = some (.ok s)) ∧
        ∀ m₂, Delivers f m₂ cs) ∧
      ∀ m₁, main f m = .ok m₁ → Collects ρ m₁ → Boots ρ f m cs → ∃ n m',
        boot ρ f m n = some (.ok m') ∧ Kernel.smapEntries m' = ρ.present.map Range.entry := by
  constructor
  · constructor
    · rintro ⟨n, m', hboot, himage, hsize⟩
      have hlen : ss.length ≤ 59 := by
        by_contra hlong
        rw [boot, main_of_long_file hstage (by omega)] at hboot
        cases hboot
      obtain ⟨m₁, hmain, -⟩ := main_of_holdsFile hstage hlen m
      obtain ⟨s, hmap, hsecond⟩ := (boot_of_main hmain m').mp hboot
      refine ⟨hlen, fun m₁' hmain' => ?_, fun m₂ => ?_⟩
      · obtain rfl : m₁ = m₁' := Except.ok.inj (hmain.symm.trans hmain')
        exact ⟨n, s, hmap⟩
      · exact delivers_of_delivers hkernel ⟨m', hsecond, himage, hsize⟩ m₂
    · rintro ⟨hlen, hmap, hdelivers⟩
      obtain ⟨m₁, hmain, -⟩ := main_of_holdsFile hstage hlen m
      obtain ⟨n, s, hrun⟩ := hmap m₁ hmain
      obtain ⟨m', hsecond, himage, hsize⟩ := hdelivers (storeCount s)
      exact ⟨n, m', (boot_of_main hmain m').mpr ⟨s, hrun, hsecond⟩, himage, hsize⟩
  · rintro m₁ hmain ⟨n, s, hrun, hcol⟩ ⟨n', m', hboot, himage, hsize⟩
    obtain ⟨s', -, hsecond⟩ := (boot_of_main hmain m').mp hboot
    obtain ⟨m₂, hsecond', -⟩ :=
      delivers_of_delivers hkernel ⟨m', hsecond, himage, hsize⟩ (storeCount s)
    exact ⟨n, m₂, (boot_of_main hmain m₂).mpr ⟨s, hrun, hsecond'⟩, hcol.read f m₂ hsecond'⟩

theorem holdsFile_bootFloppy_kernel : bootFloppy.HoldsFile kernelImageName [4] where
  entry := by
    simp only [named_iff_getD]
    exact ⟨1, by decide, by decide, by decide, by decide⟩
  range := by decide
  chain := by decide

/-- The two entries are collected in the memory that the boot sector leaves. -/
theorem collects_bootFloppy (m₁ : Mem) (hmain : main bootFloppy (fun _ => 0) = .ok m₁) :
    Collects (twoMegabytes 0) m₁ := by
  obtain ⟨m₁', hmain', hplaced⟩ :=
    main_of_holdsFile holdsFile_bootFloppy_image (by decide) (fun _ => 0)
  obtain rfl : m₁ = m₁' := Except.ok.inj (hmain.symm.trans hmain')
  have hzero : ∀ x, 0x1002 ≤ x → x < 0x1004 → m₁ (BitVec.ofNat 32 x) = 0 := by
    intro x hx hx'
    rw [hplaced.below x (by omega), if_neg (by simp only [List.length_singleton]; omega)]
  apply collects_of_collectCond
  refine ⟨?_, by decide, fun h => absurd h (by decide), 1, rfl, fun k _ _ => Or.inl rfl⟩
  change m₁ (BitVec.ofNat 32 0x1003) ++ m₁ (BitVec.ofNat 32 0x1002) = (0 : BitVec (8 + 8))
  rw [hzero 0x1003 (by decide) (by decide), hzero 0x1002 (by decide) (by decide)]
  rfl

/-- The floppy with both files boots on a machine with two MiB of memory, as `kmain` reads. -/
theorem boots_bootFloppy :
    Boots (twoMegabytes 0) bootFloppy (fun _ => 0) [4] ∧
      ∃ n m', boot (twoMegabytes 0) bootFloppy (fun _ => 0) n = some (.ok m') ∧
        Kernel.smapEntries m' = [(megabyte 0x00).entry, (megabyte 0x10).entry] := by
  obtain ⟨hiff, hread⟩ := boots_iff (twoMegabytes 0) bootFloppy (fun _ => 0) [2] [4]
    holdsFile_bootFloppy_image holdsFile_bootFloppy_kernel
  have hcond : DeliverCond bootFloppy [4] := by
    refine deliverCond_of_apart holdsFile_bootFloppy_kernel (by decide) fun i c hc => ?_
    obtain rfl : 4 = c := List.mem_singleton.mp (List.mem_of_getElem? hc) |>.symm
    exact Or.inl (by decide)
  have hboots : Boots (twoMegabytes 0) bootFloppy (fun _ => 0) [4] := by
    refine hiff.mpr ⟨by decide, fun m₁ hmain => ?_, fun m₂ =>
      delivers_of_deliverCond holdsFile_bootFloppy_kernel m₂ hcond⟩
    obtain ⟨n, s, hrun, -⟩ := collects_bootFloppy m₁ hmain
    exact ⟨n, s, hrun⟩
  obtain ⟨m₁, hmain, -⟩ := main_of_holdsFile holdsFile_bootFloppy_image (by decide) fun _ => 0
  exact ⟨hboots, hread m₁ hmain (collects_bootFloppy m₁ hmain) hboots⟩

end FanOS.Boot.FirstStage
