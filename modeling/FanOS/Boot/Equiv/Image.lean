import FanOS.Boot.Equiv.Sectors

/-!
# The image that the loader delivers

`load_image` reads the file over its own copy of the table: the image begins at byte 1024 of it.
`Floppy.tableUnder f img k` is that copy once `k` sectors of an image `img` lie over it, and
`Loaded` what memory holds after some clusters were read.  One round of the loop is
`loadImageLoop_round`; the loop as a whole returns exactly when the changing table leads to an end
mark before the stack is reached (`loadImageLoop_of_follows`, `follows_of_loadImageLoop`).

`copy_image` stores the number of sectors at `0x8000`, byte `0x5000` of the image, before it moves
the image (`copyImage_image`).  The kernel is therefore delivered exactly when `DeliverCond` holds.
-/

namespace FanOS.Boot

variable {f : Floppy} {m m' : Mem} {cs ds : List ℕ} {c bx : BitVec 16} {ecx : BitVec 32} {k o : ℕ}

/-! ### The table under the image -/

/-- The copy of the table with the first `k` sectors of `img` over it. -/
def Floppy.tableUnder (f : Floppy) (img : ℕ → BitVec 8) (k o : ℕ) : BitVec 8 :=
  if 1024 ≤ o ∧ o < 1024 + k * 512 then img (o - 1024) else f.fat o

/-- The clusters `cs` have been read: they lie at `0x3000`, over the table at `0x2C00`. -/
structure Loaded (f : Floppy) (m : Mem) (cs : List ℕ) : Prop where
  table : ∀ o < 9216, m (BitVec.ofNat 32 (0x2C00 + o)) = f.tableUnder (f.bytes cs) cs.length o
  image : ∀ i < cs.length * 512, m (BitVec.ofNat 32 (0x3000 + i)) = f.bytes cs i

/-- Clusters that are not read yet do not matter. -/
theorem tableUnder_append (f : Floppy) (cs ds : List ℕ) :
    f.tableUnder (f.bytes (cs ++ ds)) cs.length = f.tableUnder (f.bytes cs) cs.length := by
  ext o : 1
  unfold Floppy.tableUnder
  split_ifs with h
  · exact Fat12.content_append_of_lt cs ds (by omega)
  · rfl

/-- The entry that the loader decodes is the one of the table under the image. -/
theorem toNat_nextCluster (h : Loaded f m cs) (hc : c.toNat ≤ 2848) :
    (nextCluster m c).toNat = Fat12.entry (f.tableUnder (f.bytes cs) cs.length) c.toNat := by
  have hshift : (c >>> 1).toNat = c.toNat / 2 := by
    rw [BitVec.toNat_ushiftRight, Nat.shiftRight_eq_div_pow, Nat.pow_one]
  have haddr : linear fatSeg (c + c >>> 1) = BitVec.ofNat 32 (0x2C00 + (c.toNat + c.toNat / 2)) := by
    rw [linear_eq, BitVec.toNat_add, hshift, show fatSeg.toNat = 0x2C0 from rfl]
    congr 1
    omega
  have hsucc : BitVec.ofNat 32 (0x2C00 + (c.toNat + c.toNat / 2)) + 1 =
      BitVec.ofNat 32 (0x2C00 + (c.toNat + c.toNat / 2 + 1)) :=
    (BitVec.ofNat_add _ 1).symm
  have hword : (m.load16 (linear fatSeg (c + c >>> 1))).toNat =
      (f.tableUnder (f.bytes cs) cs.length (c.toNat + c.toNat / 2)).toNat +
        256 * (f.tableUnder (f.bytes cs) cs.length (c.toNat + c.toNat / 2 + 1)).toNat := by
    rw [Mem.toNat_load16, haddr, hsucc, h.table _ (by omega), h.table _ (by omega)]
  -- `test ax, 1` is the parity of the cluster
  have hparity : c &&& 1 = 0 ↔ c.toNat % 2 = 0 := by
    rw [← BitVec.toNat_inj, BitVec.toNat_and, show (1 : BitVec 16).toNat = 1 from rfl,
      Nat.and_one_is_mod]
    rfl
  rw [nextCluster, Fat12.entry, ← hword]
  by_cases hpar : c &&& 1 = 0
  · rw [if_pos hpar, if_pos (hparity.mp hpar), BitVec.toNat_and,
      show (0x0FFF : BitVec 16).toNat = 2 ^ 12 - 1 from rfl, Nat.and_two_pow_sub_one_eq_mod]
  · rw [if_neg hpar, if_neg (mt hparity.mpr hpar), BitVec.toNat_ushiftRight,
      Nat.shiftRight_eq_div_pow]

/-! ### The loop -/

/-- The sector of a cluster.  The entries 0 and 1 name sectors before the data area. -/
theorem toNat_clusterLba (hc : c.toNat < 0xFF0) :
    (clusterLba bpb (datasector bpb) c).toNat = 33 + c.toNat - 2 := by
  have hdata : datasector bpb = 33 := by decide
  have hone : bpb.sectorsPerCluster.setWidth 16 = (1 : BitVec 16) := by decide
  rw [clusterLba, hdata, hone, show (c - 2) * 1 = c - 2 from BitVec.mul_one _]
  bv_omega

/-- A cluster read behind `n` bytes of image lies over the next bytes of the table. -/
theorem Loaded.append {c n : ℕ} (h : Loaded f m cs) (hn : cs.length * 512 = n) (hlt : n ≤ 0xFFFF)
    (hm' : ∀ x < 2 ^ 32, m' (BitVec.ofNat 32 x) =
      if 0x3000 + n ≤ x ∧ x < 0x3000 + n + 512 then f.cluster c (x - (0x3000 + n))
      else m (BitVec.ofNat 32 x)) :
    Loaded f m' (cs ++ [c]) := by
  have hlen : (cs ++ [c]).length * 512 = n + 512 := by
    rw [List.length_append, List.length_singleton, Nat.add_one_mul, hn]
  have hnew : ∀ i < 512, f.bytes (cs ++ [c]) (n + i) = f.cluster c i := fun i hi => by
    rw [← hn]
    exact Fat12.content_append_cons cs [] hi
  have hold : ∀ i < n, f.bytes (cs ++ [c]) i = f.bytes cs i := fun i hi =>
    Fat12.content_append_of_lt cs _ (by rwa [hn])
  have htable := h.table
  have himage := h.image
  simp only [Floppy.tableUnder, hn] at htable himage
  constructor
  · intro o ho
    simp only [Floppy.tableUnder, hlen]
    clear hn hlen
    rw [hm' _ (by omega)]
    by_cases h1 : 0x3000 + n ≤ 0x2C00 + o ∧ 0x2C00 + o < 0x3000 + n + 512
    · -- under the sector just read
      obtain ⟨i, rfl⟩ : ∃ i, o = 1024 + (n + i) := ⟨o - 1024 - n, by omega⟩
      rw [if_pos h1, if_pos (by omega), Nat.add_sub_cancel_left, hnew i (by omega)]
      congr 1
      omega
    · rw [if_neg h1, htable o ho]
      by_cases h2 : 1024 ≤ o ∧ o < 1024 + n
      · rw [if_pos h2, if_pos (by omega), hold _ (by omega)]
      · rw [if_neg h2, if_neg (by omega)]
  · intro i hi
    rw [hlen] at hi
    clear hn hlen
    rw [hm' _ (by omega)]
    by_cases h1 : n ≤ i
    · obtain ⟨j, rfl⟩ := Nat.exists_eq_add_of_le h1
      rw [if_pos (by omega), hnew j (by omega), ← Nat.add_assoc, Nat.add_sub_cancel_left]
    · rw [if_neg (by omega), himage i (by omega), hold i (by omega)]

/-- The loop is one read and one decision. -/
theorem loadImageLoop_eq (f : Floppy) (c bx : BitVec 16) (ecx : BitVec 32) (m : Mem) :
    loadImageLoop f 0 c bx ecx m =
      match readSectors f 0 loadSp 1 (clusterLba bpb (datasector bpb) c) bx m with
      | .error e => .error e
      | .ok (bx', m') =>
        if nextCluster m' c < 0x0FF0 then loadImageLoop f 0 (nextCluster m' c) bx' (ecx + 1) m'
        else .ok (ecx + 1, m') := by
  rw [loadImageLoop]
  split <;> rename_i h <;> rw [show 1 = bpb.sectorsPerCluster.toNat from rfl, h]

/-- **One round**: the cluster is read behind the ones before it, and the loop goes on with the
entry of the table under the image. -/
theorem loadImageLoop_round (ecx : BitVec 32) (h : Loaded f m cs) (hbx : bx.toNat = 0x3000 + cs.length * 512)
    (hc : c.toNat ≤ 2848) (hlen : cs.length < 103) :
    ∃ bx' m', Loaded f m' (cs ++ [c.toNat]) ∧
      bx'.toNat = 0x3000 + (cs ++ [c.toNat]).length * 512 ∧
      loadImageLoop f 0 c bx ecx m =
        if nextCluster m' c < 0x0FF0 then loadImageLoop f 0 (nextCluster m' c) bx' (ecx + 1) m'
        else .ok (ecx + 1, m') := by
  have hlba := toNat_clusterLba (c := c) (by omega)
  have hzero : 16 * (0 : BitVec 16).toNat = 0 := rfl
  have hsp : loadSp - 12 = 0xFFEB := rfl
  obtain ⟨bx', m', heq, hbx', hm'⟩ := readSectors_spec f 0 loadSp 1
    (clusterLba bpb (datasector bpb) c) bx m (by omega) (by decide) (by omega)
  simp only [hzero, Nat.zero_add, Nat.one_mul, hbx, hlba] at hm'
  refine ⟨bx', m', h.append rfl (by omega) hm', ?_, ?_⟩
  · rw [hbx', hbx, List.length_append, List.length_singleton, Nat.add_mul, Nat.add_assoc]
  · rw [loadImageLoop_eq, heq]

/-- A cluster beyond the disk, or one sector more than fits below the stack, ends the boot. -/
theorem loadImageLoop_error (f : Floppy) (ecx : BitVec 32) (m : Mem)
    (hbx : bx.toNat = 0x3000 + cs.length * 512) (hc : c.toNat < 0xFF0)
    (hbad : 2848 < c.toNat ∨ cs.length = 103) :
    ∃ e, loadImageLoop f 0 c bx ecx m = .error e := by
  have hlba := toNat_clusterLba hc
  have hread : ∃ e, readSectors f 0 loadSp 1 (clusterLba bpb (datasector bpb) c) bx m =
      .error e := by
    rw [readSectors]
    by_cases hdisk : c.toNat ≤ 2848
    · have hfull : ¬ (linear 0 bx).toNat + 512 ≤ loadSp - 12 := by
        rw [toNat_linear, show loadSp - 12 = 0xFFEB from rfl,
          show (0 : BitVec 16).toNat = 0 from rfl]
        omega
      rw [sectorLoop_of_lt f (by omega)]
      exact ⟨_, if_neg hfull⟩
    · rw [sectorLoop_of_le f (by omega) (by omega)]
      exact ⟨_, rfl⟩
  obtain ⟨e, he⟩ := hread
  exact ⟨e, by rw [loadImageLoop_eq, he]⟩

/-- The entry decoded in a round, whatever is read after it. -/
theorem toNat_nextCluster_append (h : Loaded f m (cs ++ [c.toNat])) (hc : c.toNat ≤ 2848)
    (ds : List ℕ) :
    (nextCluster m c).toNat =
      Fat12.entry (f.tableUnder (f.bytes (cs ++ c.toNat :: ds)) (cs.length + 1)) c.toNat := by
  have hlen : cs.length + 1 = (cs ++ [c.toNat]).length := by simp
  rw [toNat_nextCluster h hc, List.append_cons cs _ ds, hlen, tableUnder_append]

/-- The loop reads the clusters that the changing table leads through. -/
theorem loadImageLoop_of_follows (ecx : BitVec 32) (h : Loaded f m cs)
    (hbx : bx.toNat = 0x3000 + cs.length * 512)
    (hds : ∀ d ∈ c.toNat :: ds, d ≤ 2848) (hlen : cs.length + (ds.length + 1) ≤ 103)
    (hf : Fat12.Follows (f.tableUnder (f.bytes (cs ++ c.toNat :: ds))) cs.length
      (c.toNat :: ds)) :
    ∃ m', loadImageLoop f 0 c bx ecx m = .ok (ecx + BitVec.ofNat 32 (ds.length + 1), m') ∧
      Loaded f m' (cs ++ c.toNat :: ds) := by
  have hc : c.toNat ≤ 2848 := hds _ List.mem_cons_self
  induction ds generalizing cs c bx ecx m with
  | nil =>
    obtain ⟨bx', m', hload, -, heq⟩ := loadImageLoop_round ecx h hbx hc (by omega)
    have hend : 0xFF0 ≤ (nextCluster m' c).toNat := by
      rw [toNat_nextCluster_append hload hc []]
      exact hf
    exact ⟨m', by rw [heq, if_neg (by bv_omega)]; rfl, hload⟩
  | cons d ds ih =>
    -- one round reads `c`; the entry it decodes is `d`
    rw [List.length_cons] at hlen
    obtain ⟨bx', m', hload, hbx', heq⟩ := loadImageLoop_round ecx h hbx hc (by omega)
    obtain ⟨hentry, hlt, hrest⟩ := hf
    obtain rfl : (nextCluster m' c).toNat = d := by
      rw [toNat_nextCluster_append hload hc, hentry]
    rw [List.append_cons] at hrest ⊢
    have hone : cs.length + 1 = (cs ++ [c.toNat]).length := by simp
    rw [hone] at hrest
    have hds' : ∀ e ∈ (nextCluster m' c).toNat :: ds, e ≤ 2848 :=
      fun e he => hds e (List.mem_cons_of_mem _ he)
    obtain ⟨m'', heq', hload'⟩ := ih (ecx + 1) hload hbx' hds' (by omega) hrest
      (hds' _ List.mem_cons_self)
    refine ⟨m'', ?_, hload'⟩
    rw [heq, if_pos (by bv_omega), heq', List.length_cons, add_one_add_ofNat]

/-- A loop that returns has read such clusters, and no more than fit below the stack. -/
theorem follows_of_loadImageLoop {n : BitVec 32} (h : Loaded f m cs)
    (hbx : bx.toNat = 0x3000 + cs.length * 512) (hc : c.toNat < 0xFF0) (hlen : cs.length ≤ 103)
    (hok : loadImageLoop f 0 c bx ecx m = .ok (n, m')) :
    ∃ ds, (∀ d ∈ c.toNat :: ds, d ≤ 2848) ∧ cs.length + (ds.length + 1) ≤ 103 ∧
      Fat12.Follows (f.tableUnder (f.bytes (cs ++ c.toNat :: ds))) cs.length (c.toNat :: ds) ∧
      n = ecx + BitVec.ofNat 32 (ds.length + 1) ∧ Loaded f m' (cs ++ c.toNat :: ds) := by
  -- induction on the sectors that still fit below the stack
  induction hr : 103 - cs.length generalizing cs c bx ecx m with
  | zero =>
    obtain ⟨e, he⟩ := loadImageLoop_error f ecx m hbx hc (by omega)
    rw [he] at hok
    cases hok
  | succ r ih =>
    by_cases hdisk : 2848 < c.toNat
    · obtain ⟨e, he⟩ := loadImageLoop_error f ecx m hbx hc (Or.inl hdisk)
      rw [he] at hok
      cases hok
    rw [Nat.not_lt] at hdisk
    obtain ⟨bx', m₁, hload, hbx', heq⟩ := loadImageLoop_round ecx h hbx hdisk (by omega)
    rw [heq] at hok
    have hone : (cs ++ [c.toNat]).length = cs.length + 1 := by simp
    split_ifs at hok with hnext
    · obtain ⟨ds, hds, hle, hf, hn, hload'⟩ := ih hload hbx' (by bv_omega) (by omega) hok (by omega)
      rw [← List.append_cons, hone] at hf
      rw [← List.append_cons] at hload'
      refine ⟨(nextCluster m₁ c).toNat :: ds, ?_, by simp only [List.length_cons]; omega,
        ⟨(toNat_nextCluster_append hload hdisk _).symm, by bv_omega, hf⟩, ?_, hload'⟩
      · rintro d (_ | ⟨_, hd⟩)
        · exact hdisk
        · exact hds d hd
      · rw [hn, List.length_cons, add_one_add_ofNat]
    · obtain ⟨rfl, rfl⟩ := Prod.mk.inj (Except.ok.inj hok)
      refine ⟨[], by simpa using hdisk, by simp only [List.length_nil]; omega, ?_, rfl, hload⟩
      rw [Fat12.Follows, ← toNat_nextCluster_append hload hdisk []]
      bv_omega

end FanOS.Boot
