import FanOS.Boot.Volume

/-!
# What the loader finds in memory

`readSectors_spec` is the correctness of `read_sectors`: away from the end of the disk and from the
stack it returns, the sectors lie in the buffer and every other byte is as before.  `load_root`
and `load_FAT` are two instances of it, and `find_image` finds the first entry of the name in the
directory that `load_root` read.
-/

namespace FanOS.Boot

variable {f : Floppy} {m : Mem} {ax : BitVec 16}

/-! ### Sectors -/

/-- `linear` as a number address. -/
theorem linear_eq (seg off : BitVec 16) :
    linear seg off = BitVec.ofNat 32 (16 * seg.toNat + off.toNat) := by
  unfold linear
  bv_omega

theorem toNat_linear (seg off : BitVec 16) :
    (linear seg off).toNat = 16 * seg.toNat + off.toNat := by
  unfold linear
  bv_omega

/-- The three bytes of `LBACHS`. -/
theorem lbachs_bpb (ax : BitVec 16) :
    (lbachs bpb ax).sector.toNat = ax.toNat % 18 + 1 ∧
      (lbachs bpb ax).head.toNat = ax.toNat / 18 % 2 ∧
        (lbachs bpb ax).track.toNat = ax.toNat / 36 % 256 := by
  have hlt := ax.isLt
  refine ⟨?_, ?_, ?_⟩
  · have hdl : (lbachs bpb ax).sector.toNat = (ax.toNat % 18 % 256 + 1) % 256 := by
      simp [lbachs, bpb]
    omega
  · have hdl : (lbachs bpb ax).head.toNat = ax.toNat / 18 % 2 % 256 := by
      simp [lbachs, bpb]
    omega
  · have hal : (lbachs bpb ax).track.toNat = ax.toNat / 18 / 2 % 256 := by
      simp [lbachs, bpb]
    omega

/-- A sector of the disk is read at the first attempt. -/
theorem sectorLoop_of_lt (f : Floppy) (hax : ax.toNat < 2880) (di : ℕ) :
    sectorLoop f ax (di + 1) = some (f.sector ax.toNat) := by
  obtain ⟨hsector, hhead, htrack⟩ := lbachs_bpb ax
  rw [sectorLoop, int13, if_pos (by omega), hsector, hhead, htrack,
    show (ax.toNat / 36 % 256 * 2 + ax.toNat / 18 % 2) * 18 + (ax.toNat % 18 + 1 - 1) = ax.toNat by
      omega]

/-- The sectors after the last one fail, until the track number wraps. -/
theorem sectorLoop_of_le (f : Floppy) (hax : 2880 ≤ ax.toNat) (hlt : ax.toNat < 9216) (di : ℕ) :
    sectorLoop f ax di = none := by
  obtain ⟨-, -, htrack⟩ := lbachs_bpb ax
  induction di with
  | zero => rfl
  | succ di ih => rw [sectorLoop, int13, if_neg (by omega), ih]

/-- **Correctness of `read_sectors`**: the sectors `ax`, …, `ax + cx - 1` lie at `es:bx`, and no
other byte has changed. -/
theorem readSectors_spec (f : Floppy) (es : BitVec 16) (sp cx : ℕ) (ax bx : BitVec 16) (m : Mem)
    (hax : ax.toNat + cx ≤ 2880) (hsp : sp ≤ 0xFFFF)
    (hb : 16 * es.toNat + bx.toNat + cx * 512 ≤ sp - 12) :
    ∃ bx' m', readSectors f es sp cx ax bx m = .ok (bx', m') ∧
      bx'.toNat = bx.toNat + cx * 512 ∧ ∀ x < 2 ^ 32,
        m' (BitVec.ofNat 32 x) =
          if 16 * es.toNat + bx.toNat ≤ x ∧ x < 16 * es.toNat + bx.toNat + cx * 512 then
            f (ax.toNat * 512 + (x - (16 * es.toNat + bx.toNat)))
          else m (BitVec.ofNat 32 x) := by
  induction cx generalizing ax bx m with
  | zero => exact ⟨bx, m, rfl, rfl, fun x _ => by rw [if_neg (by omega)]⟩
  | succ cx ih =>
    have hax' : (ax + 1).toNat = ax.toNat + 1 := by bv_omega
    have hbx' : (bx + bpb.bytesPerSector).toNat = bx.toNat + 512 := by
      rw [show bpb.bytesPerSector = 512 from rfl]
      bv_omega
    obtain ⟨bx', m', heq, -, hm'⟩ := ih (ax + 1) (bx + bpb.bytesPerSector)
      (m.storeBlock (linear es bx) 512 (f.sector ax.toNat)) (by omega) (by omega)
    have hrun : readSectors f es sp (cx + 1) ax bx m = .ok (bx', m') := by
      rw [readSectors, sectorLoop_of_lt f (by omega)]
      simp only [toNat_linear]
      rw [if_pos (by omega), heq]
    refine ⟨bx', m', hrun, toNat_of_readSectors hsp hrun, fun x hx => ?_⟩
    rw [hm' x hx, linear_eq, Mem.storeBlock_ofNat _ _ hx (by omega), hax', hbx']
    by_cases h1 : 16 * es.toNat + bx.toNat ≤ x ∧ x < 16 * es.toNat + bx.toNat + 512
    · -- the first sector, which the later ones do not reach
      rw [if_neg (by omega), if_pos h1, if_pos (by omega)]
      rfl
    · by_cases h2 : 16 * es.toNat + bx.toNat ≤ x ∧ x < 16 * es.toNat + bx.toNat + (cx + 1) * 512
      · have hsub : x - (16 * es.toNat + bx.toNat) =
            512 + (x - (16 * es.toNat + (bx.toNat + 512))) := by omega
        rw [if_pos (by omega), if_pos h2, hsub, Nat.add_one_mul, Nat.add_assoc]
      · rw [if_neg (by omega), if_neg h1, if_neg h2]

/-! ### The directory -/

/-- `load_root` leaves the root directory at `0x2E00`. -/
theorem loadRoot_spec (f : Floppy) (m : Mem) :
    ∃ m', loadRoot f m = .ok m' ∧
      ∀ o < 7168, m' (BitVec.ofNat 32 (0x2E00 + o)) = f (19 * 512 + o) := by
  obtain ⟨bx', m', heq, -, hm'⟩ := readSectors_spec f rootSeg (stackTop - 22)
    (rootSectors bpb).toNat (rootBase bpb) 0 m (by decide) (by decide) (by decide)
  refine ⟨m', by rw [loadRoot, heq]; rfl, fun o ho => ?_⟩
  have hcx : (rootSectors bpb).toNat = 14 := by decide
  have hbase : 16 * rootSeg.toNat + (0 : BitVec 16).toNat = 0x2E00 := by decide
  have hax : (rootBase bpb).toNat = 19 := by decide
  rw [hm' _ (by omega), hcx, hbase, hax, if_pos (by omega), Nat.add_sub_cancel_left]

/-- `load_FAT` leaves the tables at `0x2C00`. -/
theorem loadFAT_spec (f : Floppy) (m : Mem) :
    ∃ m', loadFAT f m = .ok m' ∧ ∀ o < 9216, m' (BitVec.ofNat 32 (0x2C00 + o)) = f.fat o := by
  obtain ⟨bx', m', heq, -, hm'⟩ := readSectors_spec f fatSeg (stackTop - 32)
    (fatSectors bpb).toNat bpb.reservedSectors 0 m (by decide) (by decide) (by decide)
  refine ⟨m', by rw [loadFAT, heq]; rfl, fun o ho => ?_⟩
  have hcx : (fatSectors bpb).toNat = 18 := by decide
  have hbase : 16 * fatSeg.toNat + (0 : BitVec 16).toNat = 0x2C00 := by decide
  have hax : bpb.reservedSectors.toNat = 1 := by decide
  rw [hm' _ (by omega), hcx, hbase, hax, if_pos (by omega), Nat.add_sub_cancel_left]
  rfl

/-- `rep cmpsb` compares the bytes one by one. -/
theorem cmpsb_iff (m : Mem) (name : List (BitVec 8)) {di : ℕ} (hdi : di + name.length ≤ 2 ^ 16) :
    cmpsb m name (BitVec.ofNat 16 di) = true ↔
      ∀ j b, name[j]? = some b → m (BitVec.ofNat 32 (di + j)) = b := by
  induction name generalizing di with
  | nil => simp [cmpsb]
  | cons b name ih =>
    rw [List.length_cons] at hdi
    have hnext : BitVec.ofNat 16 di + 1 = BitVec.ofNat 16 (di + 1) := (BitVec.ofNat_add di 1).symm
    -- the segment is 0 and the names end below 64 KiB
    have haddr : linear 0 (BitVec.ofNat 16 di) = BitVec.ofNat 32 di := by
      rw [linear_eq]
      congr 1
      bv_omega
    rw [cmpsb, Bool.and_eq_true, hnext, ih (by omega), haddr, beq_iff_eq]
    constructor
    · rintro ⟨h0, hs⟩ (_ | j) c hc
      · rw [List.getElem?_cons_zero, Option.some.injEq] at hc
        rwa [← hc]
      · rw [← Nat.add_assoc, Nat.add_right_comm]
        exact hs j c (by simpa using hc)
    · intro h
      refine ⟨h 0 b rfl, fun j c hc => ?_⟩
      rw [Nat.add_right_comm, Nat.add_assoc]
      exact h (j + 1) c (by simpa using hc)

/-- The root directory lies in memory at `0x2E00`. -/
def HasRoot (f : Floppy) (m : Mem) : Prop :=
  ∀ o < 7168, m (BitVec.ofNat 32 (0x2E00 + o)) = f (19 * 512 + o)

/-- An entry of the directory in memory is compared as it is on disk. -/
theorem cmpsb_entry_iff (hm : HasRoot f m) {name : List (BitVec 8)} (hname : name.length ≤ 32)
    {i : ℕ} (hi : i < 224) :
    cmpsb m name (BitVec.ofNat 16 (0x2E00 + 32 * i)) = true ↔ f.Named name i := by
  rw [cmpsb_iff m name (by omega), Floppy.Named]
  refine forall_congr' fun j => forall_congr' fun b => imp_congr_right fun hj => ?_
  have hlt : j < name.length := (List.getElem?_eq_some_iff.mp hj).1
  rw [Nat.add_assoc, hm _ (by omega), Floppy.dirEntry]

/-- The loop of `find_image` from entry `k` on stops at the first entry of the name. -/
theorem findImage_eq (hm : HasRoot f m) {name : List (BitVec 8)} (hname : name.length ≤ 32)
    {i : ℕ} (hi : i < 224) (hnamed : f.Named name i) (hfirst : ∀ j < i, ¬ f.Named name j)
    {k : ℕ} (hk : k ≤ i) :
    findImage m name (224 - k) (BitVec.ofNat 16 (0x2E00 + 32 * k)) =
      some (BitVec.ofNat 16 (0x2E00 + 32 * i)) := by
  induction hd : i - k generalizing k with
  | zero =>
    obtain rfl : k = i := by omega
    obtain ⟨r, hr⟩ := Nat.exists_eq_add_of_lt hi
    rw [show 224 - k = r + 1 by omega, findImage, if_pos ((cmpsb_entry_iff hm hname hi).mpr hnamed)]
  | succ d ih =>
    have hskip : ¬ cmpsb m name (BitVec.ofNat 16 (0x2E00 + 32 * k)) = true := fun h =>
      hfirst k (by omega) ((cmpsb_entry_iff hm hname (by omega)).mp h)
    have hnext : BitVec.ofNat 16 (0x2E00 + 32 * k) + 0x20 =
        BitVec.ofNat 16 (0x2E00 + 32 * (k + 1)) := by bv_omega
    rw [show 224 - k = 224 - (k + 1) + 1 by omega, findImage, if_neg hskip, hnext,
      ih (by omega) (by omega)]

/-- The first cluster, as `load_image` reads it from the entry found. -/
theorem toNat_load16_entry (hm : HasRoot f m) {i : ℕ} (hi : i < 224) :
    (m.load16 (linear rootSeg (BitVec.ofNat 16 (0x2E00 + 32 * i) - rootOffset + 0x1A))).toNat =
      f.firstCluster i := by
  have haddr : linear rootSeg (BitVec.ofNat 16 (0x2E00 + 32 * i) - rootOffset + 0x1A) =
      BitVec.ofNat 32 (0x2E00 + (32 * i + 26)) := by
    rw [linear_eq, show rootSeg.toNat = 0x2E0 from rfl, show rootOffset = 0x2E00 from rfl]
    congr 1
    bv_omega
  have hnext : BitVec.ofNat 32 (0x2E00 + (32 * i + 26)) + 1 =
      BitVec.ofNat 32 (0x2E00 + (32 * i + 27)) := by bv_omega
  rw [Mem.toNat_load16, haddr, hnext, hm _ (by omega), hm _ (by omega)]
  rfl

end FanOS.Boot
