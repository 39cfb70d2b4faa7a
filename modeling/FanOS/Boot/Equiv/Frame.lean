import FanOS.Boot.Equiv.Delivery

/-!
# What the loader leaves alone

The loader reads nothing below its table: whatever is on the floppy, the memory below `0x2C00` is as before
when the kernel starts (`main_below`).  A file that it can follow leaves the first clusters of the table
behind, for all to see (`main_table`).
-/

namespace FanOS.Boot

variable {f : Floppy} {m m' : Mem} {es ax bx bx' c : BitVec 16} {sp cx x : ℕ} {ecx n : BitVec 32}

/-! ### Memory below the table -/

/-- Sectors are read from their buffer upwards. -/
theorem readSectors_below (hsp : sp ≤ 0xFFFF) (h : readSectors f es sp cx ax bx m = .ok (bx', m'))
    (hx : x < 16 * es.toNat + bx.toNat) : m' (BitVec.ofNat 32 x) = m (BitVec.ofNat 32 x) := by
  induction cx generalizing ax bx m with
  | zero =>
    rw [readSectors, Except.ok.injEq, Prod.mk.injEq] at h
    rw [h.2]
  | succ cx ih =>
    obtain ⟨s, -, hfit, hrest⟩ := of_readSectors_succ h
    have hstep := toNat_add_bytesPerSector hsp hfit
    rw [toNat_linear] at hfit
    rw [ih hrest (by omega), linear_eq, Mem.storeBlock_ofNat _ _ (by omega) (by omega),
      if_neg (by omega)]

/-- As many sectors as clusters are read, below the stack. -/
theorem readSectors_fits (h : readSectors f 0 loadSp 1 ax bx m = .ok (bx', m')) :
    bx.toNat + 512 ≤ 0xFFEB ∧ bx'.toNat = bx.toNat + 512 := by
  obtain ⟨s, -, hfit, -⟩ := of_readSectors_succ h
  rw [toNat_linear] at hfit
  exact ⟨le_trans (by omega) hfit, toNat_of_readSectors (by decide) h⟩

/-- A file that has been read is `k` clusters long, and lies behind the buffer pointer. -/
theorem loadImageLoop_below (h : loadImageLoop f 0 c bx ecx m = .ok (n, m')) :
    ∃ k, n = ecx + BitVec.ofNat 32 k ∧ bx.toNat + k * 512 ≤ 0xFFEB ∧
      ∀ x < bx.toNat, m' (BitVec.ofNat 32 x) = m (BitVec.ofNat 32 x) := by
  induction hr : 0x10000 - bx.toNat using Nat.strong_induction_on generalizing c bx ecx m with
  | _ r ih =>
    subst hr
    rw [loadImageLoop_eq] at h
    split at h
    · cases h
    · rename_i bx₁ m₁ hread
      obtain ⟨hfit, hbx₁⟩ := readSectors_fits hread
      have hbelow : ∀ x < bx.toNat, m₁ (BitVec.ofNat 32 x) = m (BitVec.ofNat 32 x) :=
        fun x hx => readSectors_below (by decide) hread (by omega)
      split_ifs at h with hend
      · obtain ⟨k, rfl, hk, hm'⟩ := ih (0x10000 - bx₁.toNat) (by omega) h rfl
        refine ⟨k + 1, ?_, by omega, fun x hx => ?_⟩
        · rw [BitVec.add_assoc, Nat.add_comm k, BitVec.ofNat_add]
          rfl
        · rw [hm' x (by omega), hbelow x hx]
      · obtain ⟨rfl, rfl⟩ := Prod.mk.inj (Except.ok.inj h)
        exact ⟨1, rfl, by omega, hbelow⟩

/-- A computation that succeeds has succeeded step by step. -/
theorem ok_of_bind {ε α β : Type} {x : Except ε α} {g : α → Except ε β} {b : β}
    (h : x >>= g = .ok b) : ∃ a, x = .ok a ∧ g a = .ok b := by
  cases x with
  | error e => cases h
  | ok a => exact ⟨a, rfl, h⟩

theorem loadRoot_below (h : loadRoot f m = .ok m') (hx : x < 0x2E00) :
    m' (BitVec.ofNat 32 x) = m (BitVec.ofNat 32 x) := by
  obtain ⟨r, hread, hret⟩ := ok_of_bind h
  obtain rfl := Except.ok.inj hret
  exact readSectors_below (by decide) hread hx

theorem loadFAT_below (h : loadFAT f m = .ok m') (hx : x < 0x2C00) :
    m' (BitVec.ofNat 32 x) = m (BitVec.ofNat 32 x) := by
  obtain ⟨r, hread, hret⟩ := ok_of_bind h
  obtain rfl := Except.ok.inj hret
  exact readSectors_below (by decide) hread hx

/-- The kernel is at most 103 clusters long. -/
theorem loadImage_below {name : List (BitVec 8)}
    (h : loadImage f name 0 kernelRmodeBase m = .ok (n, m')) :
    ∃ k ≤ 103, n = BitVec.ofNat 32 k ∧
      ∀ x < 0x2C00, m' (BitVec.ofNat 32 x) = m (BitVec.ofNat 32 x) := by
  unfold loadImage at h
  split at h
  · cases h
  · obtain ⟨m₁, hfat, hloop⟩ := ok_of_bind h
    obtain ⟨k, rfl, hk, hm'⟩ := loadImageLoop_below hloop
    rw [show kernelRmodeBase.toNat = 0x3000 from rfl] at hk hm'
    refine ⟨k, by omega, BitVec.zero_add _, fun x hx => ?_⟩
    rw [hm' x (by omega), loadFAT_below hfat hx]

/-- **Frame**: the memory below the table is as before. -/
theorem main_below (h : main f m = .ok m') (hx : x < 0x2C00) :
    m' (BitVec.ofNat 32 x) = m (BitVec.ofNat 32 x) := by
  obtain ⟨m₁, hroot, hrest⟩ := ok_of_bind h
  obtain ⟨r, himage, hret⟩ := ok_of_bind hrest
  obtain ⟨k, hk, hn, hm₂⟩ := loadImage_below himage
  obtain rfl : copyImage r.1 r.2 = m' := Except.ok.inj hret
  rw [hn, copyImage_apply r.2 hk (by omega), if_neg (by omega), Mem.store32_apply,
    if_neg (by bv_omega), hm₂ x hx, loadRoot_below hroot (by omega)]

/-! ### The table -/

/-- A kernel that the loader can follow leaves the table as far as the image does not lie over it. -/
theorem main_table {k : ℕ} {cs : List ℕ} (hfile : f.HoldsFile kernelImageName (k :: cs)) (m : Mem)
    (ds : List ℕ) (hds : ∀ d ∈ k :: ds, d ≤ 2848) (hlen : ds.length + 1 ≤ 103)
    (hf : Fat12.Follows (f.tableUnder (f.bytes (k :: ds))) 0 (k :: ds)) :
    ∃ m', main f m = .ok m' ∧ ∀ o < 1024, m' (BitVec.ofNat 32 (0x2C00 + o)) = f.fat o := by
  obtain ⟨m₃, hload, hmain⟩ := main_loaded_of_follows hfile m ds hds hlen hf
  refine ⟨_, hmain, fun o ho => ?_⟩
  rw [copyImage_apply _ (by simpa using hlen) (by omega), if_neg (by omega), Mem.store32_apply,
    if_neg (by bv_omega), hload.table o (by omega), Floppy.tableUnder, if_neg (by omega)]

/-- A floppy with a kernel of one cluster boots. -/
theorem main_oneClusterFloppy {c : ℕ} (hc : c = 2 ∨ c = 4) (m : Mem) :
    ∃ m', main (oneClusterFloppy c) m = .ok m' ∧
      ∀ o < 1024, m' (BitVec.ofNat 32 (0x2C00 + o)) = (oneClusterFloppy c).fat o := by
  obtain rfl | rfl := hc
  · exact main_table (holdsFile_oneClusterFloppy (by decide) (by decide) (by decide)) m []
      (by decide) (by decide) (by decide)
  · exact main_table (holdsFile_oneClusterFloppy (by decide) (by decide) (by decide)) m []
      (by decide) (by decide) (by decide)

end FanOS.Boot
