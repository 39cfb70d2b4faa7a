import FanOS.Boot.Equiv.Image

/-!
# When the kernel is delivered

The loader as a whole: the root directory and the tables are read, the loop follows the table
under the image, and `copy_image` moves what was loaded.  The kernel that is jumped to is what the
loop loaded, with the number of sectors in place of the four bytes at `0x5000` (`Arrives`);
comparing that with the file gives the exact condition `DeliverCond`.

A file of at most 40 clusters whose entries lie outside the part of the table that is overwritten
before they are read meets the condition (`deliverCond_of_apart`).
-/

namespace FanOS.Boot

variable {f : Floppy} {m m' : Mem} {cs ds : List ℕ} {k : ℕ}

/-! ### Moving the image -/

/-- The image of the clusters `ds` is at `0x100000`, with its size in sectors at `0x8000` and also
over the four bytes of the image that were there. -/
structure Arrives (f : Floppy) (m : Mem) (ds : List ℕ) : Prop where
  image : ∀ i < ds.length * 512, m (BitVec.ofNat 32 (0x100000 + i)) =
    if 0x5000 ≤ i ∧ i < 0x5004 then (BitVec.ofNat 32 ds.length).extractLsb' (8 * (i - 0x5000)) 8
    else f.bytes ds i
  size : m.load32 0x8000 = BitVec.ofNat 32 ds.length

/-- `copy_image` moves `n` sectors. -/
theorem copyImage_apply {n x : ℕ} (m : Mem) (hn : n ≤ 103) (hx : x < 2 ^ 32) :
    copyImage (BitVec.ofNat 32 n) m (BitVec.ofNat 32 x) =
      if 0x100000 ≤ x ∧ x < 0x100000 + n * 512 then
        m.store32 0x8000 (BitVec.ofNat 32 n) (BitVec.ofNat 32 (0x3000 + (x - 0x100000)))
      else m.store32 0x8000 (BitVec.ofNat 32 n) (BitVec.ofNat 32 x) := by
  have heax : ((BitVec.ofNat 32 n).setWidth 64 * bpb.bytesPerSector.setWidth 64 / 4 :
      BitVec 64).setWidth 32 = BitVec.ofNat 32 (n * 128) := by
    apply BitVec.eq_of_toNat_eq
    simp only [BitVec.toNat_setWidth, BitVec.toNat_udiv, BitVec.toNat_mul, BitVec.toNat_ofNat,
      show bpb.bytesPerSector.toNat = 512 from rfl, show (4 : BitVec 64).toNat = 4 from rfl]
    omega
  have hdword : (BitVec.ofNat 32 (n * 128)).toNat = n * 128 := by bv_omega
  have hbytes : 4 * (n * 128) = n * 512 := by ring
  have hmovsd := (m.store32 0x8000 (BitVec.ofNat 32 n)).movsd_ofNat (n := n * 128)
    0x100000 0x3000 hx (by omega) (by omega)
  rw [hbytes] at hmovsd
  rw [← hmovsd]
  unfold copyImage
  rw [heax, hdword]
  rfl

/-- What `copy_image` leaves of the clusters loaded. -/
theorem Loaded.arrives (h : Loaded f m ds) (hlen : ds.length ≤ 103) :
    Arrives f (copyImage (BitVec.ofNat 32 ds.length) m) ds := by
  have hmax : ds.length * 512 ≤ 52736 := Nat.mul_le_mul_right 512 hlen
  constructor
  · intro i hi
    rw [copyImage_apply m hlen (by omega), if_pos (by omega), Nat.add_sub_cancel_left,
      Mem.store32_apply]
    by_cases hsize : 0x5000 ≤ i ∧ i < 0x5004
    · have hoff : (BitVec.ofNat 32 (0x3000 + i) - 0x8000).toNat = i - 0x5000 := by bv_omega
      rw [hoff, if_pos (by omega), if_pos hsize]
    · rw [if_neg (by bv_omega), if_neg hsize, h.image i hi]
  · have hword : (copyImage (BitVec.ofNat 32 ds.length) m).load32 0x8000 =
        (m.store32 0x8000 (BitVec.ofNat 32 ds.length)).load32 0x8000 := by
      apply Mem.load32_congr
      intro i hi
      rw [show (0x8000 : BitVec 32) = BitVec.ofNat 32 0x8000 from rfl, ← BitVec.ofNat_add,
        copyImage_apply m hlen (by omega), if_neg (by omega)]
      rfl
    rw [hword, Mem.load32_store32_self]

/-! ### The loader -/

/-- Up to the loop: the first cluster is known, and the table in memory is that of the disk. -/
theorem main_eq (hfile : f.HoldsFile kernelImageName (k :: cs)) (m : Mem) :
    ∃ (c : BitVec 16) (m₂ : Mem), c.toNat = k ∧ Loaded f m₂ [] ∧
      main f m = (loadImageLoop f 0 c kernelRmodeBase 0 m₂).map fun r => copyImage r.1 r.2 := by
  obtain ⟨i, hi, hnamed, hfirst, hhead⟩ := hfile.entry
  obtain ⟨m₁, hroot, hm₁⟩ := loadRoot_spec f m
  obtain ⟨m₂, hfat, hm₂⟩ := loadFAT_spec f m₁
  have hfind := findImage_eq hm₁ (by decide) hi hnamed hfirst (Nat.zero_le i)
  have hfound : findImage m₁ kernelImageName bpb.rootEntries.toNat rootOffset = _ := hfind
  -- the first cluster is read before the tables overwrite the directory
  obtain ⟨c, hc⟩ : ∃ c, c = m₁.load16 (linear rootSeg
      (BitVec.ofNat 16 (0x2E00 + 32 * i) - rootOffset + 0x1A)) := ⟨_, rfl⟩
  have hk : c.toNat = k := by
    rw [hc, toNat_load16_entry hm₁ hi]
    exact (Option.some.inj hhead).symm
  refine ⟨c, m₂, hk, ⟨?_, ?_⟩, ?_⟩
  · intro o ho
    rw [hm₂ o ho, Floppy.tableUnder, if_neg]
    simp only [List.length_nil]
    omega
  · intro i hi
    simp at hi
  · have himage : loadImage f kernelImageName 0 kernelRmodeBase m₁ =
        loadImageLoop f 0 c kernelRmodeBase 0 m₂ := by
      simp only [loadImage, hfound, hfat, hc]
      rfl
    rw [main, hroot]
    change (loadImage f kernelImageName 0 kernelRmodeBase m₁ >>= _) = _
    rw [himage]
    cases loadImageLoop f 0 c kernelRmodeBase 0 m₂ <;> rfl

/-- When the table under the image leads through the clusters `k :: ds`, these are loaded. -/
theorem main_loaded_of_follows (hfile : f.HoldsFile kernelImageName (k :: cs)) (m : Mem) (ds : List ℕ)
    (hds : ∀ d ∈ k :: ds, d ≤ 2848) (hlen : ds.length + 1 ≤ 103)
    (hf : Fat12.Follows (f.tableUnder (f.bytes (k :: ds))) 0 (k :: ds)) :
    ∃ m₃, Loaded f m₃ (k :: ds) ∧
      main f m = .ok (copyImage (BitVec.ofNat 32 (k :: ds).length) m₃) := by
  obtain ⟨c, m₂, rfl, hload, hmain⟩ := main_eq hfile m
  obtain ⟨m₃, heq, hload'⟩ := loadImageLoop_of_follows 0 hload
    (show kernelRmodeBase.toNat = _ from rfl) hds (by simpa using hlen) hf
  rw [show (0 : BitVec 32) + BitVec.ofNat 32 (ds.length + 1) = BitVec.ofNat 32 (ds.length + 1) from
    BitVec.zero_add _] at heq
  exact ⟨m₃, hload', by rw [hmain, heq]; rfl⟩

/-- These clusters arrive. -/
theorem main_of_follows (hfile : f.HoldsFile kernelImageName (k :: cs)) (m : Mem) (ds : List ℕ)
    (hds : ∀ d ∈ k :: ds, d ≤ 2848) (hlen : ds.length + 1 ≤ 103)
    (hf : Fat12.Follows (f.tableUnder (f.bytes (k :: ds))) 0 (k :: ds)) :
    ∃ m', main f m = .ok m' ∧ Arrives f m' (k :: ds) := by
  obtain ⟨m₃, hload, hmain⟩ := main_loaded_of_follows hfile m ds hds hlen hf
  exact ⟨_, hmain, hload.arrives (by simpa using hlen)⟩

/-- A loader that reaches the kernel has followed the table under the image it loaded. -/
theorem follows_of_main (hfile : f.HoldsFile kernelImageName (k :: cs))
    (hok : main f m = .ok m') :
    ∃ ds, (∀ d ∈ k :: ds, d ≤ 2848) ∧ ds.length + 1 ≤ 103 ∧
      Fat12.Follows (f.tableUnder (f.bytes (k :: ds))) 0 (k :: ds) ∧ Arrives f m' (k :: ds) := by
  obtain ⟨c, m₂, rfl, hload, hmain⟩ := main_eq hfile m
  have hc := hfile.range c.toNat List.mem_cons_self
  rw [hmain] at hok
  cases hrun : loadImageLoop f 0 c kernelRmodeBase 0 m₂ with
  | error e =>
    rw [hrun] at hok
    cases hok
  | ok r =>
    obtain ⟨n, m₃⟩ := r
    rw [hrun] at hok
    obtain ⟨ds, hds, hlen, hf, hn, hload'⟩ := follows_of_loadImageLoop hload rfl (by omega)
      (by simp) hrun
    rw [List.length_nil, Nat.zero_add] at hlen
    obtain rfl : n = BitVec.ofNat 32 (ds.length + 1) := hn.trans (BitVec.zero_add _)
    obtain rfl : copyImage _ m₃ = m' := Except.ok.inj hok
    exact ⟨ds, hds, hlen, hf, hload'.arrives (by simpa using hlen)⟩

/-! ### The condition -/

/-- The kernel is delivered: the loader jumps to it, its bytes at `0x100000` are those of the file
and the word at `0x8000` is its number of sectors. -/
def Delivers (f : Floppy) (m : Mem) (cs : List ℕ) : Prop :=
  ∃ m', main f m = .ok m' ∧
    (∀ i < cs.length * 512, m' (BitVec.ofNat 32 (0x100000 + i)) = f.bytes cs i) ∧
      (m'.load32 0x8000).toNat = cs.length

/-- The files that survive the loader: the image ends below the stack, its size is what the file
has at byte `0x5000` (where the loader stores it), and the table under the image leads through as
many clusters with the data of the file. -/
structure DeliverCond (f : Floppy) (cs : List ℕ) : Prop where
  length_le : cs.length ≤ 103
  size : 40 < cs.length → ∀ i < 4,
    f.bytes cs (0x5000 + i) = (BitVec.ofNat 32 cs.length).extractLsb' (8 * i) 8
  follows : ∃ ds, ds.length = cs.length ∧ ds.head? = cs.head? ∧ (∀ d ∈ ds, d ≤ 2848) ∧
    (∀ i < cs.length * 512, ¬ (0x5000 ≤ i ∧ i < 0x5004) → f.bytes ds i = f.bytes cs i) ∧
      Fat12.Follows (f.tableUnder (f.bytes cs)) 0 ds

/-- The entries of the clusters on the disk lie under the first 16 sectors of an image. -/
theorem follows_tableUnder_congr {img img' : ℕ → BitVec 8} {n : ℕ} (hlen : ds.length = n)
    (hds : ∀ d ∈ ds, d ≤ 2848) (himg : ∀ i < n * 512, i < 0x5000 → img i = img' i)
    (hf : Fat12.Follows (f.tableUnder img) 0 ds) : Fat12.Follows (f.tableUnder img') 0 ds := by
  refine hf.congr fun i d hd => ?_
  obtain ⟨hi, rfl⟩ := List.getElem?_eq_some_iff.mp hd
  have hle := hds _ (List.getElem_mem hi)
  have hmax : (0 + i + 1) * 512 ≤ n * 512 := Nat.mul_le_mul_right 512 (by omega)
  have hbyte : ∀ o < 9216, f.tableUnder img (0 + i + 1) o = f.tableUnder img' (0 + i + 1) o := by
    intro o ho
    unfold Floppy.tableUnder
    split_ifs with h
    · exact himg _ (by omega) (by omega)
    · rfl
  exact Fat12.entry_congr (hbyte _ (by omega)) (hbyte _ (by omega))

/-- Such a file is delivered. -/
theorem delivers_of_deliverCond (hfile : f.HoldsFile kernelImageName cs) (m : Mem)
    (h : DeliverCond f cs) : Delivers f m cs := by
  obtain ⟨hmax, hsize, ds, hlen, hhead, hds, hsame, hf⟩ := h
  obtain _ | ⟨k, cs⟩ := cs
  · exact hfile.chain.elim
  obtain _ | ⟨d, ds⟩ := ds
  · cases hhead
  obtain rfl : d = k := Option.some.inj hhead
  -- the loader reads `d :: ds`, whose image lies over the table as that of the file does
  obtain ⟨m', hmain, harr⟩ := main_of_follows hfile m ds hds (by rwa [← hlen] at hmax)
    (follows_tableUnder_congr hlen hds (fun i hi hlt => (hsame i hi (by omega)).symm) hf)
  refine ⟨m', hmain, fun i hi => ?_, ?_⟩
  · rw [harr.image i (by rwa [hlen])]
    split_ifs with h
    · obtain ⟨j, rfl⟩ := Nat.exists_eq_add_of_le h.1
      have h40 : 40 < (d :: cs).length := by
        by_contra hle
        have := Nat.mul_le_mul_right 512 (Nat.le_of_not_lt hle)
        omega
      rw [hsize h40 j (by omega), hlen, Nat.add_sub_cancel_left]
    · exact hsame i hi h
  · rw [harr.size, hlen, BitVec.toNat_ofNat, Nat.mod_eq_of_lt]
    omega

/-- **When the kernel is delivered**: for every floppy that holds the kernel, exactly under
`DeliverCond`. -/
theorem kernel_delivered_iff (f : Floppy) (m : Mem) (cs : List ℕ)
    (hfile : f.HoldsFile kernelImageName cs) : Delivers f m cs ↔ DeliverCond f cs := by
  obtain _ | ⟨k, cs⟩ := cs
  · exact hfile.chain.elim
  constructor
  · rintro ⟨m', hmain, himage, hsize⟩
    obtain ⟨ds, hds, hmax, hf, harr⟩ := follows_of_main hfile hmain
    -- the size at `0x8000` is the number of clusters that were read
    have hlen : (k :: ds).length = (k :: cs).length := by
      rw [← hsize, harr.size, BitVec.toNat_ofNat, Nat.mod_eq_of_lt]
      simp only [List.length_cons]
      omega
    -- outside the size word the kernel is what was read
    have hsame : ∀ i < (k :: cs).length * 512, ¬ (0x5000 ≤ i ∧ i < 0x5004) →
        f.bytes (k :: ds) i = f.bytes (k :: cs) i := by
      intro i hi hne
      rw [← himage i hi, harr.image i (by rwa [hlen]), if_neg hne]
    refine ⟨by rw [← hlen]; exact hmax, fun h40 i hi => ?_, k :: ds, hlen, rfl, hds, hsame, ?_⟩
    · have hin : 0x5000 + i < (k :: cs).length * 512 :=
        lt_of_lt_of_le (by omega) (Nat.mul_le_mul_right 512 h40)
      rw [← himage _ hin, harr.image _ (by rwa [hlen]), if_pos (by omega), hlen,
        Nat.add_sub_cancel_left]
    · exact follows_tableUnder_congr hlen hds (fun i hi hlt => hsame i hi (by omega)) hf
  · exact delivers_of_deliverCond hfile m

/-- A short file whose entries are read before the image reaches them, or lie below it, is
delivered. -/
theorem deliverCond_of_apart (hfile : f.HoldsFile kernelImageName cs) (hlen : cs.length ≤ 40)
    (hapart : ∀ i c, cs[i]? = some c →
      c + c / 2 + 1 < 1024 ∨ 1024 + (i + 1) * 512 ≤ c + c / 2) :
    DeliverCond f cs := by
  refine ⟨by omega, fun h => absurd h (by omega), cs, rfl, rfl, fun c hc => (hfile.range c hc).2,
    fun _ _ _ => rfl, ?_⟩
  have hdisk : Fat12.Follows (fun _ => f.fat) 0 cs := hfile.chain.follows fun c hc => by
    have := hfile.range c hc
    omega
  refine hdisk.congr fun i c hc => ?_
  have h := hapart i c hc
  unfold Floppy.tableUnder
  apply Fat12.entry_congr
  · rw [if_neg (by omega)]
  · rw [if_neg (by omega)]

/-- A floppy whose kernel is one sector of zeros, on the even cluster `c`. -/
def oneClusterFloppy (c : ℕ) : Floppy := fun a =>
  if a = 512 then 0xF8
  else if a = 513 ∨ a = 514 then 0xFF
  else if a = 512 + (c + c / 2) then 0xFF
  else if a = 512 + (c + c / 2 + 1) then 0x0F
  else if 19 * 512 ≤ a ∧ a < 19 * 512 + 11 then kernelImageName.getD (a - 19 * 512) 0
  else if a = 19 * 512 + 26 then BitVec.ofNat 8 c
  else if a = 19 * 512 + 27 then BitVec.ofNat 8 (c / 256)
  else 0

/-- The root directory of that floppy. -/
theorem dirEntry_oneClusterFloppy {c j : ℕ} (hc : c ≤ 2848) (hj : j < 32) :
    (oneClusterFloppy c).dirEntry 0 j =
      if j < 11 then kernelImageName.getD j 0
      else if j = 26 then BitVec.ofNat 8 c
      else if j = 27 then BitVec.ofNat 8 (c / 256)
      else 0 := by
  rw [Floppy.dirEntry, Nat.mul_zero, Nat.zero_add, oneClusterFloppy]
  rw [if_neg (by omega), if_neg (by omega), if_neg (by omega), if_neg (by omega)]
  simp only [Nat.le_add_right, true_and, Nat.add_lt_add_iff_left, Nat.add_left_cancel_iff,
    Nat.add_sub_cancel_left]

/-- It holds the kernel. -/
theorem holdsFile_oneClusterFloppy {c : ℕ} (hlo : 2 ≤ c) (hhi : c ≤ 2848) (heven : c % 2 = 0) :
    (oneClusterFloppy c).HoldsFile kernelImageName [c] where
  entry := by
    refine ⟨0, by decide, fun j b hj => ?_, fun j hj => absurd hj (Nat.not_lt_zero j), ?_⟩
    · obtain ⟨hlt, rfl⟩ := List.getElem?_eq_some_iff.mp hj
      have h11 : j < 11 := hlt
      rw [dirEntry_oneClusterFloppy hhi (by omega), if_pos h11, List.getD_eq_getElem _ _ hlt]
    · have hlow : (oneClusterFloppy c).dirEntry 0 26 = BitVec.ofNat 8 c := by
        rw [dirEntry_oneClusterFloppy hhi (by decide), if_neg (by decide), if_pos rfl]
      have hhigh : (oneClusterFloppy c).dirEntry 0 27 = BitVec.ofNat 8 (c / 256) := by
        rw [dirEntry_oneClusterFloppy hhi (by decide), if_neg (by decide), if_neg (by decide),
          if_pos rfl]
      rw [List.head?_cons, Option.some.injEq, Floppy.firstCluster, hlow, hhigh, BitVec.toNat_ofNat,
        BitVec.toNat_ofNat]
      omega
  range := by
    intro d hd
    rw [List.mem_singleton.mp hd]
    exact ⟨hlo, hhi⟩
  chain := by
    have hlow : (oneClusterFloppy c).fat (c + c / 2) = 0xFF := by
      rw [Floppy.fat, oneClusterFloppy, if_neg (by omega), if_neg (by omega), if_pos rfl]
    have hhigh : (oneClusterFloppy c).fat (c + c / 2 + 1) = 0x0F := by
      rw [Floppy.fat, oneClusterFloppy, if_neg (by omega), if_neg (by omega), if_neg (by omega),
        if_pos rfl]
    rw [Fat12.Chain, Fat12.entry, hlow, hhigh, if_pos heven]
    decide

/-- A kernel on the first cluster of the data area. -/
theorem kernel_delivered_iff_first_cluster :
    (oneClusterFloppy 2).HoldsFile kernelImageName [2] ∧
      Delivers (oneClusterFloppy 2) (fun _ => 0) [2] := by
  have hfile := holdsFile_oneClusterFloppy (c := 2) (by decide) (by decide) (by decide)
  refine ⟨hfile, (kernel_delivered_iff _ _ _ hfile).mpr
    (deliverCond_of_apart hfile (by decide) ?_)⟩
  rintro (_ | i) c hc
  · obtain rfl : 2 = c := Option.some.inj hc
    exact Or.inl (by decide)
  · simp at hc

/-- A kernel on cluster 700, whose entry the only sector of the file overwrites with zeros: the
loader goes on with "cluster 0", finds the media byte's end mark there and counts two sectors. -/
theorem not_kernel_delivered :
    (oneClusterFloppy 700).HoldsFile kernelImageName [700] ∧
      ∀ m, ¬ Delivers (oneClusterFloppy 700) m [700] := by
  have hfile := holdsFile_oneClusterFloppy (c := 700) (by decide) (by decide) (by decide)
  refine ⟨hfile, ?_⟩
  rintro m ⟨m', hmain, -, hsize⟩
  have hf : Fat12.Follows
      ((oneClusterFloppy 700).tableUnder ((oneClusterFloppy 700).bytes [700, 0])) 0 [700, 0] := by
    decide
  obtain ⟨m'', hmain', harr⟩ := main_of_follows hfile m [0] (by decide) (by decide) hf
  obtain rfl : m' = m'' := Except.ok.inj (hmain.symm.trans hmain')
  rw [harr.size] at hsize
  exact absurd hsize (by decide)

end FanOS.Boot
