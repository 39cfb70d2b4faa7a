import FanOS.Malloc.Equiv.Loops

/-!
# The heap and its list of blocks

`Tiled h bs` relates the heap to its list of blocks: the chain of headers starts at the beginning
of the window and the blocks fill the mapped pages exactly.  Each operation of `malloc.c` is
followed on the list:

* `malloc_init` leaves one free block (`tiled_mallocInit`);
* `malloc_next_block` replaces the block its search stops at, which it takes as it is, splits, or
  enlarges by whole pages and splits (`Carves`, `mallocNextBlock_spec`);
* `malloc_free` changes a free flag (`mallocFree_cases`, `mallocFree_at`).

`malloc_split` does not check that there is room for a second header.  `Fits` is the condition
under which there is.
-/

namespace FanOS.Malloc

open Mem (AgreeOn)
open Tiling (Block span placed)

variable {h : Malloc} {fresh : Mem} {n : BitVec 32} {b : Block} {bs pre post : List Block}

/-- The blocks `bs` tile the mapped pages of the heap. -/
structure Tiled (h : Malloc) (bs : List Block) : Prop where
  head : h.mallocListHead = mallocVirtAddr
  ne_nil : bs ≠ []
  chain : Chain h.mem mallocVirtAddr.toNat bs 0
  span_eq : span 12 bs = 4096 * h.totalMallocPages.toNat
  pages_lt : h.totalMallocPages.toNat < 2 ^ 20

@[simp] theorem toNat_mallocVirtAddr : mallocVirtAddr.toNat = 0 := rfl

theorem Tiled.chain_zero (h' : Tiled h bs) : Chain h.mem 0 bs 0 := h'.chain

theorem Tiled.span_lt (h' : Tiled h bs) : span 12 bs ≤ 2 ^ 32 - 4096 := by
  have h1 := h'.span_eq
  have h2 := h'.pages_lt
  omega

/-! ### Setting up -/

/-- The number of pages for `n` bytes. -/
def pagesFor (n : ℕ) : ℕ := (n + 4095) / 4096

theorem toNat_initPageCount (n : BitVec 32) : (initPageCount n).toNat = pagesFor n.toNat := by
  have hlt := n.isLt
  have hsize : pageSize.toNat = 4096 := rfl
  have hdiv : (n / pageSize).toNat = n.toNat / 4096 := BitVec.toNat_udiv
  have hmod : (n % pageSize).toNat = n.toNat % 4096 := BitVec.toNat_umod
  have hzero : (0 : BitVec 32).toNat = 0 := rfl
  have hone : (1 : BitVec 32).toNat = 1 := rfl
  unfold initPageCount pagesFor
  split_ifs with h
  · rw [gt_iff_lt, BitVec.lt_def, hmod, hzero] at h
    rw [BitVec.toNat_add, hdiv, hone]
    omega
  · rw [gt_iff_lt, BitVec.lt_def, hmod, hzero] at h
    rw [hdiv]
    omega

theorem totalMallocPages_takePages (h : Malloc) (n : BitVec 32) :
    (h.takePages n).totalMallocPages = initPageCount n := rfl

theorem mallocListHead_takePages (h : Malloc) (n : BitVec 32) :
    (h.takePages n).mallocListHead = mallocVirtAddr := rfl

/-- The loop over the pages only maps. -/
theorem initPages_fields (fresh : Mem) (k : ℕ) (phys : PhysicalAddr) (virt : VirtualAddr)
    (h : Malloc) :
    (initPages fresh k phys virt h).mallocListHead = h.mallocListHead ∧
      (initPages fresh k phys virt h).totalMallocPages = h.totalMallocPages := by
  induction k generalizing phys virt h with
  | zero => exact ⟨rfl, rfl⟩
  | succ k ih =>
    rw [initPages]
    exact ih _ _ (h.initPage fresh phys virt)

/-- What `malloc_init` does to the tables. -/
theorem vm_mallocInit (h : Malloc) (fresh : Mem) (n : BitVec 32) :
    (h.mallocInit fresh n).vm = (initPages fresh (initPageCount n).toNat
      (h.takePages n).mallocPhysAddr mallocVirtAddr (h.takePages n)).vm := rfl

/-- **`malloc_init`** leaves one free block that fills the pages. -/
theorem tiled_mallocInit (h : Malloc) (fresh : Mem) (hpos : 0 < n.toNat)
    (hlt : pagesFor n.toNat < 2 ^ 20) :
    Tiled (h.mallocInit fresh n) [⟨4096 * pagesFor n.toNat - 12, true⟩] := by
  have htotal := toNat_initPageCount n
  have hpages : 0 < pagesFor n.toNat := by
    unfold pagesFor
    omega
  -- at least one page, so the size of the block does not wrap
  have hsize : initPageCount n * pageSize - mallocBlockSize =
      BitVec.ofNat 32 (4096 * pagesFor n.toNat - 12) := by
    apply BitVec.eq_of_toNat_eq
    have h1 : pageSize.toNat = 4096 := rfl
    have h2 : mallocBlockSize.toNat = 12 := rfl
    rw [BitVec.toNat_sub, BitVec.toNat_mul, htotal, BitVec.toNat_ofNat, h1, h2]
    omega
  rw [mallocInit]
  simp only [initPages_fields, totalMallocPages_takePages, mallocListHead_takePages]
  refine ⟨rfl, by simp, ?_, ?_, ?_⟩
  · rw [chain_singleton, hsize]
    exact header_setHeader _ ⟨4096 * pagesFor n.toNat - 12, true⟩ 0 (by simp)
  · simp only [Tiling.span_cons, Tiling.span_nil, htotal]
    omega
  · rwa [htotal]

/-! ### Splitting -/

/-- **`malloc_split`**, given room for the second header, leaves two blocks in the place of one. -/
theorem mallocSplit_spec {m : Mem} {p k next : ℕ} (hh : Header m p b next)
    (hroom : k + 12 ≤ b.size) (hlt : p + 12 + b.size ≤ 2 ^ 32) :
    Header (mallocSplit m (BitVec.ofNat 32 p) (BitVec.ofNat 32 k)) p ⟨k, false⟩ (p + 12 + k) ∧
    Header (mallocSplit m (BitVec.ofNat 32 p) (BitVec.ofNat 32 k)) (p + 12 + k)
      ⟨b.size - k - 12, true⟩ next ∧
    ∀ lo hi, hi ≤ 2 ^ 32 → hi ≤ p ∨ p + 12 + b.size ≤ lo →
      AgreeOn (mallocSplit m (BitVec.ofNat 32 p) (BitVec.ofNat 32 k)) m lo hi := by
  have hnew : BitVec.ofNat 32 p + BitVec.ofNat 32 k + mallocBlockSize =
      BitVec.ofNat 32 (p + 12 + k) := by
    rw [show mallocBlockSize = BitVec.ofNat 32 12 from rfl, ← BitVec.ofNat_add, ← BitVec.ofNat_add]
    congr 1
    omega
  have hsize : nodeSize m (BitVec.ofNat 32 p) - BitVec.ofNat 32 k - mallocBlockSize =
      BitVec.ofNat 32 (b.size - k - 12) := by
    rw [hh.size, show mallocBlockSize = BitVec.ofNat 32 12 from rfl]
    apply BitVec.eq_of_toNat_eq
    simp only [BitVec.toNat_sub, BitVec.toNat_ofNat]
    omega
  -- the `next` field is read after two fields of the new header are written
  have hag : AgreeOn (setFree (setSize m (BitVec.ofNat 32 (p + 12 + k))
      (BitVec.ofNat 32 (b.size - k - 12))) (BitVec.ofNat 32 (p + 12 + k)) true) m p (p + 12) :=
    (agreeOn_setFree _ _ (by omega) (by omega) (by omega)).trans
      (agreeOn_setSize _ _ (by omega) (by omega) (by omega))
  have hnext := (hh.congr hag).next
  have heq : mallocSplit m (BitVec.ofNat 32 p) (BitVec.ofNat 32 k) =
      setHeader (setHeader m (BitVec.ofNat 32 (p + 12 + k)) (BitVec.ofNat 32 (b.size - k - 12)) true
        (BitVec.ofNat 32 next)) (BitVec.ofNat 32 p) (BitVec.ofNat 32 k) false
        (BitVec.ofNat 32 (p + 12 + k)) := by
    rw [mallocSplit, hnew, hsize, hnext]
    rfl
  rw [heq]
  refine ⟨header_setHeader _ ⟨k, false⟩ _ (by omega), ?_, fun lo hi hhi hout => ?_⟩
  · exact (header_setHeader m ⟨b.size - k - 12, true⟩ next (by omega)).congr
      (agreeOn_setHeader _ _ _ _ (by omega) (by omega) (by omega))
  · exact (agreeOn_setHeader _ _ _ _ (by omega) hhi (by omega)).trans
      (agreeOn_setHeader _ _ _ _ (by omega) hhi (by omega))

/-! ### Growing -/

/-- The number of pages that make room for `n` bytes and a header in a block of `s` bytes. -/
def pagesToGrow (s n : ℕ) : ℕ := (n + 12 - s + 4095) / 4096

/-- The count that `malloc_next_block` arrives at. -/
theorem pageCountLoop_eq_some {s k : ℕ} (hs : s < k) (hlt : s + 4096 * pagesToGrow s k < 2 ^ 32)
    (j fuel : ℕ) (hj : 1 ≤ j) (hle : j ≤ pagesToGrow s k) (hfuel : pagesToGrow s k < j + fuel) :
    pageCountLoop (BitVec.ofNat 32 s) (BitVec.ofNat 32 k) fuel (BitVec.ofNat 32 j) =
      some (BitVec.ofNat 32 (pagesToGrow s k)) := by
  have hpages : k + 12 ≤ s + 4096 * pagesToGrow s k ∧ s + 4096 * (pagesToGrow s k - 1) < k + 12 := by
    unfold pagesToGrow
    omega
  induction fuel generalizing j with
  | zero => omega
  | succ fuel ih =>
    have hcond : BitVec.ofNat 32 s + BitVec.ofNat 32 j * pageSize <
        BitVec.ofNat 32 k + mallocBlockSize ↔ s + 4096 * j < k + 12 := by
      rw [show pageSize = BitVec.ofNat 32 4096 from rfl,
        show mallocBlockSize = BitVec.ofNat 32 12 from rfl, ← BitVec.ofNat_mul, ← BitVec.ofNat_add,
        ← BitVec.ofNat_add, ofNat_lt_ofNat (by omega) (by omega), Nat.mul_comm]
    rw [pageCountLoop]
    by_cases hstop : j = pagesToGrow s k
    · rw [if_neg (by rw [hcond]; omega), hstop]
    · rw [if_pos (by rw [hcond]; omega), show (1 : BitVec 32) = BitVec.ofNat 32 1 from rfl,
        ← BitVec.ofNat_add]
      exact ih _ (by omega) (by omega) (by omega)

/-- The physical memory manager has a page for each of `k` pages that are mapped from `virt` on. -/
def PagesAvailable : ℕ → VirtualAddr → Vmmngr → Prop
  | 0, _, _ => True
  | k + 1, virt, vm =>
    (vm.vmmngrAllocPage 0).1 ≠ 0 ∧
      PagesAvailable k (virt + pageSize)
        ((vm.vmmngrAllocPage 0).2.2.vmmngrMapPage (vm.vmmngrAllocPage 0).1 virt)

/-- Mapping a page leaves memory below it alone. -/
theorem agreeOn_mapPage (h : Malloc) (fresh : Mem) (phys : PhysicalAddr) {t : ℕ} (ht : t < 2 ^ 20) :
    AgreeOn (h.mapPage fresh phys (BitVec.ofNat 32 (4096 * t))).mem h.mem 0 (4096 * t) := by
  intro x _ hx
  rw [mapPage]
  simp only
  rw [if_neg]
  rw [BitVec.toNat_ofNat, BitVec.toNat_ofNat]
  omega

/-- Growing a block by one page, given that there is one. -/
theorem growPage_spec (fresh : Mem) {p t next : ℕ} (hh : Header h.mem p b next) (hp : p + 12 ≤ 4096 * t)
    (hlt : t < 2 ^ 20) (hphys : (h.vm.vmmngrAllocPage 0).1 ≠ 0) :
    let h' := h.growPage fresh (BitVec.ofNat 32 p) (BitVec.ofNat 32 (4096 * t))
    Header h'.mem p ⟨b.size + 4096, b.free⟩ next ∧ AgreeOn h'.mem h.mem 0 p ∧
      h'.totalMallocPages = h.totalMallocPages + 1 ∧ h'.mallocListHead = h.mallocListHead ∧
      h'.mallocIniited = h.mallocIniited ∧
      h'.vm = (h.vm.vmmngrAllocPage 0).2.2.vmmngrMapPage (h.vm.vmmngrAllocPage 0).1
        (BitVec.ofNat 32 (4096 * t)) := by
  have hag := agreeOn_mapPage { h with vm := (h.vm.vmmngrAllocPage 0).2.2 } fresh
    (h.vm.vmmngrAllocPage 0).1 hlt
  have hh1 := hh.congr (hag.mono (by omega) (by omega))
  have hh2 := hh1.setSize (b.size + 4096) (by omega)
  rw [BitVec.ofNat_add, ← hh1.size] at hh2
  rw [growPage, if_pos hphys]
  exact ⟨hh2, (agreeOn_setSize _ _ (by omega) (by omega) (by omega)).trans
    (hag.mono le_rfl (by omega)), rfl, rfl, rfl, rfl⟩

/-- **Growing** a block by `k` pages adds them to its size and to the heap. -/
theorem growLoop_spec (fresh : Mem) {p t k next : ℕ} (hh : Header h.mem p b next) (hp : p + 12 ≤ 4096 * t)
    (hlt : t + k < 2 ^ 20) (hav : PagesAvailable k (BitVec.ofNat 32 (4096 * t)) h.vm) :
    let h' := growLoop fresh (BitVec.ofNat 32 p) k (BitVec.ofNat 32 (4096 * t)) h
    Header h'.mem p ⟨b.size + 4096 * k, b.free⟩ next ∧ AgreeOn h'.mem h.mem 0 p ∧
      h'.totalMallocPages = h.totalMallocPages + BitVec.ofNat 32 k ∧
      h'.mallocListHead = h.mallocListHead ∧ h'.mallocIniited = h.mallocIniited := by
  induction k generalizing h b t with
  | zero => exact ⟨hh, AgreeOn.refl _ _ _, by simp [growLoop], rfl, rfl⟩
  | succ k ih =>
    obtain ⟨hphys, hav⟩ := hav
    have hvirt : BitVec.ofNat 32 (4096 * t) + pageSize = BitVec.ofNat 32 (4096 * (t + 1)) := by
      rw [show pageSize = BitVec.ofNat 32 4096 from rfl, ← BitVec.ofNat_add]
      congr 1
    obtain ⟨h1, h2, h3, h4, h5, h6⟩ := growPage_spec fresh hh hp (by omega) hphys
    rw [hvirt, ← h6] at hav
    obtain ⟨g1, g2, g3, g4, g5⟩ := ih h1 (by omega) (by omega) hav
    rw [growLoop, hvirt]
    refine ⟨?_, g2.trans h2, ?_, g4.trans h4, g5.trans h5⟩
    · rwa [show b.size + 4096 * (k + 1) = b.size + 4096 + 4096 * k by omega]
    · rw [g3, h3, Nat.add_comm k 1, BitVec.ofNat_add, BitVec.add_assoc]
      rfl

/-! ### Allocation -/

/-- What `malloc_next_block` makes of the list: the block `b` that its search stops at becomes one
of `n` bytes in use, followed by the rest of it. -/
inductive Carves (n : ℕ) (pre : List Block) (b : Block) (post : List Block) : List Block → Prop
  | exact (h : b.size = n) : Carves n pre b post (pre ++ ⟨n, false⟩ :: post)
  | split (h : n + 12 ≤ b.size) :
    Carves n pre b post (pre ++ ⟨n, false⟩ :: ⟨b.size - n - 12, true⟩ :: post)
  | grow (h : b.size < n) (hpost : post = []) (s : ℕ) :
    Carves n pre b post (pre ++ [⟨n, false⟩, ⟨s, true⟩])

/-- There are pages for a block of `s` bytes to grow by for a request of `n`. -/
def GrowthAvailable (h : Malloc) (s n : ℕ) : Prop :=
  h.totalMallocPages.toNat + pagesToGrow s n < 2 ^ 20 ∧
    PagesAvailable (pagesToGrow s n) (BitVec.ofNat 32 (4096 * h.totalMallocPages.toNat)) h.vm

/-- A request of `n` bytes can be met from the block `b`: exactly, with room for a second header,
or by growing. -/
def Fits (h : Malloc) (n : ℕ) (b : Block) : Prop :=
  b.size = n ∨ n + 12 ≤ b.size ∨ (b.size < n ∧ h.GrowthAvailable b.size n)

/-- The first block of the heap is not empty. -/
def HeadPos (bs : List Block) : Prop := ∀ b ∈ bs.head?, 0 < b.size

/-- With a first block that is not empty, `malloc_next_block` does not set the heap up again. -/
theorem Tiled.nodeSize_head_ne_zero (ht : Tiled h bs) (hpos : HeadPos bs) :
    nodeSize h.mem h.mallocListHead ≠ 0 := by
  have hlt := ht.span_lt
  have hc := ht.chain_zero
  cases bs with
  | nil => exact absurd rfl ht.ne_nil
  | cons c bs =>
    have hc0 := hpos c rfl
    rw [Tiling.span_cons] at hlt
    rw [ht.head]
    have hsize := hc.1.size
    rw [show BitVec.ofNat 32 0 = mallocVirtAddr from rfl] at hsize
    rw [hsize]
    exact ofNat_ne_zero hc0 (by omega)

section NextBlock

variable {k : ℕ}

/-- The search of `malloc_next_block` on a tiled heap. -/
theorem Tiled.searchLoop_eq (ht : Tiled h (pre ++ b :: post)) (hk : k < 2 ^ 32)
    (hs : Stops k pre b post) :
    searchLoop h.mem (BitVec.ofNat 32 k) (2 ^ 32) h.mallocListHead =
      some (BitVec.ofNat 32 (span 12 pre)) := by
  have hlt := ht.span_lt
  have hlen := length_le_span pre
  rw [Tiling.span_append, Tiling.span_cons] at hlt
  have h0 := searchLoop_eq_some (a := 0) ht.chain_zero (by simp; omega) hk hs (k := 2 ^ 32) (by omega)
  rw [Nat.zero_add] at h0
  rw [ht.head]
  exact h0

/-- The header of the block where the search stops. -/
theorem Tiled.header (ht : Tiled h (pre ++ b :: post)) :
    Header h.mem (span 12 pre) b (if post = [] then 0 else span 12 pre + 12 + b.size) := by
  have hc := (chain_append (by simp)).mp ht.chain_zero
  rw [Nat.zero_add] at hc
  exact hc.2.1

/-- The heap with the block `b` replaced by the blocks `mid` of the same span. -/
theorem Tiled.replace (ht : Tiled h (pre ++ b :: post)) (m : Mem) (mid : List Block)
    (hmid : mid ≠ []) (hspan : span 12 mid = 12 + b.size)
    (hag : ∀ lo hi, hi ≤ 2 ^ 32 → hi ≤ span 12 pre ∨ span 12 pre + 12 + b.size ≤ lo →
      AgreeOn m h.mem lo hi)
    (hnew : Chain m (span 12 pre) mid (if post = [] then 0 else span 12 pre + 12 + b.size)) :
    Tiled { h with mem := m } (pre ++ mid ++ post) := by
  have hlt := ht.span_lt
  have heq := ht.span_eq
  rw [Tiling.span_append, Tiling.span_cons] at hlt heq
  refine ⟨ht.head, by simp [hmid], ?_, ?_, ht.pages_lt⟩
  · refine ht.chain_zero.replace hmid ?_ (fun _ => ⟨hspan, ?_⟩) ?_
    · exact hag _ _ (by omega) (by omega)
    · exact hag _ _ (by omega) (by omega)
    · rwa [Nat.zero_add]
  · rw [Tiling.span_append, Tiling.span_append, hspan]
    simp only
    omega

/-- The heap with another flag in the block `b`. -/
theorem Tiled.setFree (ht : Tiled h (pre ++ b :: post)) (f : Bool) :
    Tiled { h with mem := FanOS.setFree h.mem (BitVec.ofNat 32 (span 12 pre)) f }
      (pre ++ ⟨b.size, f⟩ :: post) := by
  have hlt := ht.span_lt
  rw [Tiling.span_append, Tiling.span_cons] at hlt
  have := ht.replace (FanOS.setFree h.mem (BitVec.ofNat 32 (span 12 pre)) f) [⟨b.size, f⟩]
    (by simp) (by simp) (fun lo hi hhi hout => agreeOn_setFree _ _ (by omega) hhi (by omega))
    (chain_singleton.mpr (ht.header.setFree f (by omega)))
  simpa using this

theorem one_le_pagesToGrow {s : ℕ} (h : s < k) : 1 ≤ pagesToGrow s k := by
  unfold pagesToGrow
  omega

theorem GrowthAvailable.lt_of_tiled (hg : h.GrowthAvailable b.size k)
    (ht : Tiled h (pre ++ [b])) : b.size + 4096 * pagesToGrow b.size k < 2 ^ 32 := by
  have heq := ht.span_eq
  have hlt := hg.1
  rw [Tiling.span_append, Tiling.span_cons, Tiling.span_nil] at heq
  omega

/-- The end of the window. -/
theorem windowEnd_eq (h : Malloc) : mallocVirtAddr + h.totalMallocPages * pageSize =
    BitVec.ofNat 32 (4096 * h.totalMallocPages.toNat) := by
  apply BitVec.eq_of_toNat_eq
  rw [BitVec.toNat_add, BitVec.toNat_mul, BitVec.toNat_ofNat, toNat_mallocVirtAddr,
    show pageSize.toNat = 4096 from rfl]
  omega

/-- Growing the last block and splitting off the rest leaves the heap tiled. -/
theorem Tiled.grow (ht : Tiled h (pre ++ [b])) (hless : b.size < k)
    (hg : h.GrowthAvailable b.size k) (fresh : Mem) :
    let h' := growLoop fresh (BitVec.ofNat 32 (span 12 pre))
      (BitVec.ofNat 32 (pagesToGrow b.size k)).toNat
      (mallocVirtAddr + h.totalMallocPages * pageSize) h
    h'.mallocIniited = h.mallocIniited ∧
      Tiled { h' with mem := mallocSplit h'.mem (BitVec.ofNat 32 (span 12 pre)) (BitVec.ofNat 32 k) }
        (pre ++ [⟨k, false⟩, ⟨b.size + 4096 * pagesToGrow b.size k - k - 12, true⟩]) := by
  have heq := ht.span_eq
  have hpages := ht.pages_lt
  have hlt := hg.lt_of_tiled ht
  rw [Tiling.span_append, Tiling.span_cons, Tiling.span_nil] at heq
  have hroom : k + 12 ≤ b.size + 4096 * pagesToGrow b.size k := by
    unfold pagesToGrow
    omega
  have hpc : (BitVec.ofNat 32 (pagesToGrow b.size k)).toNat = pagesToGrow b.size k := by
    rw [BitVec.toNat_ofNat, Nat.mod_eq_of_lt (by have := hg.1; omega)]
  have hh := ht.header
  rw [if_pos rfl] at hh
  -- first the pages are added to the last block, then it is split
  obtain ⟨h1, h2, h3, h4, h5⟩ := growLoop_spec fresh hh (by omega) hg.1 hg.2
  rw [windowEnd_eq, hpc]
  obtain ⟨g1, g2, hag⟩ := mallocSplit_spec h1 (by exact hroom) (by have := hg.1; simp only; omega)
  refine ⟨h5, h4.trans ht.head, by simp, ?_, ?_, ?_⟩
  · refine (chain_append (by simp)).mpr ⟨?_, ?_⟩
    · have hpre := ((chain_append (by simp)).mp ht.chain_zero).1
      refine hpre.congr ((hag _ _ (by simp; omega) (Or.inl ?_)).trans (h2.mono ?_ ?_)) <;> simp
    · simp only [toNat_mallocVirtAddr, Nat.zero_add]
      exact (chain_cons_of_ne_nil (by simp)).mpr ⟨g1, chain_singleton.mpr g2⟩
  · have := hg.1
    rw [h3, BitVec.toNat_add, hpc, Nat.mod_eq_of_lt (by omega)]
    simp only [Tiling.span_append, Tiling.span_cons, Tiling.span_nil]
    omega
  · have := hg.1
    rw [h3, BitVec.toNat_add, hpc, Nat.mod_eq_of_lt (by omega)]
    omega

/-- `malloc_next_block` when the search stops at a last block that is too small. -/
theorem Tiled.mallocNextBlock_grow (ht : Tiled h (pre ++ [b])) (hpos : HeadPos (pre ++ [b]))
    (hk : k < 2 ^ 32) (hs : Stops k pre b []) (hless : b.size < k) (hgrow : h.GrowthAvailable b.size k)
    (fresh : Mem) :
    let h' := growLoop fresh (BitVec.ofNat 32 (span 12 pre))
      (BitVec.ofNat 32 (pagesToGrow b.size k)).toNat
      (mallocVirtAddr + h.totalMallocPages * pageSize) h
    h.mallocNextBlock fresh (BitVec.ofNat 32 k) = some (BitVec.ofNat 32 (span 12 pre + 12),
      { h' with mem := mallocSplit h'.mem (BitVec.ofNat 32 (span 12 pre)) (BitVec.ofNat 32 k) }) := by
  have hptr : BitVec.ofNat 32 (span 12 pre) + mallocBlockSize = BitVec.ofNat 32 (span 12 pre + 12) :=
    (BitVec.ofNat_add _ _).symm
  have hcount := pageCountLoop_eq_some hless (hgrow.lt_of_tiled ht) 1 (2 ^ 32) le_rfl
    (one_le_pagesToGrow hless) (by have := hgrow.1; omega)
  rw [mallocNextBlock, if_neg (ofNat_ne_zero (by omega) hk)]
  simp only [if_neg (ht.nodeSize_head_ne_zero hpos), ht.searchLoop_eq hk hs, hptr, ht.header.size]
  rw [if_neg (ofNat_ne_ofNat (by omega) hk (by omega)),
    if_neg (by rw [ofNat_lt_ofNat hk (by omega)]; omega)]
  simp only [show (1 : BitVec 32) = BitVec.ofNat 32 1 from rfl, hcount]

/-- **`malloc_next_block`** on a tiled heap, when the request fits the block at which the search
stops: it returns that block's payload and leaves the heap tiled. -/
theorem mallocNextBlock_spec (ht : Tiled h (pre ++ b :: post)) (hpos : HeadPos (pre ++ b :: post))
    (hk0 : 0 < k) (hk : k < 2 ^ 32) (hs : Stops k pre b post) (hf : h.Fits k b) (fresh : Mem) :
    ∃ h' bs', h.mallocNextBlock fresh (BitVec.ofNat 32 k) =
        some (BitVec.ofNat 32 (span 12 pre + 12), h') ∧
      Tiled h' bs' ∧ Carves k pre b post bs' ∧ h'.mallocIniited = h.mallocIniited ∧
      (k ≤ b.size → h'.vm = h.vm) := by
  have hlt := ht.span_lt
  rw [Tiling.span_append, Tiling.span_cons] at hlt
  have hh := ht.header
  have hptr : BitVec.ofNat 32 (span 12 pre) + mallocBlockSize = BitVec.ofNat 32 (span 12 pre + 12) :=
    (BitVec.ofNat_add _ _).symm
  rcases or_assoc.mpr hf with hfit | ⟨hless, hgrow⟩
  · rw [mallocNextBlock, if_neg (ofNat_ne_zero hk0 hk)]
    simp only [if_neg (ht.nodeSize_head_ne_zero hpos), ht.searchLoop_eq hk hs, hptr, hh.size,
      ofNat_lt_ofNat hk (show b.size < 2 ^ 32 by omega)]
    rcases hfit with heq | hroom
    · -- the block is taken as it is
      rw [if_pos (by rw [heq])]
      refine ⟨_, _, rfl, ?_, .exact heq, rfl, fun _ => rfl⟩
      subst heq
      exact ht.setFree false
    · -- the rest is split off
      rw [if_neg (ofNat_ne_ofNat (by omega) hk (by omega)), if_pos (by omega)]
      refine ⟨_, _, rfl, ?_, .split hroom, rfl, fun _ => rfl⟩
      obtain ⟨h1, h2, hag⟩ := mallocSplit_spec hh hroom (by omega)
      have := ht.replace _ [⟨k, false⟩, ⟨b.size - k - 12, true⟩] (by simp) (by simp; omega) hag
        ((chain_cons_of_ne_nil (by simp)).mpr ⟨h1, chain_singleton.mpr h2⟩)
      simpa using this
  · -- the block is the last one; it grows and the rest is split off
    obtain rfl : post = [] := by
      rcases hs.taken with hp | ⟨hle, -⟩
      · exact hp
      · omega
    obtain ⟨hinit, htiled⟩ := ht.grow hless hgrow fresh
    exact ⟨_, _, ht.mallocNextBlock_grow hpos hk hs hless hgrow fresh, htiled, .grow hless rfl _, hinit,
      fun h => by omega⟩

end NextBlock

/-! ### Freeing -/

/-- **`malloc_free`** on a tiled heap changes nothing, or frees the block with the given payload. -/
theorem mallocFree_cases (ht : Tiled h bs) (ptr : VirtualAddr) :
    h.mallocFree ptr = some h ∨
    ∃ pre b post, bs = pre ++ b :: post ∧ ptr = BitVec.ofNat 32 (span 12 pre + 12) ∧
      h.mallocFree ptr =
        some { h with mem := setFree h.mem (BitVec.ofNat 32 (span 12 pre)) true } ∧
      Tiled { h with mem := setFree h.mem (BitVec.ofNat 32 (span 12 pre)) true }
        (pre ++ ⟨b.size, true⟩ :: post) := by
  have hlt := ht.span_lt
  have hlen := length_le_span bs
  have hfree : h.mallocFree ptr = freeLoop h ptr (2 ^ 32) (BitVec.ofNat 32 0) := by
    rw [mallocFree, ht.head]
    rfl
  rcases freeLoop_cases ht.head ptr ht.chain_zero ht.ne_nil (by omega) (k := 2 ^ 32) (by omega) with
    heq | ⟨pre, b, post, rfl, -, hptr, heq⟩
  · exact Or.inl (hfree.trans heq)
  · rw [Nat.zero_add] at hptr heq
    exact Or.inr ⟨pre, b, post, rfl, hptr, hfree.trans heq, ht.setFree true⟩

/-- `malloc_free`, given the payload of a block, marks that block unless it is the last one. -/
theorem mallocFree_at (ht : Tiled h (pre ++ b :: post)) :
    h.mallocFree (BitVec.ofNat 32 (span 12 pre + 12)) =
      if post = [] then some h
      else some { h with mem := setFree h.mem (BitVec.ofNat 32 (span 12 pre)) true } := by
  have hlt := ht.span_lt
  have hlen := length_le_span pre
  rw [Tiling.span_append] at hlt
  have hloop := freeLoop_at ht.head ht.chain_zero (by rw [Tiling.span_append]; omega)
    (show pre.length < 2 ^ 32 by omega)
  rw [Nat.zero_add] at hloop
  have hhead : h.mallocListHead = BitVec.ofNat 32 0 := ht.head
  rwa [← hhead] at hloop

/-! ### The list is determined by memory -/

theorem chain_unique {m : Mem} {a : ℕ} {bs' : List Block} (hc : Chain m a bs 0)
    (hc' : Chain m a bs' 0) (hne : bs ≠ []) (hne' : bs' ≠ []) (hlt : a + span 12 bs < 2 ^ 32)
    (hlt' : a + span 12 bs' < 2 ^ 32) : bs = bs' := by
  induction bs generalizing a bs' with
  | nil => exact absurd rfl hne
  | cons b bs ih =>
    cases bs' with
    | nil => exact absurd rfl hne'
    | cons c cs =>
      rw [Tiling.span_cons] at hlt hlt'
      have hsize : b.size = c.size := by
        have h1 := congrArg BitVec.toNat (hc.1.size.symm.trans hc'.1.size)
        rw [BitVec.toNat_ofNat, BitVec.toNat_ofNat] at h1
        omega
      have hfree : b.free = c.free := by
        have h1 := hc.1.free.symm.trans hc'.1.free
        cases hb : b.free <;> cases hc : c.free <;> simp [hb, hc] at h1 ⊢
      obtain rfl : b = c := by
        cases b
        cases c
        simp_all
      -- a null `next` in both lists or in neither
      have hnext := hc.1.next.symm.trans hc'.1.next
      have hpos : BitVec.ofNat 32 (a + 12 + b.size) ≠ 0 := ofNat_ne_zero (by omega) (by omega)
      by_cases hbs : bs = [] <;> by_cases hcs : cs = []
      · rw [hbs, hcs]
      · rw [if_pos hbs, if_neg hcs] at hnext
        exact absurd hnext.symm hpos
      · rw [if_neg hbs, if_pos hcs] at hnext
        exact absurd hnext hpos
      · rw [ih hc.2 hc'.2 hbs hcs (by omega) (by omega)]

/-- A heap is tiled by at most one list of blocks. -/
theorem Tiled.unique {bs' : List Block} (ht : Tiled h bs) (ht' : Tiled h bs') : bs = bs' := by
  have h1 := ht.span_lt
  have h2 := ht'.span_lt
  exact chain_unique ht.chain_zero ht'.chain_zero ht.ne_nil ht'.ne_nil (by omega) (by omega)

end FanOS.Malloc
