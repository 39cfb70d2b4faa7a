import FanOS.Kernel.Equiv.MemoryMap
import FanOS.PhysicalMmngr.Equiv.Ownership

/-!
# When the boot reservations hold

`kmain` reserves the bytes of the BIOS and loader, of the bitmap and of the kernel image by
`pmmngr_deinit_region`, which rounds the size of the region down to whole blocks.  The last block
of the bitmap and of the kernel image is therefore left as it is when it is only partly used; in
particular the bitmap of a machine with less than 128 MiB is not reserved at all.

`ReserveCond` says that no such block has been made available; `ReserveStepCond` that no
allocation is granted blocks past the bitmap's whole words that the search has not looked at,
unless all reserved memory lies below.  Under these two conditions no outstanding run ever
contains a byte of a reserved range (`boot_reservations_hold`).
-/

namespace FanOS.Kernel

open Pmmngr

/-! ### Reserved memory -/

/-- Block `b` has a byte in `[lo, hi)`. -/
def Overlaps (b lo hi : ℕ) : Prop := ∃ x, lo ≤ x ∧ x < hi ∧ x / 4096 = b

theorem overlaps_iff {b lo hi : ℕ} :
    Overlaps b lo hi ↔ lo < hi ∧ lo / 4096 ≤ b ∧ 4096 * b < hi := by
  constructor
  · rintro ⟨x, h1, h2, h3⟩
    omega
  · rintro ⟨h1, h2, h3⟩
    rcases Nat.lt_or_ge lo (4096 * b) with h4 | h4
    · exact ⟨4096 * b, by omega, by omega, by omega⟩
    · exact ⟨lo, by omega, by omega, by omega⟩

/-- The block has a byte of the BIOS and loader area, of the bitmap, or of the kernel image. -/
def Reserved (maxBlocks : ℕ) (kernelSize : BitVec 32) (b : ℕ) : Prop :=
  Overlaps b 0x1000 0x16000 ∨
  Overlaps b memmapAddress.toNat (memmapAddress.toNat + maxBlocks / 8) ∨
  Overlaps b kernelAddress.toNat (kernelAddress.toNat + kernelSize.toNat * 512)

/-- The block lies in one of the ranges that `kmain` passes to `pmmngr_deinit_region`. -/
def Deinitialized (maxBlocks : ℕ) (kernelSize : BitVec 32) (b : ℕ) : Prop :=
  b ∈ regionBlocks 0x1000 0x15000 ∨
  b ∈ regionBlocks memmapAddress (BitVec.ofNat 32 (maxBlocks / 8)) ∨
  b ∈ regionBlocks kernelAddress (kernelSize * 512)

section

variable {mem : Mem} {entries : List SMAPEntry} {hne : entries ≠ []} {kernelSize : BitVec 32}

theorem maxBlocks_kmainMemory :
    (kmainMemory mem entries hne kernelSize).maxBlocks.toNat = blockCount entries hne := by
  rw [kmainMemory, kmainReserve]
  simp only [maxBlocks_pmmngrDeinitRegion]
  exact maxBlocks_kmainImport

theorem mapWords_kmainMemory :
    (kmainMemory mem entries hne kernelSize).mapWords = blockCount entries hne / 32 := by
  rw [mapWords, maxBlocks_kmainMemory]

/-- After `kmain`'s set-up the deinitialized blocks are marked, and the others as the import left
them. -/
theorem marked_kmainMemory_of_deinitialized {b : ℕ}
    (hb : Deinitialized (blockCount entries hne) kernelSize b) :
    (kmainMemory mem entries hne kernelSize).marked b = true := by
  have hlen : (kmainImport mem entries hne).maxBlocks / blocksPerByte =
      BitVec.ofNat 32 (blockCount entries hne / 8) := by
    apply BitVec.eq_of_toNat_eq
    have := blockCount_lt entries hne
    rw [BitVec.toNat_udiv, maxBlocks_kmainImport, BitVec.toNat_ofNat, Nat.mod_eq_of_lt (by omega)]
    rfl
  have hb35 : b < 2 ^ 35 := by
    rcases hb with hb | hb | hb <;>
    · rw [mem_regionBlocks] at hb
      have := regionBlocks_le 0x1000 0x15000
      omega
  rw [kmainMemory, kmainReserve]
  simp only [pmmngrGetBlockCount, maxBlocks_pmmngrDeinitRegion, hlen]
  rw [marked_pmmngrDeinitRegion _ _ _ hb35, marked_pmmngrDeinitRegion _ _ _ hb35,
    marked_pmmngrDeinitRegion _ _ _ hb35]
  -- a later call marks blocks and leaves those of an earlier one marked
  rcases hb with hb | hb | hb
  · rw [if_pos hb, ite_self, ite_self]
  · rw [if_pos hb, ite_self]
  · rw [if_pos hb]

theorem marked_kmainMemory_of_marked {b : ℕ} (hb35 : b < 2 ^ 35)
    (hb : (kmainImport mem entries hne).marked b = true) :
    (kmainMemory mem entries hne kernelSize).marked b = true := by
  rw [kmainMemory, kmainReserve, marked_pmmngrDeinitRegion _ _ _ hb35,
    marked_pmmngrDeinitRegion _ _ _ hb35, marked_pmmngrDeinitRegion _ _ _ hb35, hb]
  simp only [ite_self]

end

/-! ### The conditions -/

/-- No block with reserved bytes is available without being reserved as a whole. -/
def ReserveCond (entries : List SMAPEntry) (hne : entries ≠ []) (kernelSize : BitVec 32) : Prop :=
  ∀ b, b < 32 * (blockCount entries hne / 32) → Reserved (blockCount entries hne) kernelSize b →
    Available entries b → Deinitialized (blockCount entries hne) kernelSize b

/-- No start whose run reaches past the whole words of the bitmap is accepted, unless a run below
exists as well. -/
def NoSpill (s : Pmmngr) (n : ℕ) : Prop :=
  ∀ start, start < 32 * s.mapWords → s.Accepts start n → 32 * s.mapWords < start + n →
    ∃ t, t + n ≤ 32 * s.mapWords ∧ ∀ x, t ≤ x → x < t + n → s.marked x = false

/-- The condition on an allocation: it is refused by the counter, or it is for at most `2 ^ 31`
blocks and cannot spill past the bitmap's whole words into reserved memory. -/
def ReserveStepCond (kernelSize : BitVec 32) (o : Owned) : BlockCall → Prop
  | .alloc n => o.1.pmmngrGetFreeBlockCount ≤ n ∨ n.toNat ≤ 2 ^ 31 ∧
      ((∀ b, Reserved o.1.maxBlocks.toNat kernelSize b → b < 32 * o.1.mapWords) ∨
        NoSpill o.1 n.toNat)
  | .free _ _ => True

/-! ### The invariant -/

/-- Reserved blocks that the search can see stay marked, and no outstanding run has a reserved
block. -/
structure ReserveInv (kernelSize : BitVec 32) (o : Owned) : Prop where
  marked : ∀ b, b < 32 * o.1.mapWords → Reserved o.1.maxBlocks.toNat kernelSize b →
    o.1.marked b = true
  length_le : ∀ r ∈ o.2, r.2.toNat ≤ 2 ^ 31
  apart : ∀ r ∈ o.2, ∀ b ∈ runBlocks r, ¬ Reserved o.1.maxBlocks.toNat kernelSize b

namespace ReserveInv

variable {kernelSize : BitVec 32} {o : Owned}

/-- A run granted under the condition has no reserved block. -/
theorem not_reserved_of_grant (h : ReserveInv kernelSize o) {n : BitVec 32} {b : ℕ}
    (hg : o.1.Grant n b)
    (hc : (∀ b, Reserved o.1.maxBlocks.toNat kernelSize b → b < 32 * o.1.mapWords) ∨
      NoSpill o.1 n.toNat) {x : ℕ} (h1 : b ≤ x) (h2 : x < b + n.toNat) :
    ¬ Reserved o.1.maxBlocks.toNat kernelSize x := by
  intro hres
  have hfree : x < 32 * o.1.mapWords → False := fun hx => Bool.false_ne_true
    ((hg.first.2.1.marked_eq_false h1 h2 hx).symm.trans (h.marked x hx hres))
  rcases hc with hbelow | hspill
  · exact hfree (hbelow x hres)
  · rcases Nat.lt_or_ge (32 * o.1.mapWords) (b + n.toNat) with hpast | hin
    · -- the search would have taken the run below the end
      obtain ⟨t, ht, hrun⟩ := hspill b hg.first.1 hg.first.2.1 hpast
      exact hg.first.2.2 t (by omega) ((accepts_iff_of_le ht).mpr hrun)
    · exact hfree (by omega)

/-- A grant under the condition keeps the invariant, whether or not its run is entered. -/
theorem of_grant (h : ReserveInv kernelSize o) {n : BitVec 32} {b : ℕ} (hg : o.1.Grant n b)
    (hn : n.toNat ≤ 2 ^ 31)
    (hc : (∀ b, Reserved o.1.maxBlocks.toNat kernelSize b → b < 32 * o.1.mapWords) ∨
      NoSpill o.1 n.toNat) {runs : List (PhysicalAddr × BitVec 32)}
    (hruns : ∀ r ∈ runs, r = ((o.1.pmmngrAllocBlocks n).1, n) ∨ r ∈ o.2) :
    ReserveInv kernelSize ((o.1.pmmngrAllocBlocks n).2, runs) := by
  have hwords : (o.1.pmmngrAllocBlocks n).2.mapWords = o.1.mapWords := by
    rw [mapWords, maxBlocks_pmmngrAllocBlocks, mapWords]
  have hlt := o.1.mapWords_lt
  refine ⟨fun x hx hres => ?_, fun r hr => ?_, fun r hr x hx => ?_⟩
  · simp only [hwords, maxBlocks_pmmngrAllocBlocks] at hx hres
    rw [hg.marked x (by omega), h.marked x hx hres, ite_self]
  · rcases hruns r hr with rfl | hr
    · exact hn
    · exact h.length_le r hr
  · simp only [maxBlocks_pmmngrAllocBlocks]
    rcases hruns r hr with rfl | hr
    · rw [mem_runBlocks, hg.address_div] at hx
      exact h.not_reserved_of_grant hg hc hx.1 hx.2
    · exact h.apart r hr x hx

/-- A free of an outstanding run, which has no reserved block, keeps the invariant. -/
theorem of_free (h : ReserveInv kernelSize o) {a : PhysicalAddr} {n : BitVec 32}
    (hr : (a, n) ∈ o.2) : ReserveInv kernelSize (o.1.pmmngrFreeBlocks a n, o.2.erase (a, n)) := by
  have hn := h.length_le _ hr
  have ha := a.isLt
  have hlt := o.1.mapWords_lt
  refine ⟨fun x hx hres => ?_, fun r hr' => h.length_le r (List.mem_of_mem_erase hr'),
    fun r hr' x hx => ?_⟩
  · simp only [mapWords, maxBlocks_pmmngrFreeBlocks] at hx hres
    have hnot : x ∉ runBlocks (a, n) := fun hxr => h.apart _ hr x hxr hres
    rw [mem_runBlocks] at hnot
    rw [marked_pmmngrFreeBlocks _ _ _ (by simp only at hn; omega)
      (by have := mapWords_lt o.1; unfold mapWords at this; omega), if_neg hnot]
    exact h.marked x hx hres
  · simp only [maxBlocks_pmmngrFreeBlocks]
    exact h.apart r (List.mem_of_mem_erase hr') x hx

/-- A call that meets the condition keeps the invariant. -/
theorem step (h : ReserveInv kernelSize o) {c : BlockCall} {o' : Owned}
    (hc : ReserveStepCond kernelSize o c) (hs : ownershipStep o c o') :
    ReserveInv kernelSize o' := by
  cases c with
  | alloc n =>
    rw [ownershipStep] at hs
    subst hs
    rcases hc with hfull | ⟨hn, hc⟩
    · -- the counter refuses the request
      simp only [pmmngrAllocBlocks, if_pos hfull, if_true]
      exact h
    · rcases o.1.pmmngrAllocBlocks_cases_of_le hn with hfail | ⟨b, hg⟩
      · simp only [hfail, if_true]
        exact h
      · refine h.of_grant hg hn hc fun r hr => ?_
        split_ifs at hr
        · exact Or.inr hr
        · exact List.mem_cons.mp hr
  | free a n =>
    obtain ⟨hr, rfl⟩ := hs
    exact h.of_free hr

end ReserveInv

/-- **The boot reservations hold** on every machine that meets `ReserveCond`, in every run whose
allocations meet `ReserveStepCond`: no outstanding run has a byte of the BIOS and loader area, of
the bitmap or of the kernel image. -/
theorem boot_reservations_hold (mem : Mem) (entries : List SMAPEntry) (hne : entries ≠ [])
    (kernelSize : BitVec 32) (hcond : ReserveCond entries hne kernelSize) (o : Owned)
    (h : ((ownershipSystem (kmainMemory mem entries hne kernelSize)).restrict
      (ReserveStepCond kernelSize)).Reachable o) :
    ∀ r ∈ o.2, ∀ b ∈ runBlocks r, ¬ Reserved (blockCount entries hne) kernelSize b := by
  have hinv : ReserveInv kernelSize o ∧ o.1.maxBlocks.toNat = blockCount entries hne := by
    refine h.invariant (I := fun o => ReserveInv kernelSize o ∧
      o.1.maxBlocks.toNat = blockCount entries hne) ?_ fun s a s' hs hstep => ?_
    · rintro _ rfl
      refine ⟨⟨fun b hb hres => ?_, by simp, by simp⟩, maxBlocks_kmainMemory⟩
      simp only [mapWords_kmainMemory, maxBlocks_kmainMemory] at hb hres
      have hlt := blockCount_lt entries hne
      -- an available block was freed and must have been reserved again
      by_cases hav : Available entries b
      · exact marked_kmainMemory_of_deinitialized (hcond b hb hres hav)
      · apply marked_kmainMemory_of_marked (by omega)
        rw [marked_kmainImport (by omega)]
        simp only [hav, if_false]
        rw [if_pos (show b < 8 * (blockCount entries hne / 8) by omega), ite_self]
    · refine ⟨hs.1.step hstep.1 hstep.2, ?_⟩
      rw [← hs.2]
      exact congrArg BitVec.toNat (maxBlocks_ownershipStep hstep.2)
  intro r hr b hb
  rw [← hinv.2]
  exact hinv.1.apart r hr b hb

/-- A machine of 79 blocks with a hole at the bitmap and an 8-sector kernel, after one
allocation. -/
theorem boot_reservations_hold_one_block :
    ∃ o : Owned, o.2 = [(0x16000, 1)] ∧ ∀ r ∈ o.2, ∀ b ∈ runBlocks r,
      ¬ Reserved (blockCount [⟨0, 0x30000, 1⟩, ⟨0x30000, 0x10000, 2⟩, ⟨0x40000, 0x10000, 1⟩]
        (by decide)) 8 b := by
  have hcount : blockCount [⟨0, 0x30000, 1⟩, ⟨0x30000, 0x10000, 2⟩, ⟨0x40000, 0x10000, 1⟩]
      (by decide) = 79 := by decide
  have hcond : ReserveCond [⟨0, 0x30000, 1⟩, ⟨0x30000, 0x10000, 2⟩, ⟨0x40000, 0x10000, 1⟩]
      (by decide) 8 := by
    intro b hb hres hav
    rw [hcount] at hb hres
    rcases hres with h | h | h <;> rw [overlaps_iff] at h
    · apply Or.inl
      rw [mem_regionBlocks]
      exact ⟨h.2.1, by have := h.2.2; show b < 1 + 21; omega⟩
    · obtain rfl : b = 48 := by
        have h1 : 48 ≤ b := h.2.1
        have h2 : 4096 * b < 0x30000 + 79 / 8 := h.2.2
        omega
      exact absurd hav (by decide)
    · have h1 : 256 ≤ b := h.2.1
      omega
  have hinit : ((ownershipSystem (kmainMemory (fun _ => 0)
      [⟨0, 0x30000, 1⟩, ⟨0x30000, 0x10000, 2⟩, ⟨0x40000, 0x10000, 1⟩] (by decide) 8)).restrict
        (ReserveStepCond 8)).Reachable ⟨_, []⟩ := System.Reachable.init rfl
  have hspill : NoSpill (kmainMemory (fun _ => 0)
      [⟨0, 0x30000, 1⟩, ⟨0x30000, 0x10000, 2⟩, ⟨0x40000, 0x10000, 1⟩] (by decide) 8)
      (BitVec.toNat 1#32) := fun start h1 _ h2 => by simp only [BitVec.toNat_ofNat] at h2; omega
  have hreach := System.Reachable.step (a := BlockCall.alloc 1) hinit
    ⟨Or.inr ⟨by decide, Or.inr hspill⟩, rfl⟩
  exact ⟨_, by decide +kernel, boot_reservations_hold _ _ _ _ hcond _ hreach⟩

/-- On a machine with 512 KiB of available memory the bitmap is not reserved at all, and an
allocation of 27 blocks is granted the block it lies in. -/
theorem not_boot_reservations_hold :
    ∃ o : Owned, (ownershipSystem (kmainMemory (fun _ => 0) [⟨0, 0x80000, 1⟩]
        (by decide) 0)).Reachable o ∧
      ∃ r ∈ o.2, ∃ b ∈ runBlocks r, Reserved (blockCount [⟨0, 0x80000, 1⟩] (by decide)) 0 b := by
  have hinit : (ownershipSystem (kmainMemory (fun _ => 0) [⟨0, 0x80000, 1⟩]
      (by decide) 0)).Reachable ⟨_, []⟩ := System.Reachable.init rfl
  have hreach := System.Reachable.step (a := BlockCall.alloc 27) hinit rfl
  refine ⟨_, hreach, (0x16000, 27), ?_, 48, by decide, Or.inr (Or.inl ?_)⟩
  · decide +kernel
  · rw [overlaps_iff]
    decide

end FanOS.Kernel
