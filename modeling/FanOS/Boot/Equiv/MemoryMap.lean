import FanOS.Boot.Equiv.Frame
import FanOS.Boot.MemoryMap

/-!
# Collecting the memory map

The loop of `get_memory_map` is a compaction: each entry is written behind those that are kept
(`holds_memAfter`).  As long as no failing call gives an entry, the registers after call `k` are
`reached ρ m k` (`skipEntry_settled`), so the loop ends with the first zero in `EBX`; and a count that has
gone too far does not come back (`run_spec`).

The loader reads its table over the end of a long map.  Two floppies whose tables differ show that the
299th entry is lost (`room_of_read`).
-/

namespace FanOS.Boot

open Kernel (SMAPEntry loadEntry smapEntries)
open Compaction (fill)

variable {ρ : Report} {m m' : Mem} {s s' : Regs} {r : Range} {i j k n x y : ℕ}

/-! ### Entries in memory -/

theorem load32_eq_of {a b : BitVec 32}
    (h : ∀ i < 4, m (a + BitVec.ofNat 32 i) = m' (b + BitVec.ofNat 32 i)) :
    m.load32 a = m'.load32 b := by
  have h0 := h 0 (by decide)
  rw [BitVec.add_zero, BitVec.add_zero] at h0
  rw [Mem.load32, Mem.load32, h0]
  congr 2
  · exact congr (congrArg _ (h 3 (by decide))) (h 2 (by decide))
  · exact h 1 (by decide)

/-- An entry depends on its first 20 bytes only. -/
theorem loadEntry_eq_of (h : ∀ i < 20, m (BitVec.ofNat 32 (x + i)) = m' (BitVec.ofNat 32 (y + i))) :
    loadEntry m (BitVec.ofNat 32 x) = loadEntry m' (BitVec.ofNat 32 y) := by
  have hword : ∀ o ≤ 16, m.load32 (BitVec.ofNat 32 (x + o)) = m'.load32 (BitVec.ofNat 32 (y + o)) := by
    intro o ho
    apply load32_eq_of
    intro i hi
    rw [← BitVec.ofNat_add, ← BitVec.ofNat_add, Nat.add_assoc, Nat.add_assoc]
    exact h (o + i) (by omega)
  have hoff : ∀ (z : ℕ), BitVec.ofNat 32 z + 4 = BitVec.ofNat 32 (z + 4) ∧
      BitVec.ofNat 32 z + 8 = BitVec.ofNat 32 (z + 8) ∧
      BitVec.ofNat 32 z + 12 = BitVec.ofNat 32 (z + 12) ∧
      BitVec.ofNat 32 z + 16 = BitVec.ofNat 32 (z + 16) := fun z =>
    ⟨(BitVec.ofNat_add z 4).symm, (BitVec.ofNat_add z 8).symm, (BitVec.ofNat_add z 12).symm,
      (BitVec.ofNat_add z 16).symm⟩
  obtain ⟨hx4, hx8, hx12, hx16⟩ := hoff x
  obtain ⟨hy4, hy8, hy12, hy16⟩ := hoff y
  have h0 := hword 0 (by decide)
  rw [Nat.add_zero, Nat.add_zero] at h0
  rw [loadEntry, loadEntry, hx4, hx8, hx12, hx16, hy4, hy8, hy12, hy16, h0, hword 4 (by decide),
    hword 8 (by decide), hword 12 (by decide), hword 16 (by decide)]

/-- A length is zero when both its halves are. -/
theorem append_eq_zero {a b : BitVec 32} : (a ++ b : BitVec 64) = 0 ↔ a = 0 ∧ b = 0 := by
  constructor
  · intro h
    have hnat := congrArg BitVec.toNat h
    rw [BitVec.toNat_append, show (0 : BitVec 64).toNat = 0 from rfl, Nat.or_eq_zero_iff,
      Nat.shiftLeft_eq] at hnat
    constructor <;> bv_omega
  · rintro ⟨rfl, rfl⟩
    rfl

theorem Range.le_length (r : Range) : 20 ≤ r.length ∧ r.length ≤ 24 := by
  unfold Range.length
  split_ifs <;> decide

/-- The entry lies in its slot. -/
def Holds (mem : Mem) (i : ℕ) (r : Range) : Prop :=
  ∀ j < r.length, mem (BitVec.ofNat 32 (slotAddr i + j)) = r.bytes j

theorem Holds.loadEntry_eq {mem : Mem} (h : Holds mem i r) :
    loadEntry mem (BitVec.ofNat 32 (slotAddr i)) = r.entry := by
  rw [Range.entry, show (0 : BitVec 32) = BitVec.ofNat 32 0 from rfl]
  apply loadEntry_eq_of
  intro j hj
  rw [h j (by have := r.le_length; omega), BitVec.toNat_ofNat, Nat.zero_add,
    Nat.mod_eq_of_lt (by omega)]

/-! ### Memory after so many calls -/

/-- The entries of non-zero length among the first `k`. -/
def Report.count (ρ : Report) (k : ℕ) : ℕ := ((ρ.ranges.take k).filter Range.present).length

/-- Memory after `k` calls. -/
def memAfter (ρ : Report) (m : Mem) : ℕ → Mem
  | 0 => m.store32 (BitVec.ofNat 32 (slotAddr 0 + 20)) 1
  | k + 1 =>
    match ρ.ranges[k]? with
    | some r => (memAfter ρ m k).storeBlock (BitVec.ofNat 32 (slotAddr (ρ.count k))) r.length r.bytes
    | none => memAfter ρ m k

theorem count_le (ρ : Report) (k : ℕ) : ρ.count k ≤ ρ.present.length :=
  ((List.take_sublist k ρ.ranges).filter _).length_le

theorem count_of_le (h : ρ.ranges.length ≤ k) : ρ.count k = ρ.present.length := by
  rw [Report.count, List.take_of_length_le h, Report.present]

theorem take_succ_of_some (hr : ρ.ranges[k]? = some r) :
    ρ.ranges.take (k + 1) = ρ.ranges.take k ++ [r] := by
  rw [List.take_add_one, hr]
  rfl

theorem count_succ (hr : ρ.ranges[k]? = some r) :
    ρ.count (k + 1) = if r.present then ρ.count k + 1 else ρ.count k := by
  rw [Report.count, take_succ_of_some hr, Compaction.filter_concat]
  split_ifs
  · rw [List.length_append, List.length_singleton, Report.count]
  · rfl

/-- What a slot holds: an entry, or what was there before. -/
def SlotHolds (m mem : Mem) (i : ℕ) : Option Range → Prop
  | some r => Holds mem i r
  | none => ∀ j < 20, mem (BitVec.ofNat 32 (slotAddr i + j)) = m (BitVec.ofNat 32 (slotAddr i + j))

/-- A call writes to its slot only. -/
theorem memAfter_succ_apply (hr : ρ.ranges[k]? = some r) (hk : ρ.count k ≤ 298) (hx : x < 2 ^ 32) :
    memAfter ρ m (k + 1) (BitVec.ofNat 32 x) =
      if slotAddr (ρ.count k) ≤ x ∧ x < slotAddr (ρ.count k) + r.length then
        r.bytes (x - slotAddr (ρ.count k))
      else memAfter ρ m k (BitVec.ofNat 32 x) := by
  have hlen := r.le_length
  rw [memAfter, hr]
  exact Mem.storeBlock_ofNat _ _ hx (by unfold slotAddr; omega)

theorem memAfter_succ_of_none (hr : ρ.ranges[k]? = none) : memAfter ρ m (k + 1) = memAfter ρ m k := by
  rw [memAfter, hr]

/-- **Simulation**: the slots hold what the compaction of the entries says. -/
theorem slotHolds_memAfter (hroom : ρ.present.length ≤ 298) (k : ℕ) (hi : i ≤ 298) :
    SlotHolds m (memAfter ρ m k) i ((fill Range.present (ρ.ranges.take k)).slot i) := by
  induction k with
  | zero =>
    intro j hj
    exact m.store32_ofNat_of_ne 1 (by unfold slotAddr; omega) (by decide) (by unfold slotAddr; omega)
  | succ k ih =>
    have hk : ρ.count k ≤ 298 := le_trans (count_le ρ k) hroom
    cases hr : ρ.ranges[k]? with
    | none =>
      rw [memAfter_succ_of_none hr, List.take_add_one, hr, Option.toList_none, List.append_nil]
      exact ih
    | some r =>
      have hlen := r.le_length
      have hnext : (fill Range.present (ρ.ranges.take k)).next = ρ.count k := Compaction.next_fill _
      rw [take_succ_of_some hr, Compaction.fill_concat]
      by_cases hin : i = ρ.count k
      · rw [hin, ← hnext, Compaction.slot_put_self, hnext]
        intro j hj
        rw [memAfter_succ_apply hr hk (by unfold slotAddr; omega), if_pos (by omega),
          Nat.add_sub_cancel_left]
      · -- the slots are apart
        have hapart : ∀ j < 24, memAfter ρ m (k + 1) (BitVec.ofNat 32 (slotAddr i + j)) =
            memAfter ρ m k (BitVec.ofNat 32 (slotAddr i + j)) := by
          intro j hj
          rw [memAfter_succ_apply hr hk (by unfold slotAddr; omega), if_neg]
          unfold slotAddr
          omega
        rw [Compaction.slot_put_of_ne (by rwa [hnext])]
        cases hslot : (fill Range.present (ρ.ranges.take k)).slot i with
        | none =>
          rw [hslot] at ih
          intro j hj
          rw [hapart j (by omega)]
          exact ih j hj
        | some r' =>
          rw [hslot] at ih
          intro j hj
          rw [hapart j (by have := r'.le_length; omega)]
          exact ih j hj

/-- Nothing is written below the entries. -/
theorem memAfter_below (hroom : ρ.present.length ≤ 298) (k : ℕ) (hx : x < 0x1004) :
    memAfter ρ m k (BitVec.ofNat 32 x) = m (BitVec.ofNat 32 x) := by
  induction k with
  | zero => exact m.store32_ofNat_of_ne 1 (by omega) (by decide) (Or.inl (by unfold slotAddr; omega))
  | succ k ih =>
    cases hr : ρ.ranges[k]? with
    | none => rw [memAfter_succ_of_none hr, ih]
    | some r =>
      rw [memAfter_succ_apply hr (le_trans (count_le ρ k) hroom) (by omega), if_neg, ih]
      unfold slotAddr
      omega

/-- Each entry of non-zero length is in its slot in the end. -/
theorem holds_memAfter (hroom : ρ.present.length ≤ 298) (hk : ρ.ranges.length ≤ k)
    (hr : ρ.present[i]? = some r) : Holds (memAfter ρ m k) i r := by
  have hi : i < ρ.present.length := (List.getElem?_eq_some_iff.mp hr).1
  have h := slotHolds_memAfter (m := m) hroom k (i := i) (by omega)
  rw [List.take_of_length_le hk, Compaction.slot_fill_of_lt hi, ← Report.present, hr] at h
  exact h

/-- What is behind them has zero length as `EmptyBehind` says. -/
theorem size_behind (hroom : ρ.present.length ≤ 298) (hk : ρ.ranges.length ≤ k) :
    (loadEntry (memAfter ρ m k) (BitVec.ofNat 32 (slotAddr ρ.present.length))).size = 0 ↔
      ρ.EmptyBehind m := by
  have h := slotHolds_memAfter (m := m) hroom k hroom
  have hslot := Compaction.slot_fill_next (p := Range.present) ρ.ranges
  rw [Compaction.next_fill, ← Report.present, List.getLast?_eq_some_getLast ρ.ranges_ne_nil,
    Option.filter_some] at hslot
  rw [List.take_of_length_le hk, hslot] at h
  unfold Report.EmptyBehind
  cases hlast : (ρ.ranges.getLast ρ.ranges_ne_nil).present with
  | true =>
    rw [hlast] at h
    rw [loadEntry_eq_of h]
    exact ⟨Or.inr, fun h => h.resolve_left (by decide)⟩
  | false =>
    rw [hlast] at h
    rw [Holds.loadEntry_eq h]
    exact iff_of_true (by simpa [Range.present] using hlast) (Or.inl rfl)

/-! ### Calls -/

/-- Registers and memory after call `k`, when no call that failed gave an entry. -/
def reached (ρ : Report) (m : Mem) (k : ℕ) : Regs where
  calls := k + 1
  carry := ρ.ranges[k]?.isNone
  eax := if ρ.ranges[k]?.isSome then pams else ρ.eax k
  ebx := ρ.ebx k
  ecx := (ρ.ranges[k]?.map fun r => BitVec.ofNat 32 r.length).getD (ρ.ecx k)
  bp := BitVec.ofNat 16 (ρ.count k)
  di := BitVec.ofNat 16 (slotAddr (ρ.count k))
  mem := memAfter ρ m (k + 1)

/-- They are so after its entry. -/
def settled (ρ : Report) (m : Mem) (k : ℕ) : Regs :=
  { reached ρ m k with
    bp := BitVec.ofNat 16 (ρ.count (k + 1))
    di := BitVec.ofNat 16 (slotAddr (ρ.count (k + 1))) }

/-- The call does not fail, or gives no entry. -/
def Report.Quiet (ρ : Report) (m : Mem) (k : ℕ) : Prop :=
  ρ.ranges.length ≤ k → (ρ.ecx k).setWidth 16 = (0 : BitVec 16) ∨ ρ.EmptyBehind m

theorem toNat_slotAddr (h : i ≤ 298) : (BitVec.ofNat 16 (slotAddr i)).toNat = slotAddr i := by
  rw [BitVec.toNat_ofNat, Nat.mod_eq_of_lt (by unfold slotAddr; omega)]

theorem linear_slotAddr (h : i ≤ 298) :
    linear 0 (BitVec.ofNat 16 (slotAddr i)) = BitVec.ofNat 32 (slotAddr i) := by
  rw [linear_eq, toNat_slotAddr h, show 16 * (0 : BitVec 16).toNat = 0 from rfl, Nat.zero_add]

/-- A call is made with the slot behind the entries. -/
theorem int15_eq (hroom : ρ.present.length ≤ 298) (hcalls : s.calls = k)
    (hbp : s.bp = BitVec.ofNat 16 (ρ.count k)) (hdi : s.di = BitVec.ofNat 16 (slotAddr (ρ.count k)))
    (hmem : s.mem = memAfter ρ m k) : int15 ρ s = .ok (reached ρ m k) := by
  have hk := le_trans (count_le ρ k) hroom
  have hfits : s.di.toNat + 24 ≤ stackTop - 8 := by
    rw [hdi, toNat_slotAddr hk, show stackTop - 8 = 0xFFF7 from rfl]
    unfold slotAddr
    omega
  rw [int15, if_pos hfits, hcalls, hdi, linear_slotAddr hk, hmem]
  cases hr : ρ.ranges[k]? with
  | none => simp [reached, hr, memAfter, hbp]
  | some r => simp [reached, hr, memAfter, hbp]

/-- The first call does not fail. -/
theorem getMemoryMap_eq (hroom : ρ.present.length ≤ 298) (m : Mem) (n : ℕ) :
    getMemoryMap ρ m n =
      if ρ.ebx 0 = 0 then some (.ok { reached ρ m 0 with carry := true })
      else Loop.run (round ρ) n (reached ρ m 0) := by
  obtain ⟨r, hr⟩ : ∃ r, ρ.ranges[0]? = some r :=
    ⟨_, List.getElem?_eq_getElem (List.length_pos_of_ne_nil ρ.ranges_ne_nil)⟩
  have hcarry : (reached ρ m 0).carry = false := by rw [reached, hr]; rfl
  have heax : (reached ρ m 0).eax = pams := by simp only [reached, hr, Option.isSome_some, if_true]
  have hcount : ρ.count 0 = 0 := rfl
  unfold getMemoryMap
  simp only
  rw [int15_eq (k := 0) (m := m) hroom rfl rfl rfl rfl]
  simp only [hcarry, heax, Bool.false_eq_true, ne_eq, not_true_eq_false, false_or]
  rfl

/-- What is looked at from `.start` on. -/
theorem start_eq (hdi : s.di.toNat + 24 ≤ 2 ^ 16) :
    start s = if s.ecx.setWidth 16 = (0 : BitVec 16) ∨ (loadEntry s.mem (linear 0 s.di)).size = 0 then s
      else goodEntry s := by
  have hlow : linear 0 (s.di + 8) = linear 0 s.di + 8 := by unfold linear; bv_omega
  have hhigh : linear 0 (s.di + 12) = linear 0 s.di + 12 := by unfold linear; bv_omega
  have hsize : (loadEntry s.mem (linear 0 s.di)).size = 0 ↔
      s.mem.load32 (linear 0 s.di + 12) = 0 ∧ s.mem.load32 (linear 0 s.di + 8) = 0 := append_eq_zero
  rw [start, hlow, hhigh]
  simp only [hsize]
  split_ifs <;> simp_all

/-- The size that is found behind the entries so far. -/
theorem start_reached_eq (hroom : ρ.present.length ≤ 298) (m : Mem) (k : ℕ) :
    start (reached ρ m k) =
      if (reached ρ m k).ecx.setWidth 16 = (0 : BitVec 16) ∨
        (loadEntry (memAfter ρ m (k + 1)) (BitVec.ofNat 32 (slotAddr (ρ.count k)))).size = 0
      then reached ρ m k else goodEntry (reached ρ m k) := by
  have hk := le_trans (count_le ρ k) hroom
  have hdi : (reached ρ m k).di = BitVec.ofNat 16 (slotAddr (ρ.count k)) := rfl
  rw [start_eq (by rw [hdi, toNat_slotAddr hk]; unfold slotAddr; omega), hdi, linear_slotAddr hk]
  rfl

/-- Counting an entry. -/
theorem goodEntry_reached (h : ρ.count (k + 1) = ρ.count k + 1) :
    goodEntry (reached ρ m k) = settled ρ m k := by
  rw [goodEntry, settled, h]
  congr 1
  · exact (BitVec.ofNat_add (ρ.count k) 1).symm
  · exact (BitVec.ofNat_add (slotAddr (ρ.count k)) 24).symm

/-- Not counting it. -/
theorem reached_eq_settled (h : ρ.count (k + 1) = ρ.count k) : reached ρ m k = settled ρ m k := by
  rw [settled, h]
  rfl

/-- An entry is counted if its length is not zero. -/
theorem start_reached_of_some (hroom : ρ.present.length ≤ 298) (hr : ρ.ranges[k]? = some r) :
    start (reached ρ m k) = settled ρ m k := by
  have hk := le_trans (count_le ρ k) hroom
  have hholds : Holds (memAfter ρ m (k + 1)) (ρ.count k) r := by
    intro j hj
    have := r.le_length
    rw [memAfter_succ_apply hr hk (by unfold slotAddr; omega), if_pos (by omega),
      Nat.add_sub_cancel_left]
  have hecx : (reached ρ m k).ecx.setWidth 16 ≠ (0 : BitVec 16) := by
    simp only [reached, hr, Option.map_some, Option.getD_some, Range.length]
    split_ifs <;> decide
  rw [start_reached_eq hroom, hholds.loadEntry_eq]
  have hcount := count_succ hr
  by_cases hp : r.present = true
  · rw [if_pos hp] at hcount
    have hsize : r.entry.size ≠ 0 := by simpa [Range.present] using hp
    rw [if_neg (not_or.mpr ⟨hecx, hsize⟩), goodEntry_reached hcount]
  · rw [if_neg hp] at hcount
    have hsize : r.entry.size = 0 := by simpa [Range.present] using hp
    rw [if_pos (Or.inr hsize), reached_eq_settled hcount]

/-- What a call that fails finds is what is behind the entries. -/
theorem start_reached_of_le (hroom : ρ.present.length ≤ 298) (m : Mem) (hk : ρ.ranges.length ≤ k) :
    (ρ.Quiet m k → start (reached ρ m k) = settled ρ m k) ∧
    (¬ρ.Quiet m k → start (reached ρ m k) = goodEntry (reached ρ m k)) := by
  have hecx : (reached ρ m k).ecx = ρ.ecx k := by
    rw [reached, List.getElem?_eq_none hk]
    rfl
  have hcond : ρ.Quiet m k ↔ (reached ρ m k).ecx.setWidth 16 = (0 : BitVec 16) ∨
      (loadEntry (memAfter ρ m (k + 1)) (BitVec.ofNat 32 (slotAddr (ρ.count k)))).size = 0 := by
    rw [hecx, count_of_le hk, size_behind hroom (by omega)]
    exact ⟨fun h => h hk, fun h _ => h⟩
  have hcount : ρ.count (k + 1) = ρ.count k := by rw [count_of_le hk, count_of_le (by omega)]
  rw [hcond, start_reached_eq hroom]
  exact ⟨fun h => by rw [if_pos h, reached_eq_settled hcount], fun h => if_neg h⟩

/-- In a call that is quiet an entry is counted just when it is one of those of non-zero length. -/
theorem start_reached (hroom : ρ.present.length ≤ 298) (hq : ρ.Quiet m k) :
    start (reached ρ m k) = settled ρ m k := by
  by_cases hk : ρ.ranges.length ≤ k
  · exact (start_reached_of_le hroom m hk).1 hq
  · exact start_reached_of_some hroom (List.getElem?_eq_getElem (by omega))

/-- The loop goes on until `EBX` is zero. -/
theorem skipEntry_settled (hroom : ρ.present.length ≤ 298) (m : Mem) (k : ℕ) :
    skipEntry ρ (settled ρ m k) =
      if ρ.ebx k = 0 then .inr (.ok { settled ρ m k with carry := false })
      else .inl (reached ρ m (k + 1)) := by
  have hebx : (settled ρ m k).ebx = ρ.ebx k := rfl
  rw [skipEntry, hebx, int15_eq (k := k + 1) (m := m) hroom rfl rfl rfl rfl]
  by_cases hzero : ρ.ebx k = 0
  · rw [if_neg (not_not.mpr hzero), if_pos hzero]
    rfl
  · rw [if_pos hzero, if_neg hzero]

/-! ### Runs -/

/-- The loop ends with the first zero in `EBX`, if no call before gives an entry that it should not. -/
theorem run_reached (hroom : ρ.present.length ≤ 298) (hzero : ρ.ebx (k + n) = 0)
    (hne : ∀ i < n, ρ.ebx (k + i) ≠ 0) (hq : ∀ i ≤ n, ρ.Quiet m (k + i)) :
    Loop.run (round ρ) (n + 1) (reached ρ m k) =
      some (.ok { settled ρ m (k + n) with carry := false }) := by
  induction n generalizing k with
  | zero =>
    have hq0 : ρ.Quiet m k := hq 0 (Nat.le_refl 0)
    rw [Nat.add_zero] at hzero
    rw [Loop.run, round, start_reached hroom hq0, skipEntry_settled hroom, if_pos hzero]
    rfl
  | succ n ih =>
    have hstep : ∀ i, k + 1 + i = k + (i + 1) := fun i => by omega
    have hq0 : ρ.Quiet m k := hq 0 (Nat.zero_le _)
    have hne0 : ρ.ebx k ≠ 0 := hne 0 n.succ_pos
    rw [Loop.run, round, start_reached hroom hq0, skipEntry_settled hroom, if_neg hne0, ← hstep n]
    refine ih (by rwa [hstep]) (fun i hi => ?_) (fun i hi => ?_)
    · rw [hstep]
      exact hne (i + 1) (by omega)
    · rw [hstep]
      exact hq (i + 1) (by omega)

/-- The buffer is behind as many entries as have been counted, and below the stack. -/
structure Regular (s : Regs) : Prop where
  di : s.di.toNat = slotAddr s.bp.toNat
  fits : s.di.toNat + 24 ≤ 0xFFF7

theorem regular_reached (hroom : ρ.present.length ≤ 298) (m : Mem) (k : ℕ) :
    Regular (reached ρ m k) := by
  have hk := le_trans (count_le ρ k) hroom
  have hdi : (reached ρ m k).di.toNat = slotAddr (ρ.count k) := toNat_slotAddr hk
  have hbp : (reached ρ m k).bp.toNat = ρ.count k := by
    rw [reached, BitVec.toNat_ofNat, Nat.mod_eq_of_lt (by omega)]
  refine ⟨by rw [hdi, hbp], ?_⟩
  rw [hdi]
  unfold slotAddr
  omega

theorem Regular.goodEntry (hs : Regular s) :
    (goodEntry s).bp.toNat = s.bp.toNat + 1 ∧ (goodEntry s).di.toNat = slotAddr (s.bp.toNat + 1) := by
  obtain ⟨hdi, hfits⟩ := hs
  unfold slotAddr at hdi
  unfold slotAddr Boot.goodEntry
  constructor <;> dsimp only <;> bv_omega

theorem start_cases (s : Regs) : start s = s ∨ start s = goodEntry s := by
  unfold start
  split_ifs
  · exact .inl rfl
  · exact .inr rfl
  · exact .inl rfl
  · exact .inr rfl

theorem Regular.start (hs : Regular s) :
    s.bp.toNat ≤ (start s).bp.toNat ∧ (start s).di.toNat = slotAddr (start s).bp.toNat ∧
      (start s).mem = s.mem := by
  obtain heq | heq := start_cases s
  · rw [heq]
    exact ⟨Nat.le_refl _, hs.di, rfl⟩
  · obtain ⟨hbp, hdi⟩ := hs.goodEntry
    rw [heq, hdi, hbp]
    exact ⟨Nat.le_succ _, rfl, rfl⟩

/-- What a call keeps. -/
theorem int15_spec (h : int15 ρ s = .ok s') :
    s'.bp = s.bp ∧ s'.di = s.di ∧ s.di.toNat + 24 ≤ 0xFFF7 ∧
      ∀ x < s.di.toNat, s'.mem (BitVec.ofNat 32 x) = s.mem (BitVec.ofNat 32 x) := by
  unfold int15 at h
  split_ifs at h with hfits
  rw [show stackTop - 8 = 0xFFF7 from rfl] at hfits
  split at h
  · rename_i r hr
    obtain rfl := Except.ok.inj h
    refine ⟨rfl, rfl, hfits, fun x hx => ?_⟩
    have hlen := r.le_length
    dsimp only
    rw [linear_eq, show 16 * (0 : BitVec 16).toNat = 0 from rfl, Nat.zero_add,
      Mem.storeBlock_ofNat _ _ (by omega) (by omega), if_neg (by omega)]
  · obtain rfl := Except.ok.inj h
    exact ⟨rfl, rfl, hfits, fun x _ => rfl⟩

/-- In a run the count does not go back, and memory below the entries stays. -/
theorem run_spec (hs : Regular s) (h : Loop.run (round ρ) n s = some (.ok s')) :
    (start s).bp.toNat ≤ s'.bp.toNat ∧
      ∀ x < 0x1004, s'.mem (BitVec.ofNat 32 x) = s.mem (BitVec.ofNat 32 x) := by
  induction n generalizing s with
  | zero => cases h
  | succ n ih =>
    obtain ⟨-, hdi, hmem⟩ := hs.start
    rw [Loop.run, round, skipEntry] at h
    split_ifs at h with hebx
    · cases hcall : int15 ρ (start s) with
      | error e =>
        rw [hcall] at h
        cases h
      | ok t =>
        rw [hcall] at h
        obtain ⟨hbp, hdi', hfits, hbelow⟩ := int15_spec hcall
        have ht : Regular t := ⟨by rw [hdi', hdi, hbp], by rwa [hdi']⟩
        obtain ⟨hle, hsame⟩ := ih ht h
        refine ⟨?_, fun x hx => ?_⟩
        · rw [← hbp]
          exact le_trans ht.start.1 hle
        · rw [hsame x hx, hbelow x (by rw [hdi]; unfold slotAddr; omega), hmem]
    · obtain rfl := Except.ok.inj (Option.some.inj h)
      exact ⟨Nat.le_refl _, fun x _ => by rw [hmem]⟩

/-- A run that returns with the right count has found a zero in `EBX`, and no entry behind the others. -/
theorem exists_of_run (hroom : ρ.present.length ≤ 298)
    (h : Loop.run (round ρ) n (reached ρ m k) = some (.ok s)) (hbp : s.bp.toNat = ρ.present.length) :
    ∃ j, k ≤ j ∧ ρ.ebx j = 0 ∧ ∀ i, k ≤ i → i ≤ j → ρ.Quiet m i := by
  induction n generalizing k with
  | zero => cases h
  | succ n ih =>
    by_cases hq : ρ.Quiet m k
    · rw [Loop.run, round, start_reached hroom hq, skipEntry_settled hroom] at h
      by_cases hzero : ρ.ebx k = 0
      · refine ⟨k, Nat.le_refl k, hzero, fun i h1 h2 => ?_⟩
        rwa [Nat.le_antisymm h2 h1]
      · rw [if_neg hzero] at h
        obtain ⟨j, hj, hzero', hquiet⟩ := ih h
        refine ⟨j, by omega, hzero', fun i h1 h2 => ?_⟩
        obtain rfl | hlt := Nat.eq_or_lt_of_le h1
        · exact hq
        · exact hquiet i hlt h2
    · exfalso
      have hk : ρ.ranges.length ≤ k := by
        by_contra hlt
        exact hq fun hle => absurd hle hlt
      have hs := regular_reached hroom m k
      have hcount : (reached ρ m k).bp.toNat = ρ.present.length := by
        rw [reached, count_of_le hk, BitVec.toNat_ofNat, Nat.mod_eq_of_lt (by omega)]
      have hle := (run_spec hs h).1
      rw [(start_reached_of_le hroom m hk).2 hq, hs.goodEntry.1] at hle
      omega

/-! ### Reading -/

/-- Storing the number changes two bytes. -/
theorem storeCount_apply (s : Regs) (hx : x < 2 ^ 32) (hne : x ≠ 0x1000 ∧ x ≠ 0x1001) :
    storeCount s (BitVec.ofNat 32 x) = s.mem (BitVec.ofNat 32 x) := by
  unfold storeCount memmapEntryCount
  rw [Mem.store8_apply, if_neg (by bv_omega), Mem.store8_apply, if_neg (by bv_omega)]

theorem load16_storeCount (s : Regs) : (storeCount s).load16 0x1000 = s.bp := by
  have hlow : storeCount s 0x1000 = s.bp.setWidth 8 := by
    unfold storeCount memmapEntryCount
    rw [Mem.store8_apply, if_neg (by decide), Mem.store8_apply, if_pos rfl]
  have hhigh : storeCount s (0x1000 + 1) = (s.bp >>> 8).setWidth 8 := by
    unfold storeCount memmapEntryCount
    rw [Mem.store8_apply, if_pos rfl]
  apply BitVec.eq_of_toNat_eq
  rw [Mem.toNat_load16, hlow, hhigh, BitVec.toNat_setWidth, BitVec.toNat_setWidth,
    BitVec.toNat_ushiftRight, Nat.shiftRight_eq_div_pow]
  omega

/-- The number that `kmain` reads has in its upper half what was there before. -/
theorem toNat_entryCount {f : Floppy} (hs : ∀ x < 0x1004, s.mem (BitVec.ofNat 32 x) = m (BitVec.ofNat 32 x))
    (hmain : main f (storeCount s) = .ok m') :
    (m'.load32 Kernel.smapEntryCountAddress).toNat =
      s.bp.toNat + 65536 * (m.load16 (memmapEntryCount + 2)).toNat := by
  have hlow : m'.load16 0x1000 = s.bp := by
    rw [← load16_storeCount s, Mem.load16, Mem.load16]
    exact congr (congrArg _ (main_below (x := 0x1001) hmain (by decide)))
      (main_below (x := 0x1000) hmain (by decide))
  have hbyte : ∀ x < 0x1004, 0x1002 ≤ x → m' (BitVec.ofNat 32 x) = m (BitVec.ofNat 32 x) := by
    intro x hx hx'
    rw [main_below hmain (by omega), storeCount_apply s (by omega) (by omega), hs x hx]
  have hhigh : m'.load16 (0x1000 + 2) = m.load16 (memmapEntryCount + 2) := by
    rw [Mem.load16, Mem.load16]
    exact congr (congrArg _ (hbyte 0x1003 (by decide) (by decide)))
      (hbyte 0x1002 (by decide) (by decide))
  rw [Mem.toNat_load32, Kernel.smapEntryCountAddress, hlow, hhigh]

theorem smapEntries_eq (m : Mem) :
    smapEntries m = (List.range (m.load32 Kernel.smapEntryCountAddress).toNat).map fun i =>
      loadEntry m (BitVec.ofNat 32 (slotAddr i)) :=
  List.map_congr_left fun i _ => congrArg _ (BitVec.ofNat_add 0x1004 (24 * i)).symm

/-- An entry ends with the byte that the first table on the floppy has at its third place. -/
theorem entry_under_table {f : Floppy} (hm' : ∀ o < 1024, m' (BitVec.ofNat 32 (0x2C00 + o)) = f.fat o) :
    (m'.load32 (BitVec.ofNat 32 (slotAddr 298) + 12)).extractLsb' 24 8 = f.fat 3 := by
  rw [← hm' 3 (by decide)]
  exact Mem.extractLsb'_load32 m' _ (i := 3) (by decide)

/-- What two floppies leave under their tables is not the same, so a map that `kmain` reads whatever is on
the floppy is not longer. -/
theorem room_of_read (h : ∀ f m, main f (storeCount s) = .ok m →
    smapEntries m = ρ.present.map Range.entry) : ρ.present.length ≤ 298 := by
  by_contra hlong
  have hentry : ∀ c, c = 2 ∨ c = 4 → ∃ m', some (loadEntry m' (BitVec.ofNat 32 (slotAddr 298))) =
      (ρ.present.map Range.entry)[298]? ∧
      (m'.load32 (BitVec.ofNat 32 (slotAddr 298) + 12)).extractLsb' 24 8 =
        (oneClusterFloppy c).fat 3 := by
    intro c hc
    obtain ⟨m', hmain, htable⟩ := main_oneClusterFloppy hc (storeCount s)
    refine ⟨m', ?_, entry_under_table htable⟩
    have hread := h _ _ hmain
    have hlen := congrArg List.length hread
    rw [smapEntries_eq, List.length_map, List.length_map, List.length_range] at hlen
    rw [← hread, smapEntries_eq, List.getElem?_map, List.getElem?_range (by omega)]
    rfl
  obtain ⟨m₂, h₂, hb₂⟩ := hentry 2 (Or.inl rfl)
  obtain ⟨m₄, h₄, hb₄⟩ := hentry 4 (Or.inr rfl)
  have hsize := congrArg SMAPEntry.size (Option.some.inj (h₂.trans h₄.symm))
  have hhalf : m₂.load32 (BitVec.ofNat 32 (slotAddr 298) + 12) =
      m₄.load32 (BitVec.ofNat 32 (slotAddr 298) + 12) := by
    have h32 := congrArg (BitVec.extractLsb' 32 32) hsize
    simpa only [loadEntry, BitVec.extractLsb'_append_eq_left] using h32
  rw [hhalf, hb₄] at hb₂
  exact absurd hb₂ (by decide)

/-- The entries are stored, and `kmain` reads them. -/
theorem collected_of_holds (hroom : ρ.present.length ≤ 298) (hupper : m.load16 (memmapEntryCount + 2) = 0)
    (hbp : s.bp.toNat = ρ.present.length)
    (hbelow : ∀ x < 0x1004, s.mem (BitVec.ofNat 32 x) = m (BitVec.ofNat 32 x))
    (hholds : ∀ i r, ρ.present[i]? = some r → Holds s.mem i r) : Collected ρ s where
  count := hbp
  stored := hholds
  read f m' hmain := by
    have hcount := toNat_entryCount hbelow hmain
    rw [hupper, hbp, show (0 : BitVec 16).toNat = 0 from rfl, Nat.mul_zero, Nat.add_zero] at hcount
    rw [smapEntries_eq, hcount]
    refine List.ext_getElem (by simp) fun i hi hi' => ?_
    rw [List.length_map] at hi'
    rw [List.getElem_map, List.getElem_map, List.getElem_range,
      ← (hholds i _ (List.getElem?_eq_getElem hi')).loadEntry_eq]
    apply loadEntry_eq_of
    intro j hj
    rw [main_below hmain (by unfold slotAddr; omega), storeCount_apply s] <;> unfold slotAddr <;> omega

/-- When the upper half is zero, the number that `kmain` reads is the right one. -/
theorem upper_of_collected (hbelow : ∀ x < 0x1004, s.mem (BitVec.ofNat 32 x) = m (BitVec.ofNat 32 x))
    (h : Collected ρ s) : m.load16 (memmapEntryCount + 2) = 0 := by
  obtain ⟨m', hmain, -⟩ := main_oneClusterFloppy (Or.inl rfl) (storeCount s)
  have hlen := congrArg List.length (h.read _ _ hmain)
  rw [smapEntries_eq, List.length_map, List.length_map, List.length_range,
    toNat_entryCount hbelow hmain, h.count] at hlen
  bv_omega

/-- What the loop leaves, for the entries and for memory below them. -/
theorem collected_settled (hroom : ρ.present.length ≤ 298) (hk : ρ.ranges.length ≤ k + 1)
    (hupper : m.load16 (memmapEntryCount + 2) = 0) (b : Bool) :
    Collected ρ { settled ρ m k with carry := b } := by
  refine collected_of_holds hroom hupper ?_ (fun x hx => memAfter_below hroom (k + 1) hx)
    fun i r hr => holds_memAfter hroom hk hr
  rw [settled, count_of_le hk]
  exact Nat.mod_eq_of_lt (by omega)

/-- Under the condition the memory map is collected. -/
theorem collects_of_collectCond (h : CollectCond ρ m) : Collects ρ m := by
  obtain ⟨hupper, hroom, hsingle, hends⟩ := h
  by_cases hzero : ρ.ebx 0 = 0
  · refine ⟨0, { reached ρ m 0 with carry := true }, ?_, ?_⟩
    · rw [getMemoryMap_eq hroom, if_pos hzero]
    · exact collected_of_holds hroom hupper (by rw [hsingle hzero]; rfl)
        (fun x hx => memAfter_below hroom 1 hx) fun i r hr => by
          rw [hsingle hzero] at hr
          cases hr
  · -- the first call that sets `EBX` to zero
    obtain ⟨n, hn, hquiet, hmin⟩ : ∃ n, ρ.ebx n = 0 ∧ (∀ k ≤ n, ρ.Quiet m k) ∧
        ∀ i < n, ρ.ebx i ≠ 0 := by
      obtain ⟨j, hj, hq⟩ := hends
      have hex : ∃ j, ρ.ebx j = 0 := ⟨j, hj⟩
      exact ⟨Nat.find hex, Nat.find_spec hex,
        fun k hk hle => hq k hle (le_trans hk (Nat.find_min' hex hj)), fun i hi => Nat.find_min hex hi⟩
    have hlast : ρ.ranges.length ≤ n + 1 := by
      by_contra hlt
      exact ρ.ebx_ne_zero n (by omega) hn
    refine ⟨n + 1, _, ?_, collected_settled hroom hlast hupper false⟩
    rw [getMemoryMap_eq hroom, if_neg hzero]
    have hrun := run_reached (k := 0) (n := n) (m := m) hroom (by rwa [Nat.zero_add])
      (fun i hi => by rw [Nat.zero_add]; exact hmin i hi)
      (fun i hi => by rw [Nat.zero_add]; exact hquiet i hi)
    rwa [Nat.zero_add] at hrun

/-- **When the memory map is collected**: for every answer of the BIOS, exactly under `CollectCond`. -/
theorem collects_iff (ρ : Report) (m : Mem) : Collects ρ m ↔ CollectCond ρ m := by
  have hpos : 0 < ρ.ranges.length := List.length_pos_of_ne_nil ρ.ranges_ne_nil
  constructor
  · rintro ⟨n, s, hrun, hcol⟩
    have hroom := room_of_read hcol.read
    rw [getMemoryMap_eq hroom] at hrun
    split_ifs at hrun with hzero
    · -- the list is said to be one entry long
      obtain rfl := Except.ok.inj (Option.some.inj hrun)
      have hempty : ρ.present = [] := List.eq_nil_of_length_eq_zero hcol.count.symm
      exact ⟨upper_of_collected (fun x hx => memAfter_below hroom 1 hx) hcol, hroom, fun _ => hempty,
        0, hzero, fun k hk hk0 => by omega⟩
    · have hs := regular_reached hroom m 0
      have hbelow : ∀ x < 0x1004, s.mem (BitVec.ofNat 32 x) = m (BitVec.ofNat 32 x) := by
        intro x hx
        rw [(run_spec hs hrun).2 x hx]
        exact memAfter_below hroom 1 hx
      obtain ⟨j, -, hj, hquiet⟩ := exists_of_run hroom hrun hcol.count
      exact ⟨upper_of_collected hbelow hcol, hroom, fun h => absurd h hzero, j, hj,
        fun k hk hkj => hquiet k (Nat.zero_le k) hkj hk⟩
  · exact collects_of_collectCond

/-- One MiB of memory, at an address below 16 MiB. -/
def megabyte (base : BitVec 8) : Range where
  bytes j := if j = 2 then base else if j = 10 then 0x10 else if j = 16 then 1 else 0
  extended := false

/-- Two entries, and what `EBX` is from the second one on: zero, or the map ends by carry. -/
def twoMegabytes (last : BitVec 32) : Report where
  ranges := [megabyte 0x00, megabyte 0x10]
  ranges_ne_nil := by decide
  ebx k := if k = 0 then 1 else last
  ebx_ne_zero k hk := by
    have hlt : k + 1 < 2 := hk
    rw [if_pos (by omega)]
    decide
  eax _ := 0
  ecx _ := 0

/-- The loop does not see the carry flag and goes on. -/
theorem not_collects : ¬Collects (twoMegabytes 2) fun _ => 0 := by
  rintro ⟨n, s, hrun, hcol⟩
  rw [getMemoryMap_eq (show (twoMegabytes 2).present.length ≤ 298 by decide),
    if_neg (show (twoMegabytes 2).ebx 0 ≠ 0 by decide)] at hrun
  obtain ⟨j, -, hj, -⟩ := exists_of_run (by decide) hrun hcol.count
  change (if j = 0 then (1 : BitVec 32) else 2) = 0 at hj
  split_ifs at hj <;> exact absurd hj (by decide)

end FanOS.Boot
