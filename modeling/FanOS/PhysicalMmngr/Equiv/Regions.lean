import FanOS.LastWrite.Basic
import FanOS.PhysicalMmngr.Equiv.Ownership

/-!
# The last region call wins

After `pmmngr_init` and any sequence of region calls, whether a block is free is decided by the last
call whose region contains it (`free_iff_lastCall`).  Regions may overlap and be repeated.  Block 0 is
the exception: `pmmngr_init_region` marks it again after every region.
-/

namespace FanOS.Pmmngr

open LastWrite

variable {b : ℕ} {calls : List RegionCall}

namespace RegionCall

/-- The blocks that a call visits. -/
def blocks : RegionCall → Finset ℕ
  | init base size => regionBlocks base size
  | deinit base size => regionBlocks base size

/-- What a call gives the bits of its blocks. -/
def bit : RegionCall → Bool
  | init _ _ => false
  | deinit _ _ => true

/-- One call. -/
theorem marked_run (c : RegionCall) (s : Pmmngr) (hb : b < 2 ^ 35) (h0 : b ≠ 0) :
    (c.run s).marked b = if b ∈ c.blocks then c.bit else s.marked b := by
  cases c with
  | init base size =>
    rw [run, marked_pmmngrInitRegion _ _ _ hb, if_neg h0]
    rfl
  | deinit base size =>
    rw [run, marked_pmmngrDeinitRegion _ _ _ hb]
    rfl

end RegionCall

/-- The last of the calls whose region contains block `b`. -/
def lastCall (calls : List RegionCall) (b : ℕ) : Option RegionCall :=
  calls.reverse.find? fun c => b ∈ c.blocks

/-- The bit that a call gives block `b`, if it visits the block. -/
def RegionCall.bitAt (b : ℕ) (c : RegionCall) : Option Bool :=
  (Option.guard (b ∈ blocks ·) c).map bit

theorem lastWrite_bitAt (calls : List RegionCall) :
    lastWrite (RegionCall.bitAt b) calls = (lastCall calls b).map RegionCall.bit := by
  rw [lastWrite, lastCall, List.find?_eq_findSome?_guard, List.map_findSome?]
  rfl

/-- Any sequence of calls. -/
theorem marked_foldl_run (calls : List RegionCall) (s : Pmmngr) (hb : b < 2 ^ 35) (h0 : b ≠ 0) :
    (calls.foldl RegionCall.run s).marked b =
      match lastCall calls b with
      | some c => c.bit
      | none => s.marked b := by
  have hwrite : ∀ (s : Pmmngr) (c : RegionCall), (c.run s).marked b = (c.bitAt b).getD (s.marked b) := by
    intro s c
    rw [c.marked_run s hb h0, RegionCall.bitAt, Option.guard]
    by_cases h : b ∈ c.blocks
    · rw [if_pos h, if_pos (decide_eq_true h)]
      rfl
    · rw [if_neg h, if_neg (by simpa using h)]
      rfl
  rw [read_foldl (·.marked b) RegionCall.run hwrite, lastWrite_bitAt]
  cases lastCall calls b <;> rfl

/-- **The last call wins**: a block whose bit `pmmngr_init` has written is free if and only if it is
not block 0 and the last call whose region contains it is `pmmngr_init_region`. -/
theorem free_iff_lastCall (mem : Mem) (addr : PhysicalAddr) (size : BitVec 32)
    (calls : List RegionCall) (b : ℕ)
    (hb : b < 8 * ((setUp mem addr size calls).maxBlocks.toNat / 8)) :
    (setUp mem addr size calls).marked b = false ↔
      b ≠ 0 ∧ ∃ base len, lastCall calls b = some (.init base len) := by
  have hmax := (setUp mem addr size calls).maxBlocks_lt
  rw [maxBlocks_setUp] at hb hmax
  have hinit : (pmmngrInit mem addr size).marked b = true := by
    rw [marked_pmmngrInit _ _ _ (by omega), if_pos hb]
  by_cases h0 : b = 0
  · -- block 0 has been marked since `pmmngr_init`, whatever the last call was
    subst h0
    have hzero : (setUp mem addr size calls).marked 0 = true := marked_zero_foldl_run calls hinit
    simp [hzero]
  rw [setUp, marked_foldl_run calls _ (by omega) h0, hinit]
  cases hlast : lastCall calls b with
  | none => simp
  | some c =>
    cases c with
    | init base len => simp [RegionCall.bit, h0]
    | deinit base len => simp [RegionCall.bit]

/-- Block 5 is freed, reserved and freed again. -/
theorem free_iff_lastCall_three_calls :
    (setUp (fun _ => 0) 0x30000 0x40000 [.init 0 0x10000, .deinit 0x4000 0x2000, .init 0x5000 0x1000]).marked
      5 = false := by
  refine (free_iff_lastCall _ _ _ _ 5 ?_).mpr ⟨by decide, 0x5000, 0x1000, rfl⟩
  rw [maxBlocks_setUp]
  decide

end FanOS.Pmmngr
