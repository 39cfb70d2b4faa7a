import FanOS.Stdio.Equiv.Writes

/-!
# The buffers of `printf`

The buffer has 256 bytes, and it is grown before a character of the format once more than `max` bytes have
been written: then they are behind the buffer already.  A text of 256 bytes has its terminator there.  So
`printf` stays in its buffer if and only if the text has at most 255 bytes (`printf_inBounds_iff`).  The
16 bytes that `printf_hex` and `printf_int` have for their digits are enough (`digits_fit`).
-/

namespace FanOS.Stdio

variable {a : Args} {m : Surroundings} {s : State} {bs : List (BitVec 8)}

/-- **The digits have room in `buf`**, and so has the minus sign. -/
theorem digits_fit (m : Surroundings) (num : BitVec 32) :
    (∃ buf, hexLoop (2 ^ 32) num [] = some buf ∧ buf.length ≤ 16) ∧
      ∃ buf, intLoop m (2 ^ 32) (if num.slt 0 then -num else num) [] = some buf ∧
        buf.length + 1 ≤ 16 := by
  constructor
  · refine ⟨_, hexLoop_eq num.isLt, ?_⟩
    have hlt : num.toNat < 16 ^ 8 := num.isLt
    have hlength := Numeral.length_digits_le (by omega) (by omega) hlt
    rw [List.nil_append, List.length_reverse, List.length_map]
    omega
  · by_cases hmin : num = 0x80000000
    · subst hmin
      exact ⟨[m.beforeDigits 8], rfl, Nat.le_of_ble_eq_true rfl⟩
    · refine ⟨_, intLoop_abs hmin, ?_⟩
      have hlt : num.toInt.natAbs < 10 ^ 10 := (natAbs_lt hmin).trans (by omega)
      have hlength := Numeral.length_digits_le (by omega) (by omega) hlt
      rw [List.length_reverse, List.length_map]
      omega

/-- The indices with which the loop of `printf_int` looks into `digits`. -/
def intIndices : ℕ → BitVec 32 → List (BitVec 32)
  | 0, _ => []
  | k + 1, n =>
    n.srem 10 :: if (0 : BitVec 32).slt (n.sdiv 10) then intIndices k (n.sdiv 10) else []

/-- **The indices into `digits`** are those of digits. -/
theorem intIndices_inRange {k : ℕ} {n : BitVec 32} (hn : n.toNat < 2 ^ 31) :
    ∀ r ∈ intIndices k n, 0 ≤ r.toInt ∧ r.toInt < 10 := by
  intro r hr
  induction k generalizing n with
  | zero => exact absurd hr List.not_mem_nil
  | succ k ih =>
    rw [intIndices] at hr
    have hmod := toNat_srem_ten hn
    have hdiv := toNat_sdiv_ten hn
    rcases List.mem_cons.mp hr with rfl | hr
    · rw [toInt_of_lt (by omega), hmod]
      omega
    · split_ifs at hr with hgo
      · exact ih (by omega) hr
      · exact absurd hr List.not_mem_nil

/-- All accesses of a call stay inside of the buffers, and the bytes are kept. -/
def InBounds (a : Args) (m : Surroundings) (fmt : CString) : Prop :=
  ∀ x ∈ (printf a m fmt).state.log, x.Ok

/-- The number of bytes of the text of a piece.  The least number is printed as two characters, and the
empty string as `"(null)"`. -/
def Piece.size (string : BitVec 32 → CString) (w : BitVec 32) : Piece → ℕ
  | int => if w.toInt = -2 ^ 31 then 2 else (decimal w.toInt).length
  | str => if (string w).bytes = [] then 6 else (string w).bytes.length
  | p => (p.text string w).length

/-- The number of bytes of the text of a format. -/
def Args.size (a : Args) (fmt : CString) : ℕ :=
  ((a.assign (pieces fmt.bytes) 0).map fun x => x.1.size a.string x.2).sum

theorem Piece.length_written (p : Piece) (w : BitVec 32) :
    (p.written a m w).length = p.size a.string w := by
  cases p with
  | int =>
    have hmin : w = 0x80000000 ↔ w.toInt = -2 ^ 31 :=
      ⟨fun h => by rw [h]; rfl, fun h => BitVec.eq_of_toInt_eq h⟩
    rw [written, size, apply_ite List.length]
    exact if_congr hmin rfl rfl
  | str =>
    rw [written, size, apply_ite List.length]
    rfl
  | char b => rfl
  | hex => rfl
  | chr => rfl

theorem Args.length_written (fmt : CString) :
    (a.written m (pieces fmt.bytes) 0).length = a.size fmt := by
  rw [written, size, List.length_flatMap]
  simp only [Piece.length_written]

/-- What fits is written to the buffer. -/
theorem ok_puts (hlog : ∀ x ∈ s.log, x.Ok) (h : s.len.toNat + bs.length ≤ s.max.toNat) :
    ∀ x ∈ (s.puts bs).log, x.Ok := by
  induction bs generalizing s with
  | nil => exact hlog
  | cons b bs ih =>
    have hmax := s.max.isLt
    rw [List.length_cons] at h
    have hlen : (s.put b).len.toNat = s.len.toNat + 1 :=
      State.toNat_put_len (by omega)
    refine ih (s := s.put b) (fun x hx => ?_) ?_
    · rcases List.mem_append.mp hx with hold | hnew
      · exact hlog x hold
      · rw [List.mem_singleton.mp hnew]
        exact (by omega : s.len.toNat < s.max.toNat)
    · rw [hlen]
      exact (by omega : s.len.toNat + 1 + bs.length ≤ s.max.toNat)

/-- **`printf` stays in its buffer** if and only if the text has at most 255 bytes. -/
theorem printf_inBounds_iff (a : Args) (m : Surroundings) (fmt : CString) :
    InBounds a m fmt ↔ a.size fmt ≤ 255 := by
  rw [← Args.length_written (m := m), InBounds]
  rcases Nat.lt_or_ge 256 (a.written m (pieces fmt.bytes) 0).length with hlt | hle
  · obtain ⟨x, hx, hbad⟩ := exists_not_ok_printf fmt hlt
    exact ⟨fun hall => absurd (hall x hx) hbad, fun _ => by omega⟩
  · obtain ⟨s, hrun, hmax, hlen, -, hlog⟩ := printf_of_le fmt hle
    have hrest : ∀ x ∈ s.log, x.Ok := by
      rw [hlog]
      exact ok_puts (fun x hx => absurd hx List.not_mem_nil) ((Nat.zero_add _).trans_le hle)
    -- what is left is the terminator
    have hlast : (Access.write s.len s.max).Ok ↔
        (a.written m (pieces fmt.bytes) 0).length ≤ 255 := by
      rw [Access.Ok, hlen, hmax]
      exact Nat.lt_succ_iff
    rw [hrun, ← hlast]
    constructor
    · exact fun hall => hall _ (List.mem_append_right _ (List.mem_singleton.mpr rfl))
    · intro hok x hx
      rcases List.mem_append.mp hx with hold | hnew
      · exact hrest x hold
      · rwa [List.mem_singleton.mp hnew]

/-- The format `"%s"`. -/
def stringFormat : CString := ⟨[percent, 0x73], by decide⟩

/-- Arguments that are strings of 256 letters. -/
def longArgs : Args where
  word _ := 0
  string _ := ⟨List.replicate 256 0x41, fun b hb => by
    rw [List.eq_of_mem_replicate hb]
    decide⟩

/-- The terminator of a string of 256 bytes is written behind the buffer. -/
theorem not_printf_inBounds :
    ¬ ∀ (a : Args) (m : Surroundings) (fmt : CString), InBounds a m fmt := by
  intro hall
  have hsize := (printf_inBounds_iff longArgs ⟨fun _ _ => 0, fun _ => 0⟩ stringFormat).mp
    (hall longArgs _ stringFormat)
  exact absurd hsize (by decide +kernel)

end FanOS.Stdio
