import FanOS.Stdio.Format
import Mathlib.Data.Nat.Notation

/-!
# What `printf` writes

As long as no more than `max` bytes have been written, no buffer is grown, and `printf` writes one piece
of the format after the other (`writes_printfLoop`).  The texts are those of the pieces, but for `%d` with the
least number and for `%s` with an empty string (`Piece.written`).
-/

namespace FanOS.Stdio

variable {a : Args} {m : Surroundings} {s s' : State} {bs bs' buf : List (BitVec 8)} {k : ℕ}

/-! ### Writing -/

namespace State

theorem puts_append : s.puts (bs ++ bs') = (s.puts bs).puts bs' := by
  induction bs generalizing s with
  | nil => rfl
  | cons b bs ih => exact ih

/-- Nothing but the buffer, `len` and the notes is changed. -/
theorem puts_frame : s.puts bs =
    { s with buffer := (s.puts bs).buffer, len := (s.puts bs).len, log := (s.puts bs).log } := by
  induction bs generalizing s with
  | nil => rfl
  | cons b bs ih => exact ih (s := s.put b)

theorem puts_max : (s.puts bs).max = s.max := by rw [puts_frame]

theorem puts_state : (s.puts bs).state = s.state := by rw [puts_frame]

theorem puts_argPtr : (s.puts bs).argPtr = s.argPtr := by rw [puts_frame]

theorem toNat_put_len {b : BitVec 8} (h : s.len.toNat + 1 < 2 ^ 32) :
    (s.put b).len.toNat = s.len.toNat + 1 := by
  have hone : (1 : BitVec 32).toNat = 1 := rfl
  rw [put, BitVec.toNat_add, hone]
  omega

/-- `arg_ptr` moves on by so many words. -/
def skip (n : ℕ) (s : State) : State := { s with argPtr := s.argPtr + n }

/-- The parser goes to another state. -/
def enter (q : ParserState) (s : State) : State := { s with state := q }

theorem enter_self {q : ParserState} (h : s.state = q) : s.enter q = s := by
  subst h
  rfl

/-- Writing does not look at the arguments, and neither at the parser. -/
theorem puts_skip (n : ℕ) : (s.skip n).puts bs = (s.puts bs).skip n := by
  induction bs generalizing s with
  | nil => rfl
  | cons b bs ih => exact ih (s := s.put b)

theorem puts_enter (q : ParserState) : (s.enter q).puts bs = (s.puts bs).enter q := by
  induction bs generalizing s with
  | nil => rfl
  | cons b bs ih => exact ih (s := s.put b)

theorem puts_len : (s.puts bs).len = s.len + BitVec.ofNat 32 bs.length := by
  induction bs generalizing s with
  | nil => exact (BitVec.add_zero _).symm
  | cons b bs ih =>
    rw [puts, ih, List.length_cons, Nat.add_comm, BitVec.ofNat_add, ← BitVec.add_assoc]
    rfl

theorem toNat_puts_len (h : s.len.toNat + bs.length < 2 ^ 32) :
    (s.puts bs).len.toNat = s.len.toNat + bs.length := by
  rw [puts_len, BitVec.toNat_add, BitVec.toNat_ofNat]
  omega

theorem skip_skip (n j : ℕ) : (s.skip n).skip j = s.skip (n + j) := by
  rw [skip, skip, skip, Nat.add_assoc]

theorem argPtr_skip_puts (n : ℕ) : ((s.puts bs).skip n).argPtr = s.argPtr + n :=
  congrArg (· + n) puts_argPtr

theorem log_subset_put {b : BitVec 8} : s.log ⊆ (s.put b).log := List.subset_append_left _ _

theorem log_subset_puts : s.log ⊆ (s.puts bs).log := by
  induction bs generalizing s with
  | nil => exact List.Subset.refl _
  | cons b bs ih => exact List.Subset.trans log_subset_put ih

/-- `buf` is written from its end on. -/
theorem flush_eq (buf : List (BitVec 8)) (i : ℕ) (hi : i ≤ buf.length) :
    s.flush buf i = s.puts (buf.take i).reverse := by
  induction i generalizing s with
  | zero => rfl
  | succ i ih =>
    rw [flush, ih (by omega), List.take_succ_eq_append_getElem (by omega), List.reverse_append,
      List.reverse_singleton, List.singleton_append, puts, List.getD_eq_getElem _ _ (by omega)]

theorem flush_length (buf : List (BitVec 8)) : s.flush buf buf.length = s.puts buf.reverse := by
  rw [flush_eq buf _ le_rfl, List.take_length]

end State

/-! ### Numbers -/

theorem digitChar_ne_zero {d : ℕ} (h : d < 16) : digitChar d ≠ 0 := by
  revert d
  decide

theorem ne_zero_of_mem_digits {b n : ℕ} (hb : 1 < b) (hle : b ≤ 16) {c : BitVec 8}
    (hc : c ∈ (Numeral.digits b n).map digitChar) : c ≠ 0 := by
  obtain ⟨d, hd, rfl⟩ := List.mem_map.mp hc
  exact digitChar_ne_zero ((Numeral.lt_of_mem_digits hb hd).trans_le hle)

theorem getD_hexDigits {d : ℕ} (h : d < 16) : hexDigits.getD d 0 = digitChar d := by
  revert d
  decide

theorem getD_decDigits {d : ℕ} (h : d < 10) : decDigits.getD d 0 = digitChar d := by
  revert d
  decide

/-- The loop of `printf_hex` makes the digits, the last one first. -/
theorem hexLoop_eq {n : BitVec 32} (hk : n.toNat < k) :
    hexLoop k n buf = some (buf ++ ((Numeral.digits 16 n.toNat).map digitChar).reverse) := by
  have hdiv : ∀ n : BitVec 32, (n / 16).toNat = n.toNat / 16 := fun n => BitVec.toNat_udiv
  have hmod : ∀ n : BitVec 32, (n % 16).toNat = n.toNat % 16 := fun n => BitVec.toNat_umod
  have hpos : ∀ n : BitVec 32, 0 < n / 16 ↔ 16 ≤ n.toNat := by
    intro n
    rw [BitVec.lt_def, hdiv]
    simp [Nat.div_pos_iff]
  refine Numeral.loop_eq BitVec.toNat digitChar (fun _ => True) (by omega) ?_ ?_ trivial hk buf
  · intro k n buf _ hle
    refine ⟨n / 16, trivial, hdiv n, ?_⟩
    rw [hexLoop, hmod, getD_hexDigits (Nat.mod_lt _ (by omega))]
    exact if_pos ((hpos n).mpr hle)
  · intro k n buf _ hlt
    rw [hexLoop, hmod, Nat.mod_eq_of_lt hlt, getD_hexDigits hlt]
    exact if_neg fun h => Nat.not_le.mpr hlt ((hpos n).mp h)

/-- `printf_hex` writes the number, with a zero before a single digit. -/
theorem printfHex_eq (num : BitVec 32) :
    printfHex num s = .ok (s.puts ((if num.toNat < 16 then [0x30] else []) ++
      (Numeral.digits 16 num.toNat).map digitChar)) := by
  rw [printfHex, hexLoop_eq num.isLt]
  simp only [List.nil_append, State.flush_length, List.reverse_reverse]
  by_cases h : num.toNat < 16
  · rw [if_pos h, if_pos (show num < 0x10 from h)]
    rfl
  · rw [if_neg h, if_neg (show ¬ num < 0x10 from h)]
    rfl

/-- A number below `2 ^ 31` is not negative. -/
theorem toInt_of_lt {n : BitVec 32} (hn : n.toNat < 2 ^ 31) : n.toInt = n.toNat :=
  BitVec.toInt_eq_toNat_of_lt (by omega)

/-- On such numbers, signed arithmetic is that of natural numbers. -/
theorem toNat_sdiv_ten {n : BitVec 32} (hn : n.toNat < 2 ^ 31) : (n.sdiv 10).toNat = n.toNat / 10 := by
  rw [BitVec.sdiv_eq, BitVec.msb_eq_false_iff_two_mul_lt.mpr (by omega)]
  exact BitVec.toNat_udiv

theorem toNat_srem_ten {n : BitVec 32} (hn : n.toNat < 2 ^ 31) : (n.srem 10).toNat = n.toNat % 10 := by
  rw [BitVec.srem_eq, BitVec.msb_eq_false_iff_two_mul_lt.mpr (by omega)]
  exact BitVec.toNat_umod

theorem zero_slt_iff {n : BitVec 32} (hn : n.toNat < 2 ^ 31) :
    (0 : BitVec 32).slt n = true ↔ 0 < n.toNat := by
  rw [BitVec.slt, toInt_of_lt hn, decide_eq_true_iff, show (0 : BitVec 32).toInt = 0 from rfl]
  omega

/-- The loop of `printf_int` does so for a number that is not negative. -/
theorem intLoop_eq {n : BitVec 32} (hn : n.toNat < 2 ^ 31) (hk : n.toNat < k) :
    intLoop m k n buf = some (buf ++ ((Numeral.digits 10 n.toNat).map digitChar).reverse) := by
  have hdigit : ∀ n : BitVec 32, n.toNat < 2 ^ 31 →
      intDigit m (n.srem 10) = digitChar (n.toNat % 10) := by
    intro n hn
    have hmod := toNat_srem_ten hn
    have hnonneg : (n.srem 10).slt 0 = false := by
      rw [BitVec.slt, toInt_of_lt (by omega)]
      simp
    rw [intDigit, hnonneg, hmod, getD_decDigits (Nat.mod_lt _ (by omega))]
    rfl
  have hpos : ∀ n : BitVec 32, n.toNat < 2 ^ 31 →
      ((0 : BitVec 32).slt (n.sdiv 10) = true ↔ 10 ≤ n.toNat) := by
    intro n hn
    have hdiv := toNat_sdiv_ten hn
    rw [zero_slt_iff (by omega)]
    omega
  refine Numeral.loop_eq BitVec.toNat digitChar (fun n => n.toNat < 2 ^ 31) (by omega) ?_ ?_ hn hk buf
  · intro k n buf hn hle
    have hdiv := toNat_sdiv_ten hn
    refine ⟨n.sdiv 10, hdiv.trans_lt (by omega), hdiv, ?_⟩
    rw [intLoop, hdigit n hn]
    exact if_pos ((hpos n hn).mpr hle)
  · intro k n buf hn hlt
    rw [intLoop, hdigit n hn, Nat.mod_eq_of_lt hlt]
    exact if_neg fun h => Nat.not_le.mpr hlt ((hpos n hn).mp h)

theorem slt_zero (num : BitVec 32) : num.slt 0 = decide (num.toInt < 0) := rfl

/-- The number without its sign. -/
theorem toNat_abs (num : BitVec 32) :
    (if num.slt 0 then -num else num).toNat = num.toInt.natAbs := by
  have hlt := num.isLt
  have hint := BitVec.toInt_eq_toNat_cond num
  rw [slt_zero]
  by_cases hneg : num.toInt < 0
  · rw [decide_eq_true hneg, if_pos rfl, BitVec.toNat_neg]
    split_ifs at hint <;> omega
  · rw [decide_eq_false hneg, if_neg Bool.false_ne_true]
    split_ifs at hint <;> omega

theorem natAbs_lt {num : BitVec 32} (h : num ≠ 0x80000000) : num.toInt.natAbs < 2 ^ 31 := by
  have hne : num.toNat ≠ 2 ^ 31 := fun hnum => h (BitVec.eq_of_toNat_eq hnum)
  have hint := BitVec.toInt_eq_toNat_cond num
  split_ifs at hint <;> omega

/-- What the loop of `printf_int` makes of a number that is not the least one. -/
theorem intLoop_abs {num : BitVec 32} (h : num ≠ 0x80000000) :
    intLoop m (2 ^ 32) (if num.slt 0 then -num else num) [] =
      some ((Numeral.digits 10 num.toInt.natAbs).map digitChar).reverse := by
  have habs := toNat_abs num
  have hlt := natAbs_lt h
  rw [intLoop_eq (by omega) (by omega), habs, List.nil_append]

/-! ### Pieces -/

/-- What `printf` writes for a piece. -/
def Piece.written (a : Args) (m : Surroundings) (w : BitVec 32) : Piece → List (BitVec 8)
  | int => if w = 0x80000000 then [minus, m.beforeDigits 8] else decimal w.toInt
  | str => if (a.string w).bytes = [] then null else (a.string w).bytes
  | p => p.text a.string w

/-- That is its text, if its argument is regular. -/
theorem Piece.Regular.written_eq {p : Piece} {w : BitVec 32} (h : p.Regular a.string w) :
    p.written a m w = p.text a.string w := by
  cases p with
  | int =>
    refine if_neg fun hw => h ?_
    rw [hw]
    rfl
  | str => exact if_neg h
  | char b => rfl
  | hex => rfl
  | chr => rfl

/-- `printf_int` writes the number, with a minus sign if it is negative. -/
theorem printfInt_eq (num : BitVec 32) :
    printfInt m num s = .ok (s.puts (Piece.int.written a m num)) := by
  by_cases hmin : num = 0x80000000
  · -- the number stays negative: a byte before the digits is read, and there is no other round
    subst hmin
    rw [Piece.written, if_pos rfl]
    rfl
  · rw [Piece.written, if_neg hmin, printfInt, intLoop_abs hmin, slt_zero, decimal]
    by_cases hneg : num.toInt < 0
    · simp only [hneg, decide_true, if_true, State.flush_length, List.reverse_append,
        List.reverse_reverse, List.reverse_singleton]
    · simp only [hneg, decide_false, Bool.false_eq_true, if_false, State.flush_length,
        List.reverse_reverse, List.nil_append]

/-- What `printf` writes for the pieces, from argument `k` on. -/
def Args.written (a : Args) (m : Surroundings) (ps : List Piece) (k : ℕ) : List (BitVec 8) :=
  (a.assign ps k).flatMap fun x => x.1.written a m x.2

theorem Args.written_append {ps qs : List Piece} :
    a.written m (ps ++ qs) k = a.written m ps k ++ a.written m qs (k + argCount ps) := by
  rw [written, assign_append, List.flatMap_append]
  rfl

theorem Args.written_singleton {p : Piece} : a.written m [p] k = p.written a m (a.word k) := by
  rw [written, assign, List.flatMap_cons]
  exact List.append_nil _

/-! ### The loop over the format -/

/-- **A directive** writes its pieces, and takes their arguments. -/
theorem directive_eq (c : BitVec 8) :
    directive a m c s = .ok ((s.puts (a.written m (Piece.behind c) s.argPtr)).skip
      (argCount (Piece.behind c))) := by
  unfold directive Piece.behind
  split_ifs with hd hx hs hc hp
  · rw [printfInt_eq (a := a), Args.written_singleton]
    rfl
  · have htext : Piece.hex.written a m (a.word s.argPtr) = hexadecimal (a.word s.argPtr).toNat := rfl
    rw [printfHex_eq, Args.written_singleton, htext, hexadecimal, List.append_assoc]
    rfl
  · rw [Args.written_singleton, Piece.written]
    exact congrArg Except.ok (State.puts_skip 1)
  · rw [Args.written_singleton]
    rfl
  · rw [hp, Args.written_singleton]
    rfl
  · rfl

/-- Nothing has been written behind the buffer. -/
def State.Fits (s : State) : Prop := s.len.toNat ≤ s.max.toNat

/-- Then it is not grown. -/
theorem growLoop_of_fits (h : s.Fits) : growLoop m (2 ^ 32) s = .ok s := by
  change growLoop m ((2 ^ 32 - 1) + 1) s = .ok s
  rw [growLoop, if_neg (show ¬ s.max < s.len from Nat.not_lt.mpr h)]

/-- A character is written, -/
theorem step_text (h : s.Fits) (hs : s.state = .text) {c : BitVec 8} (hc : c ≠ percent) :
    step a m c s = .ok (s.put c) := by
  rw [step, growLoop_of_fits h]
  change character a m c s = _
  rw [character, hs]
  exact if_neg hc

/-- a percent sign is not, -/
theorem step_percent (h : s.Fits) (hs : s.state = .text) :
    step a m percent s = .ok (s.enter .percent) := by
  rw [step, growLoop_of_fits h]
  change character a m percent s = _
  rw [character, hs]
  exact if_pos rfl

/-- and the character behind it is a directive. -/
theorem step_directive (h : s.Fits) (hs : s.state = .text) (c : BitVec 8) :
    step a m c (s.enter .percent) = .ok ((s.puts (a.written m (Piece.behind c) s.argPtr)).skip
      (argCount (Piece.behind c))) := by
  have henter : (s.enter .percent).Fits := h
  rw [step, growLoop_of_fits henter]
  change (directive a m c (s.enter .percent)).map (State.enter .text) = _
  rw [directive_eq, State.puts_enter]
  exact congrArg (fun t => Except.ok (State.skip _ t)) (State.enter_self (State.puts_state.trans hs))

/-- The access stays inside of the buffer, and a larger buffer has all bytes of the smaller one. -/
def Access.Ok : Access → Prop
  | write index capacity => index.toNat < capacity.toNat
  | grow len write_buffer temp_buffer => ∀ i < len.toNat, temp_buffer i = write_buffer i

/-- Writing too much writes behind the buffer. -/
theorem exists_not_ok_puts (h : s.Fits) (hlt : s.max.toNat < s.len.toNat + bs.length) :
    ∃ x ∈ (s.puts bs).log, ¬ x.Ok := by
  induction bs generalizing s with
  | nil => exact absurd hlt (Nat.not_lt.mpr h)
  | cons b bs ih =>
    by_cases hroom : s.len.toNat < s.max.toNat
    · have hmax := s.max.isLt
      have hlen : (s.put b).len.toNat = s.len.toNat + 1 := State.toNat_put_len (by omega)
      rw [List.length_cons] at hlt
      refine ih (s := s.put b) (hlen.trans_le hroom) ?_
      rw [hlen]
      exact Nat.lt_of_lt_of_le hlt (by omega)
    · have hwrite : Access.write s.len s.max ∈ (s.put b).log :=
        List.mem_append_right _ (List.mem_singleton.mpr rfl)
      exact ⟨_, State.log_subset_puts (s := s.put b) hwrite, hroom⟩

/-- What has been noted is kept. -/
theorem log_subset_bind {r : Run} {f : State → Run} (hr : s.log ⊆ r.state.log)
    (hf : ∀ s', s'.log ⊆ (f s').state.log) : s.log ⊆ (Run.state (r >>= f)).log := by
  cases r with
  | error s' => exact hr
  | ok s' => exact List.Subset.trans hr (hf s')

theorem log_subset_growLoop : s.log ⊆ (growLoop m k s).state.log := by
  induction k generalizing s with
  | zero => exact List.Subset.refl _
  | succ k ih =>
    rw [growLoop]
    split_ifs with h
    · dsimp only
      cases hcopy : Strings.strcpy (cleared (m.fresh s.mallocs) (s.max * 2)) s.buffer with
      | none => exact List.Subset.refl _
      | some temp =>
        refine List.Subset.trans ?_ ih
        exact List.subset_append_left _ _
    · exact List.Subset.refl _

theorem log_subset_character (c : BitVec 8) (s : State) :
    s.log ⊆ (character a m c s).state.log := by
  unfold character
  cases s.state with
  | text =>
    dsimp only
    split_ifs with hc
    · exact List.Subset.refl _
    · exact State.log_subset_put
  | percent =>
    rw [directive_eq]
    exact State.log_subset_puts

theorem log_subset_printfLoop (fmt : List (BitVec 8)) (s : State) :
    s.log ⊆ (printfLoop a m fmt s).state.log := by
  induction fmt generalizing s with
  | nil => exact List.Subset.refl _
  | cons c fmt ih =>
    have hstep : s.log ⊆ (step a m c s).state.log :=
      log_subset_bind log_subset_growLoop (log_subset_character c)
    exact log_subset_bind hstep ih

/-- The run `r` writes `w`: it goes on when this fits, and otherwise something is written behind the
buffer. -/
def Writes (s : State) (w : List (BitVec 8)) (r : Run) : Prop :=
  (s.len.toNat + w.length ≤ s.max.toNat ∧ ∃ q j, r = .ok (((s.puts w).skip j).enter q)) ∨
    (s.max.toNat < s.len.toNat + w.length ∧ ∃ x ∈ r.state.log, ¬ x.Ok)

/-- One text is written, and then the others. -/
theorem Writes.append (bs : List (BitVec 8)) (n : ℕ) (h : s.Fits) {w : List (BitVec 8)} {r : Run}
    (hlog : (s.puts bs).log ⊆ r.state.log)
    (hrest : ((s.puts bs).skip n).Fits → Writes ((s.puts bs).skip n) w r) : Writes s (bs ++ w) r := by
  have hmax := s.max.isLt
  rw [Writes, List.length_append, ← Nat.add_assoc]
  rcases Nat.lt_or_ge s.max.toNat (s.len.toNat + bs.length) with hlt | hle
  · obtain ⟨x, hx, hbad⟩ := exists_not_ok_puts h hlt
    exact Or.inr ⟨by omega, x, hlog hx, hbad⟩
  · have hlen : ((s.puts bs).skip n).len.toNat = s.len.toNat + bs.length :=
      State.toNat_puts_len (by omega)
    have hsame : ((s.puts bs).skip n).max = s.max := State.puts_max
    have hwrites := hrest (by rw [State.Fits, hlen, hsame]; exact hle)
    rw [Writes, hlen, hsame] at hwrites
    rcases hwrites with ⟨hfits, q, j, hr⟩ | hbad
    · refine Or.inl ⟨hfits, q, n + j, ?_⟩
      rw [hr, State.puts_append, State.puts_skip, State.skip_skip]
    · exact Or.inr hbad

/-- **The loop over a format** writes its pieces. -/
theorem writes_printfLoop (a : Args) (m : Surroundings) (fmt : List (BitVec 8)) (hs : s.state = .text)
    (h : s.Fits) : Writes s (a.written m (pieces fmt) s.argPtr) (printfLoop a m fmt s) := by
  fun_induction pieces fmt generalizing s with
  | case1 => exact Or.inl ⟨h, .text, 0, congrArg Except.ok (State.enter_self hs).symm⟩
  | case2 =>
    refine Or.inl ⟨h, .percent, 0, ?_⟩
    rw [printfLoop, step_percent h hs]
    rfl
  | case3 b hb =>
    have hrun : printfLoop a m [b] s = .ok (s.put b) := by
      rw [printfLoop, step_text h hs hb]
      rfl
    rw [hrun]
    refine Writes.append [b] 0 h (List.Subset.refl _) fun hfits => ?_
    exact Or.inl ⟨hfits, .text, 0, congrArg Except.ok (State.enter_self (s := s.put b) hs).symm⟩
  | case4 c fmt ih =>
    -- the percent sign and the character behind it, and then the other pieces
    have hrun : printfLoop a m (percent :: c :: fmt) s = printfLoop a m fmt
        ((s.puts (a.written m (Piece.behind c) s.argPtr)).skip (argCount (Piece.behind c))) := by
      rw [printfLoop, step_percent h hs]
      change printfLoop a m (c :: fmt) (s.enter .percent) = _
      rw [printfLoop, step_directive h hs]
      rfl
    rw [hrun, Args.written_append]
    refine Writes.append _ (argCount (Piece.behind c)) h
      (log_subset_printfLoop fmt ((s.puts _).skip _)) fun hfits => ?_
    have hrest := ih (s := (s.puts _).skip (argCount (Piece.behind c))) (State.puts_state.trans hs) hfits
    rwa [State.argPtr_skip_puts] at hrest
  | case5 b c fmt hb ih =>
    have hrun : printfLoop a m (b :: c :: fmt) s = printfLoop a m (c :: fmt) (s.put b) := by
      rw [printfLoop, step_text h hs hb]
      rfl
    rw [hrun]
    refine Writes.append [b] 0 h (log_subset_printfLoop (c :: fmt) (s.put b)) fun hfits => ?_
    exact ih hs hfits

/-! ### The call -/

/-- The buffer of 256 bytes holds the text, and its terminator goes behind it. -/
theorem printf_of_le (fmt : CString) (h : (a.written m (pieces fmt.bytes) 0).length ≤ 256) :
    ∃ s, printf a m fmt = .ok (terminate s) ∧ s.max = 256 ∧
      s.len.toNat = (a.written m (pieces fmt.bytes) 0).length ∧
      s.buffer = ((start m).puts (a.written m (pieces fmt.bytes) 0)).buffer ∧
      s.log = ((start m).puts (a.written m (pieces fmt.bytes) 0)).log := by
  have hlen : ((start m).puts (a.written m (pieces fmt.bytes) 0)).len.toNat =
      0 + (a.written m (pieces fmt.bytes) 0).length := State.toNat_puts_len (s := start m) (by
    rw [show (start m).len.toNat = 0 from rfl]
    omega)
  rcases writes_printfLoop (s := start m) a m fmt.bytes rfl (Nat.zero_le _) with
    ⟨-, q, j, hrun⟩ | ⟨hlt, -⟩
  · refine ⟨(((start m).puts (a.written m (pieces fmt.bytes) 0)).skip j).enter q, ?_, State.puts_max,
      hlen.trans (Nat.zero_add _), rfl, rfl⟩
    rw [printf, hrun]
    rfl
  · exact absurd hlt (Nat.not_lt.mpr ((Nat.zero_add _).trans_le h))

/-- A longer text is written behind it. -/
theorem exists_not_ok_printf (fmt : CString)
    (h : 256 < (a.written m (pieces fmt.bytes) 0).length) :
    ∃ x ∈ (printf a m fmt).state.log, ¬ x.Ok := by
  rcases writes_printfLoop (s := start m) a m fmt.bytes rfl (Nat.zero_le _) with
    ⟨hle, -⟩ | ⟨-, x, hx, hbad⟩
  · exact absurd h (Nat.not_lt.mpr ((Nat.zero_add _).symm.trans_le hle))
  · refine ⟨x, ?_, hbad⟩
    rw [printf]
    cases hrun : printfLoop a m fmt.bytes (start m) with
    | error s =>
      rw [hrun] at hx
      exact hx
    | ok s =>
      rw [hrun] at hx
      exact List.mem_append_left _ hx

end FanOS.Stdio
