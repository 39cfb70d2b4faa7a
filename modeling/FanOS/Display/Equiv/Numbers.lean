import FanOS.Display.Numbers
import FanOS.Stdio.Equiv.Bounds

/-!
# Numbers on the console and in formats

`print_dec` and `printf_int` write the same numeral, and so do `print_hex` and `printf_hex`, but for the zero
that `printf_hex` writes before a single digit.  The loops make the digits by division or by shifts; what is
in the array after them (`CharArray.Holds`) is printed the other way round (`printReversed_eq`).

The least number has no absolute value: `print_dec` prints its sign only.
-/

namespace FanOS.Display

open Strings (Bytes)
open Stdio (digitChar decimal minus)

variable {a : CharArray} {bs : List (BitVec 8)} {b : BitVec 8} {j i : BitVec 8} {k : ℕ}

/-! ### Arrays -/

/-- The array has the characters `bs`, and only its 80 bytes have been accessed. -/
structure CharArray.Holds (a : CharArray) (bs : List (BitVec 8)) : Prop where
  toNat_i : a.i.toNat = bs.length
  bytes : ∀ x < bs.length, a.bytes x = bs.getD x 0
  accessed_lt : ∀ x ∈ a.accessed, x < 80

theorem holds_nil (stack : Bytes) : CharArray.Holds ⟨stack, 0, []⟩ [] where
  toNat_i := rfl
  bytes x hx := absurd hx (Nat.not_lt_zero x)
  accessed_lt _ hx := absurd hx List.not_mem_nil

namespace CharArray.Holds

theorem accessed_store_lt (h : a.Holds bs) (hlt : bs.length < 80) :
    ∀ x ∈ (a.store a.i b).accessed, x < 80 := by
  intro x hx
  rcases List.mem_append.mp hx with hx | hx
  · exact h.accessed_lt x hx
  · rw [List.mem_singleton.mp hx, h.toNat_i]
    exact hlt

theorem bytes_store_of_lt (h : a.Holds bs) {x : ℕ} (hx : x < bs.length) :
    (a.store a.i b).bytes x = bs.getD x 0 := by
  rw [CharArray.store, h.toNat_i]
  exact (Function.update_of_ne hx.ne _ _).trans (h.bytes x hx)

theorem bytes_store_self (h : a.Holds bs) : (a.store a.i b).bytes bs.length = b := by
  rw [CharArray.store, h.toNat_i]
  exact Function.update_self _ _ _

/-- A character is added. -/
theorem push (h : a.Holds bs) (hlt : bs.length < 80) : (a.push b).Holds (bs ++ [b]) where
  toNat_i := by
    have hi := h.toNat_i
    rw [List.length_append, List.length_singleton]
    show (a.i + 1).toNat = bs.length + 1
    bv_omega
  bytes x hx := by
    rw [List.length_append, List.length_singleton] at hx
    rcases Nat.lt_or_eq_of_le (Nat.le_of_lt_succ hx) with hlt | rfl
    · rw [List.getD_append _ _ _ _ hlt]
      exact h.bytes_store_of_lt hlt
    · rw [List.getD_append_right _ _ _ _ le_rfl, Nat.sub_self]
      exact h.bytes_store_self
  accessed_lt := h.accessed_store_lt (b := b) hlt

/-- Digits are added. -/
theorem foldl_push (h : a.Holds bs) (ds : List ℕ) (hlt : bs.length + ds.length ≤ 80) :
    (ds.foldl (fun a d => a.push (digitChar d)) a).Holds (bs ++ ds.map digitChar) := by
  induction ds generalizing a bs with
  | nil => rwa [List.foldl_nil, List.map_nil, List.append_nil]
  | cons d ds ih =>
    rw [List.length_cons] at hlt
    have hnext := ih (h.push (b := digitChar d) (by omega))
      (by rw [List.length_append, List.length_singleton]; omega)
    rwa [List.append_assoc] at hnext

end CharArray.Holds

/-- The digits of a number, from the last one on, in an array that is empty before. -/
theorem holds_digits {b n len : ℕ} (hlen : (Numeral.digits b n).length ≤ len) (hle : len ≤ 80)
    (stack : Bytes) :
    CharArray.Holds ((Numeral.digits b n).reverse.foldl (fun a d => a.push (digitChar d)) ⟨stack, 0, []⟩)
      ((Numeral.digits b n).reverse.map digitChar) ∧
    ((Numeral.digits b n).reverse.map digitChar).length ≤ len := by
  have hrev : (Numeral.digits b n).reverse.length ≤ len := by rwa [List.length_reverse]
  constructor
  · exact (holds_nil stack).foldl_push _ (by rw [List.length_nil]; omega)
  · rwa [List.length_map]

/-! ### Reversing and printing -/

/-- The bytes from `j` to `i` are reversed. -/
theorem exists_reverseLoop_eq (hk : i.toNat - j.toNat < k) (a : CharArray) :
    ∃ a', reverseLoop k j i a = some a' ∧
      (∀ x, a'.bytes x =
        if j.toNat ≤ x ∧ x ≤ i.toNat then a.bytes (j.toNat + i.toNat - x) else a.bytes x) ∧
      ∀ x ∈ a'.accessed, x ∈ a.accessed ∨ x ≤ i.toNat := by
  induction k generalizing j i a with
  | zero => omega
  | succ k ih =>
    rw [reverseLoop]
    by_cases hlt : j < i
    · have hlt' : j.toNat < i.toNat := hlt
      have hj : (j + 1).toNat = j.toNat + 1 := by bv_omega
      have hi : (i - 1).toNat = i.toNat - 1 := by bv_omega
      rw [if_pos hlt]
      obtain ⟨a', heq, hbytes, hacc⟩ := ih (j := j + 1) (i := i - 1) (by omega)
        ((a.store j (a.bytes i.toNat)).store i (a.bytes j.toNat))
      refine ⟨a', heq, fun x => ?_, fun x hx => ?_⟩
      · -- the two bytes that are swapped, those between them, and those outside
        rw [hbytes, hj, hi]
        simp only [CharArray.store]
        rcases Nat.lt_trichotomy x j.toNat with hx | rfl | hx
        · rw [if_neg (by omega), if_neg (by omega), Function.update_of_ne (by omega),
            Function.update_of_ne (by omega)]
        · rw [if_neg (by omega), if_pos (by omega), Function.update_of_ne (by omega),
            Function.update_self, Nat.add_sub_cancel_left]
        · rcases Nat.lt_trichotomy x i.toNat with hx' | rfl | hx'
          · rw [if_pos (by omega), if_pos (by omega), Function.update_of_ne (by omega),
              Function.update_of_ne (by omega)]
            congr 1
            omega
          · rw [if_neg (by omega), if_pos (by omega), Function.update_self, Nat.add_sub_cancel]
          · rw [if_neg (by omega), if_neg (by omega), Function.update_of_ne (by omega),
              Function.update_of_ne (by omega)]
      · rcases hacc x hx with hx | hx
        · rcases List.mem_append.mp hx with hx | hx
          · rcases List.mem_append.mp hx with hx | hx
            · exact .inl hx
            · rw [List.mem_singleton.mp hx]
              exact .inr hlt'.le
          · rw [List.mem_singleton.mp hx]
            exact .inr le_rfl
        · exact .inr (by omega)
    · have hge : i.toNat ≤ j.toNat := Nat.not_lt.mp hlt
      rw [if_neg hlt]
      refine ⟨a, rfl, fun x => ?_, fun x hx => .inl hx⟩
      by_cases hx : j.toNat ≤ x ∧ x ≤ i.toNat
      · rw [if_pos hx]
        congr 1
        omega
      · rw [if_neg hx]

/-- A text and its terminator are read. -/
theorem printStringLoop_eq {bytes : Bytes} {text : List (BitVec 8)} {j k : ℕ} (hk : text.length < k)
    (hbytes : ∀ x < text.length, bytes (j + x) = text.getD x 0) (hne : ∀ b ∈ text, b ≠ 0)
    (hend : bytes (j + text.length) = 0) (o : Output) :
    printStringLoop bytes k j o =
      some ⟨o.chars ++ text, o.accessed ++ List.range' j (text.length + 1)⟩ := by
  induction text generalizing j k o with
  | nil =>
    obtain ⟨k, rfl⟩ := Nat.exists_eq_add_one_of_ne_zero (Nat.ne_of_gt hk)
    rw [printStringLoop, if_neg (fun hne : bytes j ≠ 0 => hne hend), List.append_nil]
    rfl
  | cons c text ih =>
    obtain ⟨k, rfl⟩ := Nat.exists_eq_add_one_of_ne_zero (Nat.ne_of_gt (Nat.zero_lt_of_lt hk))
    rw [List.length_cons] at hk hend
    have hc : bytes j = c := hbytes 0 (Nat.zero_lt_succ _)
    have hrest : ∀ x < text.length, bytes (j + 1 + x) = text.getD x 0 := by
      intro x hx
      rw [Nat.add_assoc, Nat.add_comm 1 x, hbytes (x + 1) (Nat.succ_lt_succ hx)]
      rfl
    rw [printStringLoop, hc, if_pos (hne c List.mem_cons_self),
      ih (by omega) hrest (fun b hb => hne b (List.mem_cons_of_mem c hb))
        (by rw [← hend]; congr 1; omega), List.append_assoc, List.append_assoc, List.length_cons,
      List.range'_succ]
    rfl

/-- **The characters of the array** are printed, the last one first. -/
theorem printReversed_eq (h : a.Holds bs) (hne : bs ≠ []) (hlt : bs.length < 80)
    (hzero : ∀ b ∈ bs, b ≠ 0) :
    ∃ o, printReversed a = some o ∧ o.chars = bs.reverse ∧ ∀ x ∈ o.accessed, x < 80 := by
  have hpos : 0 < bs.length := List.length_pos_iff.mpr hne
  have hi := h.toNat_i
  have hlast : (a.i - 1).toNat = bs.length - 1 := by bv_omega
  obtain ⟨a', heq, hbytes, hacc⟩ := exists_reverseLoop_eq (j := 0) (i := a.i - 1) (k := 2 ^ 8)
    (by omega) { a.store a.i 0 with i := a.i - 1 }
  rw [hlast] at hbytes hacc
  simp only [show (0 : BitVec 8).toNat = 0 from rfl, Nat.zero_le, true_and, Nat.zero_add] at hbytes
  have htext : ∀ x < bs.reverse.length, a'.bytes (0 + x) = bs.reverse.getD x 0 := by
    intro x hx
    rw [List.length_reverse] at hx
    rw [Nat.zero_add, hbytes, if_pos (by omega), List.getD_eq_getElem _ _ (by simpa using hx),
      List.getElem_reverse]
    exact (h.bytes_store_of_lt (by omega)).trans (List.getD_eq_getElem _ _ _)
  have hend : a'.bytes (0 + bs.reverse.length) = 0 := by
    rw [Nat.zero_add, List.length_reverse, hbytes, if_neg (by omega)]
    exact h.bytes_store_self
  have hprint := printStringLoop_eq (k := 2 ^ 32) (by rw [List.length_reverse]; omega) htext
    (fun b hb => hzero b (List.mem_reverse.mp hb)) hend ⟨[], a'.accessed⟩
  refine ⟨⟨bs.reverse, a'.accessed ++ List.range' 0 (bs.reverse.length + 1)⟩, ?_, rfl, ?_⟩
  · have hrun : printReversed a = (reverseLoop (2 ^ 8) 0 (a.i - 1) { a.store a.i 0 with i := a.i - 1 }).bind
        fun a => printStringLoop a.bytes (2 ^ 32) 0 ⟨[], a.accessed⟩ := rfl
    rw [hrun, heq]
    exact hprint
  · intro x hx
    rcases List.mem_append.mp hx with hx | hx
    · rcases hacc x hx with hx | hx
      · exact h.accessed_store_lt (b := 0) hlt x hx
      · omega
    · have := List.mem_range'_1.mp hx
      rw [List.length_reverse] at this
      omega

/-! ### Digits -/

theorem getD_asciiNumbers {d : ℕ} (h : d < 16) : asciiNumbers.getD d 0 = digitChar d := by
  revert d
  decide

/-- The loop of `print_hex` writes the digits, the last one first. -/
theorem printHexLoop_eq {hex : BitVec 32} (hpos : 0 < hex.toNat) (hk : hex.toNat < k) (a : CharArray) :
    printHexLoop k hex a =
      some ((Numeral.digits 16 hex.toNat).reverse.foldl (fun a d => a.push (digitChar d)) a) := by
  have hnibble : ∀ hex : BitVec 32, asciiNumbers.getD (hex.setWidth 8 &&& 0x0F).toNat 0 =
      digitChar (hex.toNat % 16) := by
    intro hex
    have hmask : (hex.setWidth 8 &&& 0x0F).toNat = hex.toNat % 16 := by
      rw [BitVec.toNat_and, BitVec.toNat_setWidth, show (0x0F : BitVec 8).toNat = 2 ^ 4 - 1 from rfl,
        Nat.and_two_pow_sub_one_eq_mod]
      omega
    rw [hmask, getD_asciiNumbers (Nat.mod_lt _ (by omega))]
  have hshift : ∀ hex : BitVec 32, (hex >>> 4).toNat = hex.toNat / 16 := fun hex => by
    rw [BitVec.toNat_ushiftRight, Nat.shiftRight_eq_div_pow]
  refine Numeral.loop_foldl (b := 16) (F := printHexLoop) BitVec.toNat
    (fun a d => a.push (digitChar d)) (fun hex => 0 < hex.toNat) (by omega) ?_ ?_ hpos hk a
  · intro k hex a hpos hle
    refine ⟨hex >>> 4, ?_, hshift hex, ?_⟩
    · rw [hshift]
      omega
    · rw [printHexLoop, if_pos (show 0 < hex from hpos), ← hnibble]
  · intro k hex a hpos hlt
    have hzero : hex >>> 4 = 0 := BitVec.eq_of_toNat_eq ((hshift hex).trans (Nat.div_eq_of_lt hlt))
    rw [printHexLoop, if_pos (show 0 < hex from hpos)]
    show printHexLoop k (hex >>> 4) (a.push (asciiNumbers.getD (hex.setWidth 8 &&& 0x0F).toNat 0)) = _
    rw [hnibble, Nat.mod_eq_of_lt hlt, hzero]
    cases k <;> rfl

/-- So does the loop of `print_dec`, for a number that is not negative. -/
theorem printDecLoop_eq {num : BitVec 32} (hpos : 0 < num.toNat) (hnum : num.toNat < 2 ^ 31)
    (hk : num.toNat < k) (a : CharArray) :
    printDecLoop k num a =
      some ((Numeral.digits 10 num.toNat).reverse.foldl (fun a d => a.push (digitChar d)) a) := by
  have hdigit : ∀ d < 10, BitVec.ofNat 8 d + 0x30 = digitChar d := by decide
  have hchar : ∀ num : BitVec 32, num.toNat < 2 ^ 31 →
      (num.srem 10).setWidth 8 + 0x30 = digitChar (num.toNat % 10) := by
    intro num hnum
    have hcut : (num.srem 10).setWidth 8 = BitVec.ofNat 8 (num.toNat % 10) := by
      rw [← Stdio.toNat_srem_ten hnum, BitVec.ofNat_toNat]
    rw [hcut, hdigit _ (Nat.mod_lt _ (by omega))]
  refine Numeral.loop_foldl (b := 10) (F := printDecLoop) BitVec.toNat
    (fun a d => a.push (digitChar d)) (fun num => 0 < num.toNat ∧ num.toNat < 2 ^ 31) (by omega)
    ?_ ?_ ⟨hpos, hnum⟩ hk a
  · rintro k num a ⟨hpos, hnum⟩ hle
    have hdiv := Stdio.toNat_sdiv_ten hnum
    refine ⟨num.sdiv 10, ⟨by omega, by omega⟩, hdiv, ?_⟩
    rw [printDecLoop, if_pos ((Stdio.zero_slt_iff hnum).mpr hpos), hchar num hnum]
  · rintro k num a ⟨hpos, hnum⟩ hlt
    have hzero : num.sdiv 10 = 0 :=
      BitVec.eq_of_toNat_eq ((Stdio.toNat_sdiv_ten hnum).trans (Nat.div_eq_of_lt hlt))
    rw [printDecLoop, if_pos ((Stdio.zero_slt_iff hnum).mpr hpos), hchar num hnum,
      Nat.mod_eq_of_lt hlt, hzero]
    cases k <;> rfl

/-! ### Decimal numbers -/

/-- `print_dec` and `printf_int` write the number in decimal, and stay in their arrays. -/
structure WritesDecimal (num : BitVec 32) (stack : Bytes) (m : Stdio.Surroundings) (s : Stdio.State) :
    Prop where
  printed : ∃ o, printDec stack num = some o ∧ o.chars = decimal num.toInt ∧ ∀ x ∈ o.accessed, x < 80
  appended : Stdio.printfInt m num s = .ok (s.puts (decimal num.toInt))
  indices : ∀ r ∈ Stdio.intIndices (2 ^ 32) (if num.slt 0 then -num else num), 0 ≤ r.toInt ∧ r.toInt < 10
  buffer : ∃ buf, Stdio.intLoop m (2 ^ 32) (if num.slt 0 then -num else num) [] = some buf ∧
    buf.length + 1 ≤ 16

theorem digitChars_ne_zero {b n : ℕ} (hb : 1 < b) (hb' : b ≤ 16) :
    ∀ c ∈ (Numeral.digits b n).reverse.map digitChar, c ≠ 0 := by
  intro c hc
  rw [List.map_reverse, List.mem_reverse] at hc
  exact Stdio.ne_zero_of_mem_digits hb hb' hc

/-- `print_dec` of a number that is not the least one. -/
theorem printDec_eq {num : BitVec 32} (h : num ≠ 0x80000000) (stack : Bytes) :
    ∃ o, printDec stack num = some o ∧ o.chars = decimal num.toInt ∧ ∀ x ∈ o.accessed, x < 80 := by
  by_cases hzero : num = 0
  · subst hzero
    exact ⟨_, rfl, by decide, fun x hx => absurd hx List.not_mem_nil⟩
  · have habs := Stdio.toNat_abs num
    have hlt := Stdio.natAbs_lt h
    have hpos : 0 < num.toInt.natAbs := by
      exact Int.natAbs_pos.mpr fun hint => hzero (BitVec.eq_of_toInt_eq hint)
    have hlen : (Numeral.digits 10 num.toInt.natAbs).length ≤ 10 :=
      Numeral.length_digits_le (by omega) (by omega) (hlt.trans (by norm_num))
    have hloop := printDecLoop_eq (k := 2 ^ 32) (habs ▸ hpos) (habs ▸ hlt) (habs ▸ hlt.trans (by norm_num))
      ⟨stack, 0, []⟩
    rw [habs] at hloop
    obtain ⟨hholds, hsize⟩ := holds_digits hlen (by decide) stack
    have hchars := digitChars_ne_zero (b := 10) (n := num.toInt.natAbs) (by omega) (by omega)
    have hne : (Numeral.digits 10 num.toInt.natAbs).reverse.map digitChar ≠ [] := by
      simpa using Numeral.digits_ne_nil
    rw [printDec, if_neg hzero, hloop, decimal, Stdio.slt_zero]
    by_cases hneg : num.toInt < 0
    · obtain ⟨o, ho, hrev, hacc⟩ := printReversed_eq (hholds.push (b := minus) (by omega))
        (List.append_ne_nil_of_right_ne_nil _ (List.cons_ne_nil _ _))
        (by rw [List.length_append, List.length_singleton]; omega)
        (List.forall_mem_append.mpr ⟨hchars, List.forall_mem_singleton.mpr (by decide)⟩)
      refine ⟨o, ?_, ?_, hacc⟩
      · rw [decide_eq_true hneg, Option.bind_eq_bind, Option.bind_some, if_pos rfl]
        exact ho
      · rw [hrev, if_pos hneg, List.reverse_append, List.map_reverse, List.reverse_reverse]
        rfl
    · obtain ⟨o, ho, hrev, hacc⟩ := printReversed_eq hholds hne (by omega) hchars
      refine ⟨o, ?_, ?_, hacc⟩
      · rw [decide_eq_false hneg, Option.bind_eq_bind, Option.bind_some, if_neg Bool.false_ne_true]
        exact ho
      · rw [hrev, if_neg hneg, List.map_reverse, List.reverse_reverse, List.nil_append]

/-- What is printed of the least number. -/
theorem not_writesDecimal_min (stack : Bytes) (m : Stdio.Surroundings) (s : Stdio.State) :
    ¬ WritesDecimal 0x80000000 stack m s := by
  intro h
  obtain ⟨o, ho, hchars, -⟩ := h.printed
  -- it is not positive, so only the sign is in the array
  have hsign := (holds_nil stack).push (b := minus) (by decide)
  obtain ⟨o', ho', hrev, -⟩ := printReversed_eq hsign (List.cons_ne_nil _ _) (by decide) (by decide)
  have hrun : printDec stack 0x80000000 = printReversed (CharArray.push ⟨stack, 0, []⟩ minus) := rfl
  obtain rfl := Option.some.inj (ho.symm.trans (hrun.trans ho'))
  have hlen := congrArg List.length (hchars.symm.trans hrev)
  have hint : (0x80000000 : BitVec 32).toInt < 0 := by decide
  rw [decimal, if_pos hint, List.nil_append, List.length_append, List.length_map] at hlen
  have hpos := List.length_pos_iff.mpr
    (Numeral.digits_ne_nil (b := 10) (n := (0x80000000 : BitVec 32).toInt.natAbs))
  have hone : [minus].reverse.length = 1 := rfl
  rw [List.length_singleton, hone] at hlen
  omega

theorem writesDecimal_of_ne {num : BitVec 32} (h : num ≠ 0x80000000) (stack : Bytes)
    (m : Stdio.Surroundings) (s : Stdio.State) : WritesDecimal num stack m s where
  printed := printDec_eq h stack
  appended := by
    rw [Stdio.printfInt_eq (a := ⟨fun _ => 0, fun _ => ⟨[], by decide⟩⟩), Stdio.Piece.written,
      if_neg h]
  indices := Stdio.intIndices_inRange (by rw [Stdio.toNat_abs]; exact Stdio.natAbs_lt h)
  buffer := (Stdio.digits_fit m num).2

/-- **Decimal output**: `print_dec` and `printf_int` write the same numeral, if and only if the number is not
the least one. -/
theorem writesDecimal_iff (num : BitVec 32) (stack : Bytes) (m : Stdio.Surroundings)
    (s : Stdio.State) : WritesDecimal num stack m s ↔ num ≠ 0x80000000 := by
  refine ⟨?_, fun h => writesDecimal_of_ne h stack m s⟩
  rintro h rfl
  exact not_writesDecimal_min stack m s h

/-- The least number is printed as a minus sign. -/
theorem not_writesDecimal : ¬ ∀ (num : BitVec 32) (stack : Bytes) (m : Stdio.Surroundings)
    (s : Stdio.State), WritesDecimal num stack m s := fun hall =>
  not_writesDecimal_min (fun _ => 0) ⟨fun _ _ => 0, fun _ => 0⟩ ⟨fun _ => 0, 0, 256, .text, 0, 1, []⟩
    (hall _ _ _ _)

/-! ### Hexadecimal numbers -/

/-- The value of a digit. -/
def hexValue (c : BitVec 8) : Option ℕ :=
  if 0x30 ≤ c ∧ c ≤ 0x39 then some (c.toNat - 0x30)
  else if 0x41 ≤ c ∧ c ≤ 0x46 then some (c.toNat - 0x37)
  else none

/-- The number that is written in hexadecimal. -/
def parseHex (text : List (BitVec 8)) : Option ℕ :=
  if text = [] then none else (text.mapM hexValue).map (Numeral.value 16)

/-- `print_hex` writes `0x` and the digits of the number, `printf_hex` the digits and a zero before a single
one, and both stay in their arrays. -/
structure WritesHex (num : BitVec 32) (stack : Bytes) (s : Stdio.State) (o : Output)
    (digits appended : List (BitVec 8)) : Prop where
  printed : printHex stack num = some o
  chars : o.chars = [0x30, 0x78] ++ digits
  parse_digits : parseHex digits = some num.toNat
  leading : digits.head? = some 0x30 → digits = [0x30]
  accessed_lt : ∀ x ∈ o.accessed, x < 80
  written : Stdio.printfHex num s = .ok (s.puts appended)
  parse_appended : parseHex appended = some num.toNat
  pad : appended = if num.toNat < 16 then 0x30 :: digits else digits
  buffer : ∃ buf, Stdio.hexLoop (2 ^ 32) num [] = some buf ∧ buf.length ≤ 16

theorem hexValue_digitChar {d : ℕ} (h : d < 16) : hexValue (digitChar d) = some d := by
  revert d
  decide

/-- Digits are read as what they are. -/
theorem mapM_hexValue {ds : List ℕ} (h : ∀ d ∈ ds, d < 16) :
    (ds.map digitChar).mapM hexValue = some ds := by
  induction ds with
  | nil => rfl
  | cons d ds ih =>
    rw [List.map_cons, List.mapM_cons, hexValue_digitChar (h d List.mem_cons_self),
      ih fun d hd => h d (List.mem_cons_of_mem _ hd)]
    rfl

theorem parseHex_map {ds : List ℕ} (hne : ds ≠ []) (h : ∀ d ∈ ds, d < 16) :
    parseHex (ds.map digitChar) = some (Numeral.value 16 ds) := by
  rw [parseHex, if_neg (fun hnil => hne (List.map_eq_nil_iff.mp hnil)), mapM_hexValue h]
  rfl

theorem digitChar_eq_zero_iff {d : ℕ} (h : d < 16) : digitChar d = 0x30 ↔ d = 0 := by
  revert d
  decide

/-- Only the numeral of zero begins with a zero. -/
theorem leading_digits {n : ℕ} (h : ((Numeral.digits 16 n).map digitChar).head? = some 0x30) :
    (Numeral.digits 16 n).map digitChar = [0x30] := by
  by_cases hn : n = 0
  · subst hn
    rfl
  · rw [List.head?_map, List.head?_eq_some_head Numeral.digits_ne_nil] at h
    have hlt := Numeral.lt_of_mem_digits (by omega)
      (List.head_mem (Numeral.digits_ne_nil (b := 16) (n := n)))
    exact absurd ((digitChar_eq_zero_iff hlt).mp (Option.some.inj h)) (Numeral.head_digits_ne_zero hn)

/-- `print_hex` prints the digits. -/
theorem printHex_eq (num : BitVec 32) (stack : Bytes) :
    ∃ o, printHex stack num = some o ∧
      o.chars = [0x30, 0x78] ++ (Numeral.digits 16 num.toNat).map digitChar ∧
      ∀ x ∈ o.accessed, x < 80 := by
  by_cases hzero : num = 0
  · subst hzero
    exact ⟨_, rfl, by decide, fun x hx => absurd hx List.not_mem_nil⟩
  · have hpos : 0 < num.toNat := Nat.pos_of_ne_zero fun h => hzero (BitVec.eq_of_toNat_eq h)
    have hlen : (Numeral.digits 16 num.toNat).length ≤ 8 :=
      Numeral.length_digits_le (by omega) (by omega) num.isLt
    obtain ⟨hholds, hsize⟩ := holds_digits hlen (by decide) stack
    have hprefix := (hholds.push (b := 0x78) (by omega)).push (b := 0x30)
      (by rw [List.length_append, List.length_singleton]; omega)
    obtain ⟨o, ho, hrev, hacc⟩ := printReversed_eq hprefix
      (List.append_ne_nil_of_right_ne_nil _ (List.cons_ne_nil _ _))
      (by simp only [List.length_append, List.length_singleton]; omega)
      (by
        simp only [List.forall_mem_append, List.forall_mem_singleton]
        exact ⟨⟨digitChars_ne_zero (by omega) (by omega), by decide⟩, by decide⟩)
    refine ⟨o, ?_, ?_, hacc⟩
    · rw [printHex, if_neg hzero, printHexLoop_eq hpos num.isLt, Option.bind_eq_bind, Option.bind_some]
      exact ho
    · rw [hrev, List.reverse_append, List.reverse_append, List.map_reverse, List.reverse_reverse]
      rfl

/-- **Hexadecimal output**: what `print_hex` prints and what `printf_hex` appends is read as the number
again. -/
theorem exists_writesHex (num : BitVec 32) (stack : Bytes) (s : Stdio.State) :
    ∃ o digits appended, WritesHex num stack s o digits appended := by
  obtain ⟨o, ho, hchars, hacc⟩ := printHex_eq num stack
  have hmem : ∀ d ∈ Numeral.digits 16 num.toNat, d < 16 := fun d =>
    Numeral.lt_of_mem_digits (by omega)
  have hparse : parseHex ((Numeral.digits 16 num.toNat).map digitChar) = some num.toNat := by
    rw [parseHex_map Numeral.digits_ne_nil hmem, Numeral.value_digits (by omega)]
  refine ⟨o, _, _, ho, hchars, hparse, fun hhead => ?_, hacc, Stdio.printfHex_eq num, ?_, ?_,
    (Stdio.digits_fit ⟨fun _ _ => 0, fun _ => 0⟩ num).1⟩
  · exact leading_digits hhead
  · split_ifs
    · have hpad := parseHex_map (List.cons_ne_nil 0 (Numeral.digits 16 num.toNat))
        (List.forall_mem_cons.mpr ⟨by omega, hmem⟩)
      exact hpad.trans (congrArg some (Numeral.value_digits (by omega) _))
    · exact hparse
  · split_ifs <;> rfl

end FanOS.Display
