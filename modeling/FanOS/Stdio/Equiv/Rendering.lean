import FanOS.Stdio.Equiv.Writes
import Mathlib.Data.List.Basic

/-!
# What `printf` prints

A text of at most 255 bytes is passed to `print_string` as `Args.rendering` has it, if the arguments are
regular (`printf_renders`): then there is no zero in it that would end it early.
-/

namespace FanOS.Stdio

variable {a : Args} {m : Surroundings} {s : State} {bs : List (BitVec 8)} {ps : List Piece} {k : ℕ}

/-- The call of `printf` passes this string to `print_string`. -/
def Prints (a : Args) (m : Surroundings) (fmt : CString) (text : List (BitVec 8)) : Prop :=
  (∀ b ∈ text, b ≠ 0) ∧ ∃ s, printf a m fmt = .ok s ∧
    (∀ i (h : i < text.length), s.buffer i = text[i]) ∧ s.buffer text.length = 0

/-! ### Texts have no zeros -/

theorem ne_zero_of_mem_decimal {i : ℤ} {c : BitVec 8} (hc : c ∈ decimal i) : c ≠ 0 := by
  rcases List.mem_append.mp hc with hsign | hdigit
  · split_ifs at hsign
    · rw [List.mem_singleton.mp hsign]
      decide
    · exact absurd hsign List.not_mem_nil
  · exact ne_zero_of_mem_digits (by omega) (by omega) hdigit

theorem ne_zero_of_mem_hexadecimal {n : ℕ} {c : BitVec 8} (hc : c ∈ hexadecimal n) : c ≠ 0 := by
  rcases List.mem_append.mp hc with hlead | hdigit
  · clear hc
    split_ifs at hlead
    · revert c
      decide
    · revert c
      decide
  · exact ne_zero_of_mem_digits (by omega) (by omega) hdigit

theorem char_mem_behind {b c : BitVec 8} (hb : Piece.char b ∈ Piece.behind c) :
    b = percent ∨ b = c := by
  unfold Piece.behind at hb
  split_ifs at hb <;> simp_all

/-- The characters among the pieces are those of the format, or percent signs. -/
theorem ne_zero_of_char_mem_pieces {fmt : List (BitVec 8)} (hfmt : ∀ b ∈ fmt, b ≠ 0) {b : BitVec 8}
    (hb : Piece.char b ∈ pieces fmt) : b ≠ 0 := by
  fun_induction pieces fmt with
  | case1 => exact absurd hb List.not_mem_nil
  | case2 => exact absurd hb List.not_mem_nil
  | case3 b' _ =>
    obtain rfl := Piece.char.inj (List.mem_singleton.mp hb)
    exact hfmt b List.mem_cons_self
  | case4 c fmt ih =>
    rcases List.mem_append.mp hb with hbehind | hrest
    · rcases char_mem_behind hbehind with rfl | rfl
      · decide
      · exact hfmt b (by simp)
    · exact ih (fun x hx => hfmt x (by simp [hx])) hrest
  | case5 b' c fmt _ ih =>
    rcases List.mem_cons.mp hb with heq | hrest
    · obtain rfl := Piece.char.inj heq
      exact hfmt b List.mem_cons_self
    · exact ih (fun x hx => hfmt x (List.mem_cons_of_mem _ hx)) hrest

theorem mem_of_mem_assign {x : Piece × BitVec 32} (hx : x ∈ a.assign ps k) : x.1 ∈ ps := by
  induction ps generalizing k with
  | nil => exact absurd hx List.not_mem_nil
  | cons p ps ih =>
    rcases List.mem_cons.mp hx with rfl | hrest
    · exact List.mem_cons_self
    · exact List.mem_cons_of_mem _ (ih hrest)

/-- **There is no zero in the text** of a format with regular arguments. -/
theorem Args.Regular.ne_zero {fmt : CString} (h : a.Regular fmt) : ∀ c ∈ a.rendering fmt, c ≠ 0 := by
  intro c hc
  obtain ⟨⟨p, w⟩, hx, hmem⟩ := List.mem_flatMap.mp hc
  have hp := mem_of_mem_assign hx
  have hregular := h _ hx
  cases p with
  | char b =>
    rw [List.mem_singleton.mp hmem]
    exact ne_zero_of_char_mem_pieces fmt.ne_zero hp
  | int => exact ne_zero_of_mem_decimal hmem
  | hex => exact ne_zero_of_mem_hexadecimal hmem
  | str => exact (a.string w).ne_zero c hmem
  | chr =>
    rw [List.mem_singleton.mp hmem]
    exact hregular

/-! ### The string in the buffer -/

theorem Args.Regular.written_eq {fmt : CString} (h : a.Regular fmt) :
    a.written m (pieces fmt.bytes) 0 = a.rendering fmt :=
  List.flatMap_congr fun x hx => (h x hx).written_eq

/-- Writing goes on behind what has been written. -/
theorem buffer_puts_of_lt (h : s.len.toNat + bs.length < 2 ^ 32) {i : ℕ} (hi : i < s.len.toNat) :
    (s.puts bs).buffer i = s.buffer i := by
  induction bs generalizing s with
  | nil => rfl
  | cons b bs ih =>
    rw [List.length_cons] at h
    have hlen : (s.put b).len.toNat = s.len.toNat + 1 := State.toNat_put_len (by omega)
    exact (ih (s := s.put b) (by omega) (by omega)).trans (Function.update_of_ne (by omega) _ _)

/-- What has been written is in the buffer. -/
theorem buffer_puts_add (h : s.len.toNat + bs.length < 2 ^ 32) {i : ℕ} (hi : i < bs.length) :
    (s.puts bs).buffer (s.len.toNat + i) = bs[i] := by
  induction bs generalizing s i with
  | nil => exact absurd hi (Nat.not_lt_zero i)
  | cons b bs ih =>
    rw [List.length_cons] at h
    have hlen : (s.put b).len.toNat = s.len.toNat + 1 := State.toNat_put_len (by omega)
    cases i with
    | zero =>
      exact (buffer_puts_of_lt (s := s.put b) (by omega) (by omega)).trans (Function.update_self _ _ _)
    | succ i =>
      have hrest := ih (s := s.put b) (by omega) (Nat.lt_of_succ_lt_succ hi)
      rw [hlen, Nat.add_assoc, Nat.add_comm 1 i] at hrest
      exact hrest

/-- **`printf` prints the rendering** of its format and arguments, if it has at most 255 bytes. -/
theorem prints_rendering {fmt : CString} (hsize : (a.rendering fmt).length ≤ 255)
    (hargs : a.Regular fmt) : Prints a m fmt (a.rendering fmt) := by
  refine ⟨hargs.ne_zero, ?_⟩
  obtain ⟨s, hrun, -, hlen, hbuffer, -⟩ := printf_of_le (a := a) (m := m) fmt (by
    rw [hargs.written_eq]
    omega)
  rw [hargs.written_eq] at hlen hbuffer
  refine ⟨_, hrun, fun i hi => ?_, ?_⟩
  · have hzero : (start m).len.toNat = 0 := rfl
    have hwritten := buffer_puts_add (s := start m) (by omega) hi
    rw [← hbuffer, hzero, Nat.zero_add] at hwritten
    rw [← hwritten]
    exact Function.update_of_ne (by omega) _ _
  · rw [← hlen]
    exact Function.update_self _ _ _

/-- **`printf` renders its format**, and a format that is put together of two prints what they print. -/
theorem printf_renders (a : Args) (m : Surroundings) (fmt : CString)
    (hsize : (a.rendering fmt).length ≤ 255) (hargs : a.Regular fmt) :
    Prints a m fmt (a.rendering fmt) ∧
      ∀ f g : CString, fmt.bytes = f.bytes ++ g.bytes → ¬ EndsInside f.bytes →
        let rest := a.drop (argCount (pieces f.bytes))
        a.rendering fmt = a.rendering f ++ rest.rendering g ∧
          Prints a m f (a.rendering f) ∧ Prints rest m g (rest.rendering g) := by
  refine ⟨prints_rendering hsize hargs, fun f g heq h => ?_⟩
  have happend := a.rendering_append heq h
  obtain ⟨hf, hg⟩ := (a.regular_append heq h).mp hargs
  rw [happend, List.length_append] at hsize
  exact ⟨happend, prints_rendering (by omega) hf, prints_rendering (by omega) hg⟩

/-- The format `"a%d %x%s%c%%%q%"`. -/
def mixedFormat : CString :=
  ⟨[0x61, 0x25, 0x64, 0x20, 0x25, 0x78, 0x25, 0x73, 0x25, 0x63, 0x25, 0x25, 0x25, 0x71, 0x25], by decide⟩

/-- The number −17, the number 12, a pointer to `"hi"` and the character `!`. -/
def mixedArgs : Args :=
  ⟨fun i => [0xFFFFFFEF, 0xC, 0x1000, 0x21].getD i 0, fun _ => ⟨[0x68, 0x69], by decide⟩⟩

/-- With these arguments it prints `"a-17 0x0Chi!%%q"`. -/
theorem printf_renders_mixed : Prints mixedArgs ⟨fun _ _ => 0, fun _ => 0⟩ mixedFormat
    [0x61, 0x2D, 0x31, 0x37, 0x20, 0x30, 0x78, 0x30, 0x43, 0x68, 0x69, 0x21, 0x25, 0x25, 0x71] := by
  have htext : mixedArgs.rendering mixedFormat =
      [0x61, 0x2D, 0x31, 0x37, 0x20, 0x30, 0x78, 0x30, 0x43, 0x68, 0x69, 0x21, 0x25, 0x25, 0x71] := by
    decide +kernel
  rw [← htext]
  exact (printf_renders mixedArgs _ mixedFormat (by decide +kernel) (by decide)).1

end FanOS.Stdio
