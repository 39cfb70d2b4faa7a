import FanOS.Numeral.Basic
import FanOS.Stdio.Basic

/-!
# What a format says

A format is taken apart into pieces: characters, and directives that print an argument.  `rendering` puts
the texts of the pieces one after the other; each directive takes the next argument.  If a format does not
end inside of a directive, another one may follow it, and its rendering follows as well
(`rendering_append`).
-/

namespace FanOS.Stdio

/-- A piece of a format. -/
inductive Piece
  | char (b : BitVec 8)
  /-- `%d`. -/
  | int
  /-- `%x`. -/
  | hex
  /-- `%s`. -/
  | str
  /-- `%c`. -/
  | chr

/-- What a `%` and a character are: a percent sign, a directive, or both characters if there is no such
directive. -/
def Piece.behind (c : BitVec 8) : List Piece :=
  if c = 0x64 then [.int]
  else if c = 0x78 then [.hex]
  else if c = 0x73 then [.str]
  else if c = 0x63 then [.chr]
  else if c = percent then [.char percent]
  else [.char percent, .char c]

/-- The pieces of a format.  A `%` at its end is none. -/
def pieces : List (BitVec 8) → List Piece
  | [] => []
  | [b] => if b = percent then [] else [.char b]
  | b :: c :: fmt => if b = percent then Piece.behind c ++ pieces fmt else .char b :: pieces (c :: fmt)

/-- The format ends behind the `%` of a directive. -/
def EndsInside : List (BitVec 8) → Prop
  | [] => False
  | [b] => b = percent
  | b :: c :: fmt => if b = percent then EndsInside fmt else EndsInside (c :: fmt)

/-! ### Texts -/

/-- A digit: `0` to `9`, and then `A`, `B` and so on. -/
def digitChar (d : ℕ) : BitVec 8 := BitVec.ofNat 8 (if d < 10 then 0x30 + d else 0x37 + d)

/-- A number in decimal. -/
def decimal (i : ℤ) : List (BitVec 8) :=
  (if i < 0 then [minus] else []) ++ (Numeral.digits 10 i.natAbs).map digitChar

/-- A number in hexadecimal, with at least two digits. -/
def hexadecimal (n : ℕ) : List (BitVec 8) :=
  [0x30, 0x78] ++ (if n < 16 then [0x30] else []) ++ (Numeral.digits 16 n).map digitChar

namespace Piece

/-- The number of arguments that the piece takes. -/
def args : Piece → ℕ
  | char _ => 0
  | _ => 1

/-- The text of a piece whose argument is `w`. -/
def text (string : BitVec 32 → CString) (w : BitVec 32) : Piece → List (BitVec 8)
  | char b => [b]
  | int => decimal w.toInt
  | hex => hexadecimal w.toNat
  | str => (string w).bytes
  | chr => [w.setWidth 8]

/-- What the argument of a piece has to be: not the least number, not the empty string, and not the
character zero. -/
def Regular (string : BitVec 32 → CString) (w : BitVec 32) : Piece → Prop
  | char _ | hex => True
  | int => w.toInt ≠ -2 ^ 31
  | str => (string w).bytes ≠ []
  | chr => w.setWidth 8 ≠ (0 : BitVec 8)

instance (string : BitVec 32 → CString) (w : BitVec 32) : ∀ p : Piece, Decidable (p.Regular string w)
  | char _ => .isTrue trivial
  | hex => .isTrue trivial
  | int => inferInstanceAs (Decidable (_ ≠ _))
  | str => inferInstanceAs (Decidable (_ ≠ _))
  | chr => inferInstanceAs (Decidable (_ ≠ _))

end Piece

/-- The number of arguments of the pieces. -/
def argCount : List Piece → ℕ
  | [] => 0
  | p :: ps => p.args + argCount ps

namespace Args

variable (a : Args)

/-- The arguments from number `k` on. -/
def drop (k : ℕ) : Args := { a with word := fun i => a.word (k + i) }

/-- The pieces with their arguments, from argument `k` on. -/
def assign : List Piece → ℕ → List (Piece × BitVec 32)
  | [], _ => []
  | p :: ps, k => (p, a.word k) :: assign ps (k + p.args)

/-- The text of a format. -/
def rendering (fmt : CString) : List (BitVec 8) :=
  (a.assign (pieces fmt.bytes) 0).flatMap fun x => x.1.text a.string x.2

/-- The arguments of a format are regular. -/
def Regular (fmt : CString) : Prop :=
  ∀ x ∈ a.assign (pieces fmt.bytes) 0, x.1.Regular a.string x.2

instance (fmt : CString) : Decidable (a.Regular fmt) :=
  inferInstanceAs (Decidable (∀ x ∈ a.assign (pieces fmt.bytes) 0, x.1.Regular a.string x.2))

variable {a} {ps qs : List Piece} {j k : ℕ}

/-- Arguments are taken in order. -/
theorem assign_append :
    a.assign (ps ++ qs) k = a.assign ps k ++ a.assign qs (k + argCount ps) := by
  induction ps generalizing k with
  | nil => rfl
  | cons p ps ih =>
    rw [List.cons_append, assign, assign, ih, argCount, Nat.add_assoc, List.cons_append]

theorem assign_drop : (a.drop j).assign ps k = a.assign ps (j + k) := by
  induction ps generalizing k with
  | nil => rfl
  | cons p ps ih =>
    rw [assign, assign, ih, Nat.add_assoc]
    rfl

end Args

/-! ### Formats one after the other -/

variable {f g : List (BitVec 8)}

/-- The pieces of a format that does not end inside of a directive do not depend on what follows. -/
theorem pieces_append (h : ¬ EndsInside f) : pieces (f ++ g) = pieces f ++ pieces g := by
  fun_induction pieces f with
  | case1 => rfl
  | case2 => exact absurd rfl h
  | case3 b hb =>
    cases g with
    | nil => simp [pieces, hb]
    | cons c g => rw [List.singleton_append, pieces, if_neg hb, List.singleton_append]
  | case4 c fmt ih =>
    rw [EndsInside, if_pos rfl] at h
    rw [List.cons_append, List.cons_append, pieces, if_pos rfl, ih h, List.append_assoc]
  | case5 b c fmt hb ih =>
    rw [EndsInside, if_neg hb] at h
    rw [List.cons_append, List.cons_append, pieces, if_neg hb, ← List.cons_append, ih h,
      List.cons_append]

namespace Args

/-- The pieces of two such formats have their arguments one after the other. -/
theorem assign_pieces_append (a : Args) {fmt f g : CString} (heq : fmt.bytes = f.bytes ++ g.bytes)
    (h : ¬ EndsInside f.bytes) :
    a.assign (pieces fmt.bytes) 0 = a.assign (pieces f.bytes) 0 ++
      (a.drop (argCount (pieces f.bytes))).assign (pieces g.bytes) 0 := by
  rw [heq, pieces_append h, assign_append, assign_drop, Nat.zero_add, Nat.add_zero]

/-- **Rendering is a homomorphism**: a format that does not end inside of a directive is rendered, and the
one behind it with the arguments that are left. -/
theorem rendering_append (a : Args) {fmt f g : CString} (heq : fmt.bytes = f.bytes ++ g.bytes)
    (h : ¬ EndsInside f.bytes) :
    a.rendering fmt = a.rendering f ++ (a.drop (argCount (pieces f.bytes))).rendering g := by
  rw [rendering, a.assign_pieces_append heq h, List.flatMap_append]
  rfl

theorem regular_append (a : Args) {fmt f g : CString} (heq : fmt.bytes = f.bytes ++ g.bytes)
    (h : ¬ EndsInside f.bytes) :
    a.Regular fmt ↔ a.Regular f ∧ (a.drop (argCount (pieces f.bytes))).Regular g := by
  rw [Regular, a.assign_pieces_append heq h]
  exact List.forall_mem_append

end Args

end FanOS.Stdio
