import StaticAssert.Proofs.Expr.Word

/-!
# What operators mean on integers

The operators are written as punctuators and mean operations on integers, bitwise ones
on infinite two's complement. Where an operation can leave the range of words its
result is passed to a function that says what happens then: nothing, for exact
computing, or wrapping around. Computing with words is the second, and it overflows
exactly where the first leaves the range.
-/

set_option autoImplicit false

namespace StaticAssert

namespace UnaryOp

def punct : UnaryOp → Punct
  | .plus => .plus
  | .neg => .minus
  | .not => .bang
  | .bitNot => .tilde

def denote (fit : Int → Int) : UnaryOp → Int → Int
  | .plus, x => x
  | .neg, x => fit (-x)
  | .not, x => truthInt (x == 0)
  | .bitNot, x => x.lnot

theorem toInt_apply (op : UnaryOp) (x : Int64) :
    (op.apply x).toInt = op.denote wrap x.toInt := by
  cases op with
  | plus => rfl
  | neg => exact x.toInt_neg
  | not =>
    have h : (x == 0) = (x.toInt == 0) := by
      rw [Bool.eq_iff_iff, beq_iff_eq, beq_iff_eq, ← Int64.toInt_inj]
      rfl
    rw [apply, denote, toInt_truthValue, h]
  | bitNot => exact toInt_complement x

theorem overflows_eq (op : UnaryOp) (x : Int64) :
    op.overflows x = decide (¬ InRange (op.denote id x.toInt)) := by
  cases op with
  | plus => simp [overflows, denote, inRange_toInt]
  | neg => rfl
  | not => simp [overflows, denote, inRange_truthInt]
  | bitNot =>
    have h : InRange x.toInt.lnot := by
      rw [← toInt_complement]
      exact inRange_toInt _
    simp [overflows, denote, h]

theorem denote_wrap_of_inRange {op : UnaryOp} {x : Int} (h : InRange (op.denote id x)) :
    op.denote wrap x = op.denote id x := by
  cases op with
  | neg => exact wrap_of_inRange h
  | plus | not | bitNot => rfl

end UnaryOp

namespace BinaryOp

def punct : BinaryOp → Punct
  | .bitAnd => .amp
  | .bitOr => .pipe
  | .bitXor => .caret
  | .add => .plus
  | .sub => .minus
  | .mul => .star
  | .eq => .equal
  | .notEq => .notEqual

def denote (fit : Int → Int) : BinaryOp → Int → Int → Int
  | .bitAnd, x, y => x.land y
  | .bitOr, x, y => x.lor y
  | .bitXor, x, y => x.xor y
  | .add, x, y => fit (x + y)
  | .sub, x, y => fit (x - y)
  | .mul, x, y => fit (x * y)
  | .eq, x, y => truthInt (x == y)
  | .notEq, x, y => truthInt (x != y)

theorem beq_toInt (x y : Int64) : (x == y) = (x.toInt == y.toInt) := by
  rw [Bool.eq_iff_iff, beq_iff_eq, beq_iff_eq, Int64.toInt_inj]

theorem toInt_apply (op : BinaryOp) (x y : Int64) :
    (op.apply x y).toInt = op.denote wrap x.toInt y.toInt := by
  cases op with
  | bitAnd => exact toInt_and x y
  | bitOr => exact toInt_or x y
  | bitXor => exact toInt_xor x y
  | add => exact x.toInt_add y
  | sub => exact x.toInt_sub y
  | mul => exact x.toInt_mul y
  | eq => rw [apply, denote, toInt_truthValue, beq_toInt]
  | notEq => rw [apply, denote, toInt_truthValue, bne, bne, beq_toInt]

theorem overflows_eq (op : BinaryOp) (x y : Int64) :
    op.overflows x y = decide (¬ InRange (op.denote id x.toInt y.toInt)) := by
  cases op with
  | bitAnd => simp [overflows, denote, ← toInt_and, inRange_toInt]
  | bitOr => simp [overflows, denote, ← toInt_or, inRange_toInt]
  | bitXor => simp [overflows, denote, ← toInt_xor, inRange_toInt]
  | add | sub | mul => rfl
  | eq | notEq => simp [overflows, denote, inRange_truthInt]

theorem denote_wrap_of_inRange {op : BinaryOp} {x y : Int} (h : InRange (op.denote id x y)) :
    op.denote wrap x y = op.denote id x y := by
  cases op with
  | add | sub | mul => exact wrap_of_inRange h
  | bitAnd | bitOr | bitXor | eq | notEq => rfl

end BinaryOp
end StaticAssert
