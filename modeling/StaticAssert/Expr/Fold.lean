import StaticAssert.Expr.Operand
import StaticAssert.Expr.Operator

/-!
# Computing with constants

Values are signed 64-bit words. Sums, differences, products and negations wrap around,
and they overflow if the exact result has no place in the signed range; a result of
unsigned operands is not held against them. Comparisons and the logical negation give 0
or 1.
-/

set_option autoImplicit false

namespace StaticAssert

def InRange (n : Int) : Prop := -9223372036854775808 ≤ n ∧ n < 9223372036854775808

instance (n : Int) : Decidable (InRange n) := inferInstanceAs (Decidable (_ ∧ _))

def truthValue (b : Bool) : Int64 := if b then 1 else 0

namespace UnaryOp

def apply : UnaryOp → Int64 → Int64
  | .plus, x => x
  | .neg, x => -x
  | .not, x => truthValue (x == 0)
  | .bitNot, x => ~~~x

def overflows : UnaryOp → Int64 → Bool
  | .neg, x => ¬ InRange (-x.toInt)
  | _, _ => false

end UnaryOp

namespace BinaryOp

def apply : BinaryOp → Int64 → Int64 → Int64
  | .add, x, y => x + y
  | .sub, x, y => x - y
  | .mul, x, y => x * y
  | .bitAnd, x, y => x &&& y
  | .bitXor, x, y => x ^^^ y
  | .bitOr, x, y => x ||| y
  | .eq, x, y => truthValue (x == y)
  | .notEq, x, y => truthValue (x != y)

def overflows : BinaryOp → Int64 → Int64 → Bool
  | .add, x, y => ¬ InRange (x.toInt + y.toInt)
  | .sub, x, y => ¬ InRange (x.toInt - y.toInt)
  | .mul, x, y => ¬ InRange (x.toInt * y.toInt)
  | _, _, _ => false

end BinaryOp

structure Folded where
  operand : Operand
  wrapped : Bool
  deriving DecidableEq

namespace Folded

def unary (op : UnaryOp) (x : Operand) (span : Span) : Folded :=
  let type := if op = .not then Leaf.truth else x.type
  ⟨.computed type {} (op.apply x.value) (span.merge x.span),
    op.overflows x.value && !x.isUnsigned⟩

def binary (op : BinaryOp) (x y : Operand) : Folded :=
  let unsigned := x.isUnsigned || y.isUnsigned
  let type :=
    if op.isComparison then Leaf.truth
    else Leaf.integer (x.type.builtin.wider y.type.builtin) unsigned
  ⟨.computed type { comparison := op.isComparison } (op.apply x.value y.value)
      (x.span.merge y.span),
    op.overflows x.value y.value && !unsigned⟩

end Folded
end StaticAssert
