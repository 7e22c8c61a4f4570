import StaticAssert.Scalar.Leaf
import StaticAssert.Source.Span
import StaticAssert.Token.Literal

/-!
# Operands

A constant operand has a type, a signed 64-bit value, the bytes it was written in, and
facts about where it comes from. A literal above the signed range keeps its bits.
-/

set_option autoImplicit false

namespace StaticAssert

structure Facts where
  /-- Its value is known. -/
  immediate : Bool := false
  comparison : Bool := false
  /-- A bare literal, which may stand for a truth value. -/
  truthLike : Bool := false
  assignment : Bool := false
  discardableCall : Bool := false
  deriving DecidableEq

structure Operand where
  type : Leaf
  facts : Facts
  value : Int64
  span : Span
  deriving DecidableEq

namespace Operand

def literal (n : NumberLiteral) (span : Span) : Operand :=
  ⟨.integer n.builtin n.unsigned, { immediate := true, truthLike := true }, n.raw.toInt64, span⟩

def computed (type : Leaf) (facts : Facts) (value : Int64) (span : Span) : Operand :=
  ⟨type, { facts with immediate := true }, value, span⟩

def isUnsigned (x : Operand) : Bool := x.type.isUnsigned

def isTrue (x : Operand) : Bool := x.value != 0

end Operand
end StaticAssert
