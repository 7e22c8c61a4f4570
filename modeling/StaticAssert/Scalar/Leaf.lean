import StaticAssert.Scalar.Builtin

/-!
# Scalar types

A scalar type is a builtin kind with qualifiers. Only the unsigned qualifier bears on
constant evaluation; reference and readonly are carried for display.
-/

set_option autoImplicit false

namespace StaticAssert

structure Qualifiers where
  unsigned : Bool := false
  reference : Bool := false
  readonly : Bool := false
  deriving DecidableEq

structure Leaf where
  builtin : Builtin
  qualifiers : Qualifiers
  deriving DecidableEq

namespace Leaf

def isUnsigned (t : Leaf) : Bool := t.qualifiers.unsigned

def integer (builtin : Builtin) (unsigned : Bool) : Leaf := ⟨builtin, { unsigned }⟩

def truth : Leaf := integer .bool false

def text (t : Leaf) : String :=
  (if t.qualifiers.readonly then "readonly " else "") ++
  (if t.qualifiers.unsigned then "unsigned " else "") ++
  t.builtin.name ++
  (if t.qualifiers.reference then "&" else "")

end Leaf
end StaticAssert
