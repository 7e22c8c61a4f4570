import StaticAssert.Scalar.Builtin

/-!
# Number literals

The payload of a decimal literal: its 64-bit value, whether it was written with an
unsigned suffix, and the width the value asks for.
-/

set_option autoImplicit false

namespace StaticAssert

structure NumberLiteral where
  raw : UInt64
  unsigned : Bool
  builtin : Builtin
  deriving DecidableEq

namespace NumberLiteral

def ofRaw (raw : UInt64) (unsigned : Bool) : NumberLiteral :=
  ⟨raw, unsigned, .ofLiteral raw⟩

def suffix (n : NumberLiteral) : String := if n.unsigned then "u" else ""

def spelling (n : NumberLiteral) : String := Nat.repr n.raw.toNat ++ n.suffix

def label (n : NumberLiteral) : String :=
  "NumberLiteral \x7b raw: " ++ Nat.repr n.raw.toNat ++
  ", unsigned: " ++ (if n.unsigned then "true" else "false") ++
  ", builtin: " ++ n.builtin.label ++ " \x7d"

end NumberLiteral
end StaticAssert
