/-!
# Builtin scalar kinds

Integer kinds are named by their width; signedness is a qualifier of the type and
not of the kind. A literal takes 32 bits if its value fits and 64 bits otherwise.
-/

set_option autoImplicit false

namespace StaticAssert

inductive Builtin where
  | none
  | void
  | bool
  | g8
  | g16
  | g32
  | g64
  | fp16
  | fp32
  | fp64
  deriving DecidableEq

namespace Builtin

def ofLiteral (raw : UInt64) : Builtin := if raw.toNat < UInt32.size then .g32 else .g64

def bits : Builtin → Nat
  | .none | .void => 0
  | .bool | .g8 => 8
  | .g16 | .fp16 => 16
  | .g32 | .fp32 => 32
  | .g64 | .fp64 => 64

def name : Builtin → String
  | .none => "none"
  | .void => "void"
  | .bool => "bool"
  | .g8 => "g8"
  | .g16 => "g16"
  | .g32 => "g32"
  | .g64 => "g64"
  | .fp16 => "fp16"
  | .fp32 => "fp32"
  | .fp64 => "fp64"

def label : Builtin → String
  | .none => "None"
  | .void => "Void"
  | .bool => "Bool"
  | .g8 => "G8"
  | .g16 => "G16"
  | .g32 => "G32"
  | .g64 => "G64"
  | .fp16 => "Fp16"
  | .fp32 => "Fp32"
  | .fp64 => "Fp64"

def wider (a b : Builtin) : Builtin := if b.bits ≤ a.bits then a else b

end Builtin
end StaticAssert
