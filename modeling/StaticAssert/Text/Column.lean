/-!
# Columns and hexadecimal digits

Small pieces of fixed layout: text filled up with spaces to a width, and numbers in
base 16. Text that is already as wide as its column is left alone.
-/

set_option autoImplicit false

namespace StaticAssert
namespace Column

def spaces (n : Nat) : String := String.ofList (List.replicate n ' ')

def alignLeft (width : Nat) (text : String) : String := text ++ spaces (width - text.length)

def alignRight (width : Nat) (text : String) : String := spaces (width - text.length) ++ text

end Column

namespace Hex

def lower (n : Nat) : String := String.ofList (Nat.toDigits 16 n)

def upperDigit (n : Nat) : Char := (Nat.digitChar n).toUpper

def ofByte (b : UInt8) : String :=
  String.ofList [upperDigit (b.toNat / 16), upperDigit (b.toNat % 16)]

end Hex
end StaticAssert
