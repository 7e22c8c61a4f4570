/-!
# Bytes of the source language

The language is written in ASCII: every byte that opens, continues or separates
a token is named here, with the classes that scanning asks about. Bytes of 0x80
and above belong to no class.
-/

set_option autoImplicit false

namespace StaticAssert
namespace Byte

def tab : UInt8 := 9
def newline : UInt8 := 10
def carriageReturn : UInt8 := 13
def space : UInt8 := 32
def quoteMark : UInt8 := 39
def star : UInt8 := 42
def dot : UInt8 := 46
def slash : UInt8 := 47
def zero : UInt8 := 48
def one : UInt8 := 49
def underscore : UInt8 := 95

def isDigit (b : UInt8) : Bool := 48 ≤ b && b ≤ 57

def isUpper (b : UInt8) : Bool := 65 ≤ b && b ≤ 90

def isLower (b : UInt8) : Bool := 97 ≤ b && b ≤ 122

def isLetter (b : UInt8) : Bool := isUpper b || isLower b

def isLetterOf (capital : Char) (b : UInt8) : Bool :=
  b.toNat == capital.toNat || b.toNat == capital.toNat + 32

def isBlank (b : UInt8) : Bool := b == space || b == tab || b == carriageReturn

def isWordStart (b : UInt8) : Bool := isLetter b || b == underscore

def isWordByte (b : UInt8) : Bool := isLetter b || isDigit b || b == underscore

def isLiteralByte (b : UInt8) : Bool := isWordByte b || b == dot || b == quoteMark

def isGraphic (b : UInt8) : Bool := 33 ≤ b && b ≤ 126

def digitValue (b : UInt8) : UInt64 := (b - zero).toUInt64

def newlines (bytes : List UInt8) : Nat := bytes.count newline

def ofText (text : String) : List UInt8 := text.toList.flatMap String.utf8EncodeChar

@[simp] theorem newlines_nil : newlines [] = 0 := rfl

@[simp] theorem newlines_append (xs ys : List UInt8) :
    newlines (xs ++ ys) = newlines xs + newlines ys := List.count_append

theorem ofText_append (s t : String) : ofText (s ++ t) = ofText s ++ ofText t := by
  simp [ofText]

end Byte
end StaticAssert
