import StaticAssert.Text.ByteName

/-!
# Lexical errors

What can be wrong with a token, with the wording of each error. Six classes of
error have a code and a short description that leave the payload out.
-/

set_option autoImplicit false

namespace StaticAssert

inductive RejectedLiteral where
  | octal
  | hex
  | binary
  | float
  | digitSeparator
  | longSuffix
  deriving DecidableEq

namespace RejectedLiteral

def description : RejectedLiteral → String
  | .octal => "octal literals"
  | .hex => "hex literals"
  | .binary => "binary literals"
  | .float => "floating point literals"
  | .digitSeparator => "digit separators"
  | .longSuffix => "the `l` literal suffix"

def label : RejectedLiteral → String
  | .octal => "Octal"
  | .hex => "Hex"
  | .binary => "Binary"
  | .float => "Float"
  | .digitSeparator => "DigitSeparator"
  | .longSuffix => "LongSuffix"

end RejectedLiteral

inductive LexError where
  /-- A byte that opens no token. -/
  | invalidByte (byte : UInt8)
  | literalTooLarge
  | nameTooLong
  /-- A comment that is opened and never closed. -/
  | commentNotClosed
  /-- The end of a comment where none is open. -/
  | commentNotOpened
  | rejected (literal : RejectedLiteral)
  deriving DecidableEq

namespace LexError

def maxNameLength : Nat := 127

def descriptions : List String :=
  ["invalid byte", "integer literal exceeds 64 bits", "identifier too long",
    "unterminated block comment", "`*/` without a matching `/*`", "unsupported literal"]

def code : LexError → UInt8
  | .invalidByte _ => 0
  | .literalTooLarge => 1
  | .nameTooLong => 2
  | .commentNotClosed => 3
  | .commentNotOpened => 4
  | .rejected _ => 5

def descriptionOf? (code : UInt8) : Option String := descriptions[code.toNat]?

def description (e : LexError) : String := (descriptionOf? e.code).getD ""

def message : LexError → String
  | .invalidByte b => "invalid byte " ++ Byte.shown b
  | .literalTooLarge => "integer literal exceeds 64 bits"
  | .nameTooLong => "identifier longer than " ++ Nat.repr maxNameLength ++ " bytes"
  | .commentNotClosed => "unterminated block comment"
  | .commentNotOpened => "`*/` without a matching `/*`"
  | .rejected what => what.description ++ " are not supported"

def label : LexError → String
  | .invalidByte b => "InvalidByte(" ++ Nat.repr b.toNat ++ ")"
  | .literalTooLarge => "IntLiteralOver64Bits"
  | .nameTooLong => "NameTooLong"
  | .commentNotClosed => "BlockCommentNoEnd"
  | .commentNotOpened => "BlockCommentNoBegin"
  | .rejected what => "Unsupported(" ++ what.label ++ ")"

/-- Every error belongs to a described class. -/
theorem descriptionOf?_code (e : LexError) : descriptionOf? e.code = some e.description := by
  cases e <;> rfl

end LexError
end StaticAssert
