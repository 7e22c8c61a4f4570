import StaticAssert.Source.Span
import StaticAssert.Token.LexError

/-!
# Diagnostics

One record per problem that can be shown at a place in the source. The meaning of the
byte carried along depends on the issue: the code of a lexical error, the invalid byte
itself, or the code of the operator that overflowed.
-/

set_option autoImplicit false

namespace StaticAssert

inductive Issue where
  | lexError
  | invalidByte
  | assertionFailed
  | literalTooLarge
  | signedOverflow
  deriving DecidableEq

namespace Issue

def code : Issue → String
  | .lexError => "E0001"
  | .literalTooLarge => "E0002"
  | .invalidByte => "E0003"
  | .assertionFailed => "E2001"
  | .signedOverflow => "E2002"

def title : Issue → String
  | .lexError => "invalid token"
  | .literalTooLarge => "integer literal exceeds 64 bits"
  | .invalidByte => "invalid byte"
  | .assertionFailed => "static assertion failed"
  | .signedOverflow => "signed overflow in constant expression"

end Issue

structure Diagnostic where
  issue : Issue
  misc : UInt8
  line : Nat
  span : Span
  deriving DecidableEq

inductive Detail where
  | text (text : String)
  | byte (byte : UInt8)
  deriving DecidableEq

def Detail.shown : Detail → String
  | .text t => t
  | .byte b => Byte.shown b

namespace Diagnostic

def assertionFailed (line : Nat) (span : Span) : Diagnostic :=
  ⟨.assertionFailed, 0, line, span⟩

def lexError (error : LexError) (line : Nat) (span : Span) : Diagnostic :=
  match error with
  | .literalTooLarge => ⟨.literalTooLarge, 0, line, span⟩
  | .invalidByte byte => ⟨.invalidByte, byte, line, span⟩
  | _ => ⟨.lexError, error.code, line, span⟩

def signedOverflow (operator : UInt8) (line : Nat) (span : Span) : Diagnostic :=
  ⟨.signedOverflow, operator, line, span⟩

def detail? (d : Diagnostic) : Option Detail :=
  match d.issue with
  | .lexError => some (.text ((LexError.descriptionOf? d.misc).getD "unknown lexical error"))
  | .invalidByte => some (.byte d.misc)
  | .assertionFailed | .literalTooLarge | .signedOverflow => none

def heading (d : Diagnostic) : String :=
  d.issue.title ++ (d.detail?.elim "" fun detail => ": " ++ detail.shown)

def text (d : Diagnostic) : String := "line " ++ Nat.repr d.line ++ ": " ++ d.heading

end Diagnostic
end StaticAssert
