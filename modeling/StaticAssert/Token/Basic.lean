import StaticAssert.Source.Span
import StaticAssert.Token.Kind

/-!
# Tokens

A token is a kind with the line on which it starts, counted from 1, and the bytes it
covers. The text of a name is the source under its span.
-/

set_option autoImplicit false

namespace StaticAssert

structure Token where
  kind : Kind
  line : Nat
  span : Span
  deriving DecidableEq

namespace Token

def unplaced (kind : Kind) : Token := ⟨kind, 0, .unplaced⟩

def isEof (t : Token) : Bool := t.kind == .eof

def number? (t : Token) : Option NumberLiteral :=
  match t.kind with
  | .number literal => some literal
  | _ => none

def lexError? (t : Token) : Option LexError :=
  match t.kind with
  | .lexError error => some error
  | _ => none

def label (t : Token) : String :=
  t.kind.label ++ " @ " ++ Nat.repr t.line ++ ":" ++ t.span.text

theorem isEof_iff (t : Token) : t.isEof = true ↔ t.kind = .eof := by
  simp [isEof]

end Token
end StaticAssert
