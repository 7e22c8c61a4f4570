import StaticAssert.Proofs.Token.Decimal
import StaticAssert.Proofs.Token.Separation

/-!
# The lexical grammar

For each kind of token the texts it is written in, with what must not follow a text
for it to be as long as possible. Nothing here is read from the order in which bytes are
looked at: words, digits, suffixes and comments are described by themselves, and a
literal is rejected for what stands behind its digits. The text of a token where it
stands has one kind only, and no other text at the same place has a kind.
-/

set_option autoImplicit false

namespace StaticAssert

structure IsWord (text after : List UInt8) : Prop where
  starts : ∃ b ∈ text.head?, Byte.isWordStart b = true
  run : Byte.Run Byte.isWordByte text after

inductive IsDigits : List UInt8 → List UInt8 → Prop where
  | zero (after : List UInt8) : IsDigits [Byte.zero] after
  | run {b : UInt8} {digits after : List UInt8} (hb : b ≠ Byte.zero)
      (hr : Byte.Run Byte.isDigit (b :: digits) after) : IsDigits (b :: digits) after

inductive IsSuffix : Bool → List UInt8 → List UInt8 → Prop where
  | unsigned {b : UInt8} (hb : Byte.isLetterOf 'U' b = true) (after : List UInt8) :
      IsSuffix true [b] after
  | none {after : List UInt8} (ha : ∀ b ∈ after.head?, Byte.isLetterOf 'U' b = false) :
      IsSuffix false [] after

inductive Rejects : List UInt8 → List UInt8 → RejectedLiteral → Prop where
  -- What is rejected where digits are followed by some bytes.
  | octal {b : UInt8} (hb : Byte.isDigit b = true) (rest : List UInt8) :
      Rejects [Byte.zero] (b :: rest) .octal
  | hex {b : UInt8} (hb : Byte.isLetterOf 'X' b = true) (rest : List UInt8) :
      Rejects [Byte.zero] (b :: rest) .hex
  | binary {b : UInt8} (hb : Byte.isLetterOf 'B' b = true) (rest : List UInt8) :
      Rejects [Byte.zero] (b :: rest) .binary
  | float (digits rest : List UInt8) : Rejects digits (Byte.dot :: rest) .float
  | digitSeparator (digits rest : List UInt8) :
      Rejects digits (Byte.quoteMark :: rest) .digitSeparator
  | longSuffix (digits : List UInt8) {unsigned : Bool} {suffix : List UInt8} {b : UInt8}
      {rest : List UInt8} (hs : IsSuffix unsigned suffix (b :: rest))
      (hb : Byte.isLetterOf 'L' b = true) : Rejects digits (suffix ++ b :: rest) .longSuffix

structure IsLiteral (digits : List UInt8) (unsigned : Bool) (suffix after : List UInt8) :
    Prop where
  leading : IsDigits digits (suffix ++ after)
  trailing : IsSuffix unsigned suffix after
  accepted : ∀ what, ¬ Rejects digits (suffix ++ after) what

structure IsStray (b : UInt8) (after : List UInt8) : Prop where
  notBlank : b ∉ Byte.whitespace
  notWord : Byte.isWordStart b = false
  notDigit : Byte.isDigit b = false
  notPunct : ∀ p : Punct, p.bytes.head? ≠ some b
  notComment : b = Byte.slash →
    after.head? ≠ some Byte.slash ∧ after.head? ≠ some Byte.star

/-- The kinds of texts, in front of what follows them. -/
inductive IsLexeme : Kind → List UInt8 → List UInt8 → Prop where
  | eof : IsLexeme .eof [] []
  | punct {p : Punct} {after : List UInt8}
      (longest : ∀ b ∈ after.head?, ∀ q : Punct, q.bytes ≠ p.bytes ++ [b])
      (notClosing : p = .star → after.head? ≠ some Byte.slash) :
      IsLexeme (.punct p) p.bytes after
  | keyword {k : Keyword} {after : List UInt8} (hw : IsWord k.bytes after) :
      IsLexeme (.keyword k) k.bytes after
  | name {text after : List UInt8} (hw : IsWord text after) (hl : text.length ≤ 127)
      (hk : ∀ k : Keyword, text ≠ k.bytes) : IsLexeme .name text after
  | nameTooLong {text after : List UInt8} (hw : IsWord text after) (hl : 127 < text.length) :
      IsLexeme (.lexError .nameTooLong) text after
  | number {digits suffix after : List UInt8} {n : NumberLiteral}
      (hd : IsLiteral digits n.unsigned suffix after)
      (hv : n.raw.toNat = Lexeme.decimal digits)
      (hb : n.builtin = if Lexeme.decimal digits < 2 ^ 32 then .g32 else .g64) :
      IsLexeme (.number n) (digits ++ suffix) after
  | literalTooLarge {digits suffix after : List UInt8} {unsigned : Bool}
      (hd : IsLiteral digits unsigned suffix after) (hv : 2 ^ 64 ≤ Lexeme.decimal digits) :
      IsLexeme (.lexError .literalTooLarge) (digits ++ suffix) after
  | rejected {digits rest text after : List UInt8} {what : RejectedLiteral}
      (hd : IsDigits digits rest) (hr : Rejects digits rest what)
      (ht : text ++ after = digits ++ rest) (hl : Byte.Run Byte.isLiteralByte text after) :
      IsLexeme (.lexError (.rejected what)) text after
  | commentNotClosed {body : List UInt8} (hb : Trivia.Unclosed body) :
      IsLexeme (.lexError .commentNotClosed) (Byte.slash :: Byte.star :: body) []
  | commentNotOpened (after : List UInt8) :
      IsLexeme (.lexError .commentNotOpened) [Byte.star, Byte.slash] after
  | invalidByte {b : UInt8} {after : List UInt8} (hb : IsStray b after) :
      IsLexeme (.lexError (.invalidByte b)) [b] after

end StaticAssert
