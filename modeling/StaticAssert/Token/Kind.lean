import StaticAssert.Source.Byte
import StaticAssert.Token.LexError
import StaticAssert.Token.Literal

/-!
# Token kinds

A token is the end of input, a lexical error, a name, a number, a punctuator or a
keyword. Punctuators and keywords have a spelling of their own, by which messages
show them; names and numbers are spelled in the source only.
-/

set_option autoImplicit false

namespace StaticAssert

inductive Punct where
  | semicolon
  | comma
  | leftParen
  | rightParen
  | leftBrace
  | rightBrace
  | star
  | plus
  | minus
  | plusPlus
  | minusMinus
  | amp
  | caret
  | pipe
  | ampAmp
  | pipePipe
  | less
  | greater
  | shiftLeft
  | shiftRight
  | assign
  | equal
  | notEqual
  | bang
  | tilde
  deriving DecidableEq

namespace Punct

def spelling : Punct → String
  | .semicolon => ";"
  | .comma => ","
  | .leftParen => "("
  | .rightParen => ")"
  | .leftBrace => "\x7b"
  | .rightBrace => "\x7d"
  | .star => "*"
  | .plus => "+"
  | .minus => "-"
  | .plusPlus => "++"
  | .minusMinus => "--"
  | .amp => "&"
  | .caret => "^"
  | .pipe => "|"
  | .ampAmp => "&&"
  | .pipePipe => "||"
  | .less => "<"
  | .greater => ">"
  | .shiftLeft => "<<"
  | .shiftRight => ">>"
  | .assign => "="
  | .equal => "=="
  | .notEqual => "!="
  | .bang => "!"
  | .tilde => "~"

def label : Punct → String
  | .semicolon => "Semicolon"
  | .comma => "Comma"
  | .leftParen => "LParen"
  | .rightParen => "RParen"
  | .leftBrace => "LBrace"
  | .rightBrace => "RBrace"
  | .star => "Star"
  | .plus => "Plus"
  | .minus => "Minus"
  | .plusPlus => "PlusPlus"
  | .minusMinus => "MinusMinus"
  | .amp => "Amp"
  | .caret => "Caret"
  | .pipe => "Pipe"
  | .ampAmp => "AmpAmp"
  | .pipePipe => "PipePipe"
  | .less => "Lt"
  | .greater => "Gt"
  | .shiftLeft => "Shl"
  | .shiftRight => "Shr"
  | .assign => "Eq"
  | .equal => "EqEq"
  | .notEqual => "NotEq"
  | .bang => "Bang"
  | .tilde => "Tilde"

def bytes (p : Punct) : List UInt8 := Byte.ofText p.spelling

end Punct

inductive Keyword where
  | staticAssert
  | void
  | char
  | bool
  | short
  | int
  | long
  | half
  | float
  | double
  deriving DecidableEq

namespace Keyword

def spelling : Keyword → String
  | .staticAssert => "static_assert"
  | .void => "void"
  | .char => "char"
  | .bool => "bool"
  | .short => "short"
  | .int => "int"
  | .long => "long"
  | .half => "half"
  | .float => "float"
  | .double => "double"

def label : Keyword → String
  | .staticAssert => "KwStaticAssert"
  | .void => "KwVoid"
  | .char => "KwChar"
  | .bool => "KwBool"
  | .short => "KwShort"
  | .int => "KwInt"
  | .long => "KwLong"
  | .half => "KwHalf"
  | .float => "KwFloat"
  | .double => "KwDouble"

def bytes (k : Keyword) : List UInt8 := Byte.ofText k.spelling

end Keyword

inductive Kind where
  | eof
  | lexError (error : LexError)
  | name
  | number (literal : NumberLiteral)
  | punct (punct : Punct)
  | keyword (keyword : Keyword)
  deriving DecidableEq

namespace Kind

def spelling? : Kind → Option String
  | .punct p => some p.spelling
  | .keyword k => some k.spelling
  | .eof | .lexError _ | .name | .number _ => none

def displayName : Kind → String
  | .eof => "end of input"
  | .lexError _ => "invalid token"
  | .name => "identifier"
  | .number _ => "number literal"
  | .punct p => p.spelling
  | .keyword k => k.spelling

def text (k : Kind) : String :=
  match k.spelling? with
  | some spelling => "`" ++ spelling ++ "`"
  | none => k.displayName

def label : Kind → String
  | .eof => "Eof"
  | .lexError e => "LexError(" ++ e.label ++ ")"
  | .name => "Name"
  | .number n => "Number(" ++ n.label ++ ")"
  | .punct p => p.label
  | .keyword k => k.label

end Kind
end StaticAssert
