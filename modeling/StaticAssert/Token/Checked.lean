import StaticAssert.Token.Scanner

/-!
# Scanning through checked reads

The next token found the way a machine finds it: byte by byte through the cursor, one
byte of lookahead at a time, every read and every cut of the source checked against the
padded buffer. `Scanner.next?` gives up at the first read that would fall outside;
`Scanner.next`, which works on the bytes that are left, has no such reads. A line that
does not fit in 32 bits begins again at zero, or it stops the scanner, as the program
is built.
-/

set_option autoImplicit false

namespace StaticAssert

inductive Counting where
  -- What a sum of lines does that does not fit in 32 bits.
  | wrapping
  | checked
  deriving DecidableEq

def Counting.add? : Counting → UInt32 → Nat → Option UInt32
  | .wrapping, line, lines => some (line + .ofNat lines)
  | .checked, line, lines =>
    if line.toNat + lines < UInt32.size then some (line + .ofNat lines) else none

namespace Scanner

inductive Turn where
  | passed (scanner : Scanner)
  | found (token : Token) (scanner : Scanner)

def found (s : Scanner) (kind : Kind) (last : Cursor) : Turn :=
  .found ⟨kind, s.line.toNat, ⟨s.position, last.position⟩⟩ ⟨last, s.line⟩

def comment? (s : Scanner) (counting : Counting) : Option Turn := do
  let (comment, last) ← (s.cursor.advance 2).eatBlockComment?
  let line ← counting.add? s.line comment.newlines
  if comment.terminated then some (.passed ⟨last, line⟩)
  else
    let span : Span := ⟨s.position, last.position⟩
    -- The error stands where the comment begins, the scanner where the source ends.
    some (.found ⟨.lexError .commentNotClosed, s.line.toNat, span⟩ ⟨last, line⟩)

def slash? (s : Scanner) (counting : Counting) : Option Turn := do
  let after ← s.cursor.peek?
  if after == Byte.slash then
    let last ← s.cursor.eatLine?
    some (.passed ⟨last, s.line⟩)
  else if after == Byte.star then s.comment? counting
  else some (s.found (.lexError (.invalidByte Byte.slash)) (s.cursor.advance 1))

def word? (s : Scanner) : Option Turn := do
  let last ← (s.cursor.advance 1).eatWhile? Byte.isWordByte
  let text ← last.sliceFrom? s.position
  some (s.found (Lexeme.wordKind text) last)

def rejected? (s : Scanner) (what : RejectedLiteral) (last : Cursor) : Option Turn := do
  let last ← last.eatWhile? Byte.isLiteralByte
  some (s.found (.lexError (.rejected what)) last)

def suffixed? (s : Scanner) (digits : List UInt8) (last : Cursor) : Option Turn := do
  let unsigned := Byte.isLetterOf 'U' (← last.current?)
  let last := if unsigned then last.advance 1 else last
  if Byte.isLetterOf 'L' (← last.current?) then s.rejected? .longSuffix last
  else some (s.found (Lexeme.integerKind digits unsigned) last)

def number? (s : Scanner) : Option Turn := do
  let leading ← s.cursor.current?
  let last ←
    if leading == Byte.zero then some (s.cursor.advance 1)
    else s.cursor.eatWhile? Byte.isDigit
  let digits ← last.sliceFrom? s.position
  let after ← last.current?
  let rejection? :=
    if leading == Byte.zero then Lexeme.rejectedAfterZero? after
    else Lexeme.rejectedAfterDigits? after
  match rejection? with
  | some what => s.rejected? what last
  | none => s.suffixed? digits last

def single (s : Scanner) (one : Punct) : Turn := s.found (.punct one) (s.cursor.advance 1)

def oneOrTwo? (s : Scanner) (second : UInt8) (two one : Punct) : Option Turn := do
  let after ← s.cursor.peek?
  if after == second then some (s.found (.punct two) (s.cursor.advance 2))
  else some (s.single one)

def star? (s : Scanner) : Option Turn := do
  let after ← s.cursor.peek?
  if after == Byte.slash then some (s.found (.lexError .commentNotOpened) (s.cursor.advance 2))
  else some (s.single .star)

def punct? (s : Scanner) (byte : UInt8) : Option Turn :=
  if byte == Byte.star then s.star?
  else
    match Punct.arm? byte with
    | some (.single one) => some (s.single one)
    | some (.oneOrTwo second two one) => s.oneOrTwo? second two one
    | none => some (s.found (.lexError (.invalidByte byte)) (s.cursor.advance 1))

def turn? (s : Scanner) (counting : Counting) : Option Turn := do
  let byte ← s.cursor.current?
  if s.cursor.atEnd then some (s.found .eof s.cursor)
  else if Byte.isBlank byte then
    let last ← s.cursor.eatWhile? Byte.isBlank
    some (.passed ⟨last, s.line⟩)
  else if byte == Byte.newline then
    let line ← counting.add? s.line 1
    some (.passed ⟨s.cursor.advance 1, line⟩)
  else if byte == Byte.slash then s.slash? counting
  else if Byte.isWordStart byte then s.word?
  else if Byte.isDigit byte then s.number?
  else s.punct? byte

def nextWithin? : Nat → Scanner → Counting → Option (Token × Scanner)
  | 0, _, _ => none
  | turns + 1, s, counting =>
    match s.turn? counting with
    | none => none
    | some (.found token last) => some (token, last)
    | some (.passed last) => nextWithin? turns last counting

def next? (s : Scanner) (counting : Counting) : Option (Token × Scanner) :=
  -- Every turn that finds no token passes a byte, so the bytes that are left bound the turns.
  nextWithin? (s.cursor.remaining + 1) s counting

end Scanner
end StaticAssert
