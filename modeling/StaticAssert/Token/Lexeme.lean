import StaticAssert.Token.Table
import StaticAssert.Token.Trivia

/-!
# Lexemes

The kind of the token at the head of a stretch of bytes, and how many bytes it takes.
Runs are as long as possible: a word takes every word byte, a punctuator of two bytes
is preferred to its first byte alone, and a rejected literal swallows everything that
could belong to it. At the end of the bytes there is only the end of input.
-/

set_option autoImplicit false

namespace StaticAssert

structure Lexeme where
  kind : Kind
  length : Nat
  deriving DecidableEq

namespace Lexeme

def wordKind (text : List UInt8) : Kind :=
  if LexError.maxNameLength < text.length then .lexError .nameTooLong
  else (Keyword.lookup? text).elim .name .keyword

def word (bytes : List UInt8) : Lexeme :=
  ⟨wordKind (bytes.takeWhile Byte.isWordByte), (bytes.takeWhile Byte.isWordByte).length⟩

def digitsValue (digits : List UInt8) : UInt64 :=
  digits.foldl (fun value digit => value * 10 + Byte.digitValue digit) 0

def tooLarge (digits : List UInt8) : Bool :=
  -- Whether a digit string without a leading zero exceeds 64 bits. Twenty digits that begin with
  -- 1 wrap at most once, and then to a value below 10^19.
  20 ≤ digits.length &&
    (digits.length != 20 || digits.head?.any (· != Byte.one) ||
      digitsValue digits < 10000000000000000000)

def integerKind (digits : List UInt8) (unsigned : Bool) : Kind :=
  if tooLarge digits then .lexError .literalTooLarge
  else .number (.ofRaw (digitsValue digits) unsigned)

def digits (bytes : List UInt8) : List UInt8 :=
  if bytes.head? == some Byte.zero then bytes.take 1 else bytes.takeWhile Byte.isDigit

def rejectedAfterZero? (b : UInt8) : Option RejectedLiteral :=
  if Byte.isDigit b then some .octal
  else if Byte.isLetterOf 'X' b then some .hex
  else if Byte.isLetterOf 'B' b then some .binary
  else if b == Byte.dot then some .float
  else if b == Byte.quoteMark then some .digitSeparator
  else none

def rejectedAfterDigits? (b : UInt8) : Option RejectedLiteral :=
  if b == Byte.quoteMark then some .digitSeparator
  else if b == Byte.dot then some .float
  else none

def hasUnsignedSuffix (after : List UInt8) : Bool := after.head?.any (Byte.isLetterOf 'U')

def hasLongSuffix (after : List UInt8) : Bool :=
  (if hasUnsignedSuffix after then after.tail else after).head?.any (Byte.isLetterOf 'L')

def rejection? (bytes : List UInt8) : Option RejectedLiteral :=
  let after := bytes.drop (digits bytes).length
  let next? := after.head?.bind
    (if bytes.head? == some Byte.zero then rejectedAfterZero? else rejectedAfterDigits?)
  next?.or (if hasLongSuffix after then some .longSuffix else none)

def number (bytes : List UInt8) : Lexeme :=
  match rejection? bytes with
  | some what => ⟨.lexError (.rejected what), (bytes.takeWhile Byte.isLiteralByte).length⟩
  | none =>
    let unsigned := hasUnsignedSuffix (bytes.drop (digits bytes).length)
    ⟨integerKind (digits bytes) unsigned, (digits bytes).length + unsigned.toNat⟩

def punct (b : UInt8) (rest : List UInt8) : Lexeme :=
  match Punct.arm? b with
  | some arm => ⟨.punct (arm.choose rest.head?).1, (arm.choose rest.head?).2⟩
  | none => ⟨.lexError (.invalidByte b), 1⟩

def read : List UInt8 → Lexeme
  | [] => ⟨.eof, 0⟩
  | b :: rest =>
    if Byte.isWordStart b then word (b :: rest)
    else if Byte.isDigit b then number (b :: rest)
    else if b == Byte.slash && rest.head? == some Byte.star then
      ⟨.lexError .commentNotClosed, rest.length + 1⟩
    else if b == Byte.star && rest.head? == some Byte.slash then
      ⟨.lexError .commentNotOpened, 2⟩
    else punct b rest

theorem takeWhile_length_pos {p : UInt8 → Bool} {b : UInt8} {rest : List UInt8}
    (h : p b = true) : 1 ≤ ((b :: rest).takeWhile p).length := by
  simp [h]

theorem takeWhile_length_le (p : UInt8 → Bool) (bytes : List UInt8) :
    (bytes.takeWhile p).length ≤ bytes.length :=
  (List.takeWhile_sublist p).length_le

theorem wordKind_ne_eof (text : List UInt8) : wordKind text ≠ .eof := by
  unfold wordKind
  split
  · simp
  · cases Keyword.lookup? text <;> simp

theorem word_length_pos {b : UInt8} (h : Byte.isWordStart b = true) (rest : List UInt8) :
    1 ≤ (word (b :: rest)).length := by
  apply takeWhile_length_pos
  simp only [Byte.isWordStart, Byte.isWordByte, Bool.or_eq_true] at *
  rcases h with h | h
  · exact Or.inl (Or.inl h)
  · exact Or.inr h

theorem digits_length_pos {b : UInt8} (h : Byte.isDigit b = true) (rest : List UInt8) :
    1 ≤ (digits (b :: rest)).length := by
  unfold digits
  split
  · simp
  · exact takeWhile_length_pos h

theorem digits_length_le (bytes : List UInt8) : (digits bytes).length ≤ bytes.length := by
  unfold digits
  split
  · exact (List.take_sublist 1 bytes).length_le
  · exact takeWhile_length_le _ _

theorem isLiteralByte_of_isDigit {b : UInt8} (h : Byte.isDigit b = true) :
    Byte.isLiteralByte b = true := by
  simp [Byte.isLiteralByte, Byte.isWordByte, h]

theorem number_kind_ne_eof (bytes : List UInt8) : (number bytes).kind ≠ .eof := by
  unfold number
  split
  · simp
  · simp only [integerKind]
    split <;> simp

theorem number_length_pos {b : UInt8} (h : Byte.isDigit b = true) (rest : List UInt8) :
    1 ≤ (number (b :: rest)).length := by
  unfold number
  split
  · exact takeWhile_length_pos (isLiteralByte_of_isDigit h)
  · have := digits_length_pos h rest
    simp only
    omega

theorem unsigned_le (after : List UInt8) :
    (hasUnsignedSuffix after).toNat ≤ after.length := by
  cases after with
  | nil => simp [hasUnsignedSuffix]
  | cons b rest => exact Nat.le_trans (Bool.toNat_le _) (by simp)

theorem number_length_le (bytes : List UInt8) : (number bytes).length ≤ bytes.length := by
  unfold number
  split
  · exact takeWhile_length_le _ _
  · have hd := digits_length_le bytes
    have hu := unsigned_le (bytes.drop (digits bytes).length)
    rw [List.length_drop] at hu
    simp only
    omega

theorem punct_kind_ne_eof (b : UInt8) (rest : List UInt8) : (punct b rest).kind ≠ .eof := by
  unfold punct
  split <;> simp

theorem punct_length_bounds (b : UInt8) (rest : List UInt8) :
    1 ≤ (punct b rest).length ∧ (punct b rest).length ≤ rest.length + 1 := by
  unfold punct
  split
  next arm _ =>
    cases arm with
    | single one => simp [Arm.choose]
    | oneOrTwo second two one =>
      by_cases h : rest.head? = some second
      · obtain ⟨tail, rfl⟩ := List.head?_eq_some_iff.mp h
        simp [Arm.choose]
      · simp [Arm.choose, h]
  · simp

theorem read_length_bounds (b : UInt8) (rest : List UInt8) :
    1 ≤ (read (b :: rest)).length ∧ (read (b :: rest)).length ≤ rest.length + 1 := by
  rw [read]
  split
  next h => exact ⟨word_length_pos h rest, takeWhile_length_le _ _⟩
  split
  next h => exact ⟨number_length_pos h rest, number_length_le _⟩
  split
  · exact ⟨Nat.le_add_left _ _, Nat.le_refl _⟩
  split
  next h =>
    cases rest with
    | nil => simp at h
    | cons c rest => simp
  · exact punct_length_bounds b rest

theorem read_kind_eq_eof_iff {bytes : List UInt8} : (read bytes).kind = .eof ↔ bytes = [] := by
  constructor
  · intro h
    cases bytes with
    | nil => rfl
    | cons b rest =>
      exfalso
      revert h
      rw [read]
      split
      · exact wordKind_ne_eof _
      split
      · exact number_kind_ne_eof _
      split
      · simp
      split
      · simp
      · exact punct_kind_ne_eof _ _
  · rintro rfl
    rfl

end Lexeme
end StaticAssert
