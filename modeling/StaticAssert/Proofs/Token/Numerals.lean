import StaticAssert.Proofs.Token.Turns

/-!
# Numerals

A string of decimal digits, of any length and with or without the suffix of unsigned
literals, in a place where a token begins. If nothing that could belong to a literal
follows, the next token stands on all of the string. It is the number that the digits
denote as long as that fits in 64 bits, and the error for longer literals if it does not,
however often the value that was accumulated in words has wrapped around.
-/

set_option autoImplicit false

namespace StaticAssert

inductive IsNumeral : List UInt8 → Prop where
  | zero : IsNumeral [Byte.zero]
  | digits {b : UInt8} {more : List UInt8} (hb : b ≠ Byte.zero)
      (hd : ∀ c ∈ b :: more, Byte.isDigit c = true) : IsNumeral (b :: more)

def unsignedSuffixes : List (List UInt8) := [[], Byte.ofText "u", Byte.ofText "U"]

def numeralKind (digits suffix : List UInt8) : Kind :=
  if h : Lexeme.decimal digits < 2 ^ 64 then
    .number ⟨.ofNatLT (Lexeme.decimal digits) h, !suffix.isEmpty,
      if Lexeme.decimal digits < 2 ^ 32 then .g32 else .g64⟩
  else .lexError .literalTooLarge

variable {digits suffix after : List UInt8}

theorem IsNumeral.isDigits (h : IsNumeral digits)
    (ha : ∀ b ∈ after.head?, Byte.isDigit b = false) : IsDigits digits after := by
  cases h with
  | zero => exact .zero after
  | digits hb hd => exact .run hb ⟨hd, ha⟩

theorem isSuffix_of_mem (hs : suffix ∈ unsignedSuffixes)
    (ha : ∀ b ∈ after.head?, Byte.isLiteralByte b = false) :
    IsSuffix (!suffix.isEmpty) suffix after := by
  simp only [unsignedSuffixes, List.mem_cons, List.not_mem_nil, or_false] at hs
  rcases hs with rfl | rfl | rfl
  · exact .none fun b hb => Byte.isLetterOf_eq_false (by decide) (ha b hb)
  · exact .unsigned (by decide) after
  · exact .unsigned (by decide) after

theorem IsSuffix.not_isDigit {unsigned : Bool} (h : IsSuffix unsigned suffix after)
    (ha : ∀ b ∈ after.head?, Byte.isLiteralByte b = false) :
    ∀ b ∈ (suffix ++ after).head?, Byte.isDigit b = false := by
  cases h with
  | unsigned hu =>
    rintro b ⟨⟩
    rcases Byte.eq_of_isLetterOf hu with rfl | rfl <;> decide
  | none => exact fun b hb => Lexeme.isDigit_eq_false (ha b hb)

theorem IsNumeral.isLiteral (hd : IsNumeral digits) (hs : suffix ∈ unsignedSuffixes)
    (ha : ∀ b ∈ after.head?, Byte.isLiteralByte b = false) :
    IsLiteral digits (!suffix.isEmpty) suffix after :=
  have hx := isSuffix_of_mem hs ha
  Lexeme.isLiteral_of_stops (hd.isDigits (hx.not_isDigit ha)) hx ha

theorem IsNumeral.isLexeme (hd : IsNumeral digits) (hs : suffix ∈ unsignedSuffixes)
    (ha : ∀ b ∈ after.head?, Byte.isLiteralByte b = false) :
    IsLexeme (numeralKind digits suffix) (digits ++ suffix) after := by
  have hl := hd.isLiteral hs ha
  rw [numeralKind]
  split
  next hv => exact .number hl UInt64.toNat_ofNatLT rfl
  next hv => exact .literalTooLarge hl (Nat.le_of_not_lt hv)

theorem IsLiteral.newlines_eq_zero {unsigned : Bool}
    (h : IsLiteral digits unsigned suffix after) : Byte.newlines (digits ++ suffix) = 0 :=
  Byte.newlines_of_class (Lexeme.isLiteralByte_of_isLiteral h) (by decide)

theorem IsNumeral.ne_nil (h : IsNumeral digits) : digits ≠ [] := by
  cases h <;> exact List.cons_ne_nil _ _

namespace Scanner

variable {s : Scanner} {gap : List UInt8}

/-- A numeral, where a token begins and with no byte of a literal behind it, is one token: the
number it denotes, or an error if that takes more than 64 bits. -/
theorem numeral_scanned (hr : s.cursor.rest = gap ++ (digits ++ suffix ++ after))
    (hg : Trivia.Stretch gap (digits ++ suffix ++ after)) (hd : IsNumeral digits)
    (hs : suffix ∈ unsignedSuffixes) (ha : ∀ b ∈ after.head?, Byte.isLiteralByte b = false) :
    s.next? .wrapping = some
      (⟨numeralKind digits suffix, (lineAfter s.line gap).toNat,
        ⟨s.position + gap.length, s.position + gap.length + (digits ++ suffix).length⟩⟩,
      ⟨s.cursor.advance (gap.length + (digits ++ suffix).length), lineAfter s.line gap⟩) := by
  have hi : s.InSource := by
    obtain ⟨b, rest, hb⟩ : ∃ b rest, s.cursor.rest = b :: rest :=
      List.exists_cons_of_ne_nil (by simp [hr, hd.ne_nil])
    exact Cursor.inSource_of_rest hb
  have hl : IsLexeme (numeralKind digits suffix) (digits ++ suffix) after := hd.isLexeme hs ha
  have hn : Byte.newlines (digits ++ suffix) = 0 := (hd.isLiteral hs ha).newlines_eq_zero
  rw [next?_eq hi (room_wrapping s), next_eq hr hg hl, lineAfter_of_newlines hn,
    Cursor.advance_advance]

/-- Twenty digits that are too large, though the value accumulated from them is the largest that
fits. -/
theorem numeral_scanned_wrapped :
    (IsNumeral (Byte.ofText "36893488147419103231") ∧
      (Lexeme.digitsValue (Byte.ofText "36893488147419103231")).toNat = 2 ^ 64 - 1) ∧
    (ofText "\n36893488147419103231U;").next? .wrapping =
      some (⟨.lexError .literalTooLarge, 2, ⟨1, 22⟩⟩,
        ⟨⟨Buffer.ofText "\n36893488147419103231U;", 22⟩, 2⟩) := by
  have hd : IsNumeral (Byte.ofText "36893488147419103231") :=
    @IsNumeral.digits 51 (Byte.ofText "6893488147419103231") (by decide) (by decide +kernel)
  have hr : (ofText "\n36893488147419103231U;").cursor.rest = [Byte.newline] ++
      (Byte.ofText "36893488147419103231" ++ Byte.ofText "U" ++ Byte.ofText ";") := by
    decide +kernel
  have hg : Trivia.Stretch [Byte.newline]
      (Byte.ofText "36893488147419103231" ++ Byte.ofText "U" ++ Byte.ofText ";") :=
    .cons (.blank (by decide) _) (.nil _)
  have hs : Byte.ofText "U" ∈ unsignedSuffixes := by decide +kernel
  have ha : ∀ b ∈ (Byte.ofText ";").head?, Byte.isLiteralByte b = false := by decide +kernel
  refine ⟨⟨hd, by decide +kernel⟩, ?_⟩
  exact (numeral_scanned hr hg hd hs ha).trans (by decide +kernel)

end Scanner
end StaticAssert
