import StaticAssert.Proofs.Text.Boundaries

/-!
# Tokens stand between characters

A token is written in ASCII, or it begins in ASCII and runs to the end of the source, or it is
a single byte that is not ASCII. So all tokens but such bytes begin between characters, and
they end there, unless a comment is never closed in a text that a buffer cuts inside a
character.
-/

set_option autoImplicit false

namespace StaticAssert

namespace Byte

def Ascii (bytes : List UInt8) : Prop := ∀ b ∈ bytes, b.toNat < 128

instance : DecidablePred Ascii :=
  fun bytes => List.decidableBAll (fun b : UInt8 => b.toNat < 128) bytes

theorem toNat_lt_of_isLiteralByte {b : UInt8} (h : isLiteralByte b = true) : b.toNat < 128 := by
  have hd : dot.toNat < 128 := by decide
  have hq : quoteMark.toNat < 128 := by decide
  have hu : underscore.toNat < 128 := by decide
  simp only [isLiteralByte, isWordByte, isLetter, isUpper, isLower, isDigit, Bool.or_eq_true,
    Bool.and_eq_true, decide_eq_true_eq, UInt8.le_iff_toNat_le, beq_iff_eq] at h
  rcases h with (((((⟨-, h⟩ | ⟨-, h⟩) | ⟨-, h⟩) | rfl) | rfl) | rfl)
  · exact Nat.lt_of_le_of_lt h (by decide)
  · exact Nat.lt_of_le_of_lt h (by decide)
  · exact Nat.lt_of_le_of_lt h (by decide)
  · exact hu
  · exact hd
  · exact hq

theorem ascii_of_isLiteralByte {bytes : List UInt8} (h : ∀ b ∈ bytes, isLiteralByte b = true) :
    Ascii bytes :=
  fun b hb => toNat_lt_of_isLiteralByte (h b hb)

end Byte

section Lexemes

open Byte (Ascii)

variable {digits suffix text after : List UInt8} {unsigned : Bool}

theorem IsWord.ascii (h : IsWord text after) : Ascii text := by
  refine Byte.ascii_of_isLiteralByte fun b hb => ?_
  rw [Byte.isLiteralByte, h.run.inside b hb]
  rfl

theorem IsLiteral.ascii (h : IsLiteral digits unsigned suffix after) : Ascii (digits ++ suffix) :=
  Byte.ascii_of_isLiteralByte (Lexeme.isLiteralByte_of_isLiteral h)

def Kind.isHighByte : Kind → Bool
  | .lexError (.invalidByte b) => 128 ≤ b.toNat
  | _ => false

/-- Only a comment that is never closed contains bytes of other characters. -/
theorem IsLexeme.ascii {kind : Kind} (h : IsLexeme kind text after)
    (hk : kind.isHighByte = false) :
    Ascii text ∨ kind = .lexError .commentNotClosed ∧ after = [] ∧
      ∀ b ∈ text.head?, b.toNat < 128 := by
  cases h with
  | eof => exact .inl fun b hb => absurd hb List.not_mem_nil
  | @punct p after _ _ => exact .inl (by cases p <;> decide)
  | keyword hw => exact .inl hw.ascii
  | name hw _ _ => exact .inl hw.ascii
  | nameTooLong hw _ => exact .inl hw.ascii
  | number hd _ _ => exact .inl hd.ascii
  | literalTooLarge hd _ => exact .inl hd.ascii
  | rejected _ _ _ hl => exact .inl (Byte.ascii_of_isLiteralByte hl.inside)
  | commentNotClosed hb =>
    refine .inr ⟨rfl, rfl, ?_⟩
    rintro _ ⟨⟩
    decide
  | commentNotOpened => exact .inl (by decide)
  | invalidByte hb =>
    refine .inl (List.forall_mem_singleton.mpr ?_)
    simpa [Kind.isHighByte] using hk

variable {kind : Kind} {source : String} {before : List UInt8}

/-- Where a lexeme stands in what a buffer holds, the text can be cut before it. -/
theorem IsLexeme.isBoundary_start (h : IsLexeme kind text after) (hk : kind ≠ .eof)
    (hh : kind.isHighByte = false)
    (hs : (Buffer.ofText source).bytes = before ++ (text ++ after)) :
    Text.IsBoundary source before.length := by
  obtain ⟨b, bytes, rfl⟩ :=
    List.exists_cons_of_ne_nil (List.ne_nil_of_length_pos (h.length_pos hk))
  obtain ⟨beyond, hb⟩ := Buffer.isPrefix_ofText source
  have hb128 : b.toNat < 128 := by
    rcases h.ascii hh with ha | ⟨-, -, hf⟩
    · exact ha b List.mem_cons_self
    · exact hf b rfl
  rw [hs, List.append_assoc, List.cons_append, List.cons_append] at hb
  exact (Text.isBoundary_of_ascii hb.symm hb128).1

/-- The text can be cut behind it, too, if the buffer ends between characters or the lexeme is no
open comment. -/
theorem IsLexeme.isBoundary_stop (h : IsLexeme kind text after) (hk : kind ≠ .eof)
    (hh : kind.isHighByte = false)
    (hs : (Buffer.ofText source).bytes = before ++ (text ++ after))
    (hc : kind ≠ .lexError .commentNotClosed ∨
      Text.IsBoundary source (Buffer.ofText source).size) :
    Text.IsBoundary source (before.length + text.length) := by
  rcases h.ascii hh with ha | ⟨rfl, rfl, -⟩
  · obtain ⟨bytes, b, rfl⟩ := (List.eq_nil_or_concat text).resolve_left
      (List.ne_nil_of_length_pos (h.length_pos hk))
    obtain ⟨beyond, hb⟩ := Buffer.isPrefix_ofText source
    rw [List.concat_eq_append] at ha hs ⊢
    have hb' : Byte.ofText source = (before ++ bytes) ++ b :: (after ++ beyond) := by
      rw [← hb, hs]
      simp only [List.append_assoc, List.cons_append, List.nil_append]
    have hp := (Text.isBoundary_of_ascii hb' (ha b (List.mem_append_right _ List.mem_cons_self))).2
    rw [List.length_append, Nat.add_assoc] at hp
    rwa [List.length_append, List.length_singleton]
  · have hp := hc.resolve_left (fun hn => hn rfl)
    rwa [Buffer.size, hs, List.append_nil, List.length_append] at hp

end Lexemes

end StaticAssert
