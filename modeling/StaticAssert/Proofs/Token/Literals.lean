import StaticAssert.Proofs.Token.Grammar

/-!
# Literals

What is read from a digit on, against the lexical grammar. A literal is its digits and
its suffix unless it is rejected, and the byte behind the digits and the one behind the
suffix decide whether and why it is. Digits and suffixes can be found at the head of any
bytes that begin with a digit, so that some literal always stands there.
-/

set_option autoImplicit false

namespace StaticAssert

theorem Byte.eq_of_isLetterOf {capital : Char} {b : UInt8} (h : Byte.isLetterOf capital b = true) :
    b = UInt8.ofNat capital.toNat ∨ b = UInt8.ofNat (capital.toNat + 32) := by
  simp only [Byte.isLetterOf, Bool.or_eq_true, beq_iff_eq] at h
  rcases h with h | h
  · exact .inl (by rw [← h, UInt8.ofNat_toNat])
  · exact .inr (by rw [← h, UInt8.ofNat_toNat])

theorem Byte.isLiteralByte_of_isLetterOf {capital : Char}
    (hc : 65 ≤ capital.toNat ∧ capital.toNat ≤ 90) {b : UInt8}
    (h : Byte.isLetterOf capital b = true) : Byte.isLiteralByte b = true := by
  have hl : Byte.isLetter b = true := by
    simp only [Byte.isLetterOf, Bool.or_eq_true, beq_iff_eq] at h
    simp only [Byte.isLetter, Byte.isUpper, Byte.isLower, Bool.or_eq_true, Bool.and_eq_true,
      decide_eq_true_eq, UInt8.le_iff_toNat_le, UInt8.toNat_ofNat]
    omega
  rw [Byte.isLiteralByte, Byte.isWordByte, hl]
  rfl

theorem Byte.isLetterOf_eq_false {capital : Char}
    (hc : 65 ≤ capital.toNat ∧ capital.toNat ≤ 90) {b : UInt8}
    (h : Byte.isLiteralByte b = false) : Byte.isLetterOf capital b = false := by
  by_contra hl
  rw [isLiteralByte_of_isLetterOf hc (Bool.eq_true_of_not_eq_false hl)] at h
  cases h

theorem NumberLiteral.builtin_ofRaw (raw : UInt64) (unsigned : Bool) :
    (ofRaw raw unsigned).builtin = if raw.toNat < 2 ^ 32 then .g32 else .g64 := rfl

namespace Lexeme

variable {digits rest suffix after text : List UInt8} {unsigned : Bool} {what : RejectedLiteral}

theorem digits_of_isDigits (h : IsDigits digits rest) :
    Lexeme.digits (digits ++ rest) = digits := by
  cases h with
  | zero => rfl
  | @run b digits _ hb hr =>
    rw [Lexeme.digits, if_neg (by simpa using hb), hr.takeWhile_eq]

theorem exists_isDigits {b : UInt8} (hb : Byte.isDigit b = true) (rest : List UInt8) :
    ∃ digits after, b :: rest = digits ++ after ∧ IsDigits digits after := by
  by_cases hz : b = Byte.zero
  · subst hz
    exact ⟨[Byte.zero], rest, rfl, .zero rest⟩
  · obtain ⟨run, after, rfl, hr⟩ := Byte.Run.exists_append Byte.isDigit rest
    exact ⟨b :: run, after, rfl, .run hz ⟨List.forall_mem_cons.mpr ⟨hb, hr.inside⟩, hr.stops⟩⟩

theorem isDigit_of_mem_digits (h : IsDigits digits rest) :
    ∀ b ∈ digits, Byte.isDigit b = true := by
  cases h with
  | zero => exact List.forall_mem_singleton.mpr (by decide)
  | run hb hr => exact hr.inside

theorem isLiteralByte_of_mem_digits (h : IsDigits digits rest) :
    ∀ b ∈ digits, Byte.isLiteralByte b = true :=
  fun b hb => isLiteralByte_of_isDigit (isDigit_of_mem_digits h b hb)

theorem isLiteralByte_of_mem_suffix (h : IsSuffix unsigned suffix after) :
    ∀ b ∈ suffix, Byte.isLiteralByte b = true := by
  cases h with
  | unsigned hb =>
    exact List.forall_mem_singleton.mpr (Byte.isLiteralByte_of_isLetterOf (by decide) hb)
  | none => exact List.forall_mem_nil _

theorem isLiteralByte_of_isLiteral (h : IsLiteral digits unsigned suffix after) :
    ∀ b ∈ digits ++ suffix, Byte.isLiteralByte b = true :=
  List.forall_mem_append.mpr
    ⟨isLiteralByte_of_mem_digits h.leading, isLiteralByte_of_mem_suffix h.trailing⟩

theorem exists_digits_eq_cons (h : IsDigits digits rest) :
    ∃ b more, digits = b :: more ∧ Byte.isDigit b = true := by
  cases h with
  | zero => exact ⟨Byte.zero, [], rfl, by decide⟩
  | @run b more _ hb hr => exact ⟨b, more, rfl, hr.inside b List.mem_cons_self⟩

theorem hasUnsignedSuffix_of_isSuffix (h : IsSuffix unsigned suffix after) :
    hasUnsignedSuffix (suffix ++ after) = unsigned ∧ suffix.length = unsigned.toNat := by
  cases h with
  | unsigned hb => exact ⟨hb, rfl⟩
  | none ha =>
    refine ⟨?_, rfl⟩
    cases after with
    | nil => rfl
    | cons b after => exact ha b rfl

theorem exists_isSuffix (bytes : List UInt8) :
    ∃ unsigned suffix after, bytes = suffix ++ after ∧ IsSuffix unsigned suffix after := by
  cases bytes with
  | nil => exact ⟨false, [], [], rfl, .none (by simp)⟩
  | cons b rest =>
    cases hb : Byte.isLetterOf 'U' b with
    | true => exact ⟨true, [b], rest, rfl, .unsigned hb rest⟩
    | false =>
      refine ⟨false, [], b :: rest, rfl, .none ?_⟩
      rintro c ⟨⟩
      exact hb

theorem hasLongSuffix_of_isSuffix (h : IsSuffix unsigned suffix after) :
    hasLongSuffix (suffix ++ after) = after.head?.any (Byte.isLetterOf 'L') := by
  rw [hasLongSuffix, (hasUnsignedSuffix_of_isSuffix h).1]
  cases h with
  | unsigned hb => rfl
  | none ha => rfl

theorem rejects_of_rejectedAfterZero? {b : UInt8} (h : rejectedAfterZero? b = some what)
    (rest : List UInt8) : Rejects [Byte.zero] (b :: rest) what := by
  unfold rejectedAfterZero? at h
  split at h
  next hb =>
    cases h
    exact .octal hb rest
  split at h
  next hb =>
    cases h
    exact .hex hb rest
  split at h
  next hb =>
    cases h
    exact .binary hb rest
  split at h
  next hb =>
    cases h
    rw [eq_of_beq hb]
    exact .float _ rest
  split at h
  next hb =>
    cases h
    rw [eq_of_beq hb]
    exact .digitSeparator _ rest
  next => cases h

theorem rejects_of_rejectedAfterDigits? {b : UInt8} (h : rejectedAfterDigits? b = some what)
    (digits rest : List UInt8) : Rejects digits (b :: rest) what := by
  unfold rejectedAfterDigits? at h
  split at h
  next hb =>
    cases h
    rw [eq_of_beq hb]
    exact .digitSeparator _ rest
  split at h
  next hb =>
    cases h
    rw [eq_of_beq hb]
    exact .float _ rest
  next => cases h

theorem rejectedAfter?_eq_none {capital : Char} (hc : capital = 'U' ∨ capital = 'L') {b : UInt8}
    (hb : Byte.isLetterOf capital b = true) :
    rejectedAfterZero? b = none ∧ rejectedAfterDigits? b = none := by
  rcases hc with rfl | rfl <;> rcases Byte.eq_of_isLetterOf hb with rfl | rfl <;> decide

/-- The byte after the digits is looked at first, then a long suffix. -/
theorem rejection?_eq (h : IsDigits digits rest) :
    rejection? (digits ++ rest) =
      (rest.head?.bind
        (if digits = [Byte.zero] then rejectedAfterZero? else rejectedAfterDigits?)).or
      (if hasLongSuffix rest then some .longSuffix else none) := by
  have hz : ((digits ++ rest).head? == some Byte.zero) = true ↔ digits = [Byte.zero] := by
    cases h with
    | zero => simp
    | run hb hr => simp [hb]
  rw [rejection?, digits_of_isDigits h, List.drop_left]
  by_cases hd : digits = [Byte.zero]
  · rw [if_pos hd, if_pos (hz.mpr hd)]
  · rw [if_neg hd, if_neg (mt hz.mp hd)]

theorem rejects_of_rejection? (hd : IsDigits digits rest)
    (h : rejection? (digits ++ rest) = some what) : Rejects digits rest what := by
  rw [rejection?_eq hd, Option.or_eq_some_iff] at h
  rcases h with h | ⟨-, h⟩
  · obtain ⟨b, hb, hw⟩ := Option.bind_eq_some_iff.mp h
    obtain ⟨rest, rfl⟩ := List.head?_eq_some_iff.mp hb
    split at hw
    next hz =>
      rw [hz]
      exact rejects_of_rejectedAfterZero? hw rest
    next => exact rejects_of_rejectedAfterDigits? hw digits rest
  · split at h
    next hl =>
      cases h
      obtain ⟨unsigned, suffix, after, rfl, hs⟩ := exists_isSuffix rest
      rw [hasLongSuffix_of_isSuffix hs, Option.any_eq_true] at hl
      obtain ⟨b, hb, hL⟩ := hl
      obtain ⟨more, rfl⟩ := List.head?_eq_some_iff.mp hb
      exact .longSuffix digits hs hL
    next => cases h

theorem rejection?_of_rejects (hd : IsDigits digits rest) (h : Rejects digits rest what) :
    rejection? (digits ++ rest) = some what := by
  rw [rejection?_eq hd]
  cases h with
  | octal hb => simp [rejectedAfterZero?, hb]
  | hex hb => rcases Byte.eq_of_isLetterOf hb with rfl | rfl <;> rfl
  | binary hb => rcases Byte.eq_of_isLetterOf hb with rfl | rfl <;> rfl
  | float => split <;> rfl
  | digitSeparator => split <;> rfl
  | @longSuffix _ unsigned suffix b more hs hb =>
    have hl : hasLongSuffix (suffix ++ b :: more) = true := by
      rw [hasLongSuffix_of_isSuffix hs]
      exact hb
    have hn : (suffix ++ b :: more).head?.bind
        (if digits = [Byte.zero] then rejectedAfterZero? else rejectedAfterDigits?) = none := by
      cases hs with
      | unsigned hu => split <;> simp [rejectedAfter?_eq_none (.inl rfl) hu]
      | none => split <;> simp [rejectedAfter?_eq_none (.inr rfl) hb]
    rw [hn, hl]
    rfl

theorem rejection?_eq_none_iff (h : IsDigits digits rest) :
    rejection? (digits ++ rest) = none ↔ ∀ what, ¬ Rejects digits rest what := by
  rw [Option.eq_none_iff_forall_ne_some]
  exact forall_congr' fun what =>
    not_congr ⟨rejects_of_rejection? h, rejection?_of_rejects h⟩

theorem isDigit_eq_false {b : UInt8} (h : Byte.isLiteralByte b = false) :
    Byte.isDigit b = false := by
  by_contra hd
  rw [isLiteralByte_of_isDigit (Bool.eq_true_of_not_eq_false hd)] at h
  cases h

theorem rejectedAfter?_of_not_isLiteralByte {b : UInt8} (hb : Byte.isLiteralByte b = false) :
    rejectedAfterZero? b = none ∧ rejectedAfterDigits? b = none := by
  have hx : Byte.isLetterOf 'X' b = false := Byte.isLetterOf_eq_false (by decide) hb
  have hB : Byte.isLetterOf 'B' b = false := Byte.isLetterOf_eq_false (by decide) hb
  have hd := isDigit_eq_false hb
  simp only [Byte.isLiteralByte, Bool.or_eq_false_iff] at hb
  simp [rejectedAfterZero?, rejectedAfterDigits?, hd, hx, hB, hb]

/-- Digits and a suffix are a literal if nothing that could belong to one follows them. -/
theorem isLiteral_of_stops (hd : IsDigits digits (suffix ++ after))
    (hs : IsSuffix unsigned suffix after)
    (ha : ∀ b ∈ after.head?, Byte.isLiteralByte b = false) :
    IsLiteral digits unsigned suffix after := by
  refine ⟨hd, hs, (rejection?_eq_none_iff hd).mp ?_⟩
  have hl : hasLongSuffix (suffix ++ after) = false := by
    rw [hasLongSuffix_of_isSuffix hs, Option.any_eq_false]
    exact fun b hb => Byte.isLetterOf_eq_false (by decide) (ha b hb)
  have hn : ∀ b ∈ (suffix ++ after).head?,
      rejectedAfterZero? b = none ∧ rejectedAfterDigits? b = none := by
    cases hs with
    | unsigned hu =>
      rintro b ⟨⟩
      exact rejectedAfter?_eq_none (.inl rfl) hu
    | none => exact fun b hb => rejectedAfter?_of_not_isLiteralByte (ha b hb)
  rw [rejection?_eq hd, hl, Option.or_eq_none_iff, Option.bind_eq_none_iff]
  refine ⟨fun b hb => ?_, rfl⟩
  split
  · exact (hn b hb).1
  · exact (hn b hb).2

theorem tooLarge_iff_of_isDigits (h : IsDigits digits rest) :
    tooLarge digits = true ↔ 2 ^ 64 ≤ decimal digits := by
  cases h with
  | zero => decide
  | run hb hr => exact tooLarge_iff hb hr.inside

theorem toNat_digitsValue_of_isDigits (h : IsDigits digits rest) (hl : decimal digits < 2 ^ 64) :
    (digitsValue digits).toNat = decimal digits := by
  rw [toNat_digitsValue (isDigit_of_mem_digits h), Nat.mod_eq_of_lt hl]

theorem number_of_isLiteral (h : IsLiteral digits unsigned suffix after) :
    number (digits ++ suffix ++ after) =
      ⟨integerKind digits unsigned, (digits ++ suffix).length⟩ := by
  obtain ⟨hu, hl⟩ := hasUnsignedSuffix_of_isSuffix h.trailing
  have hr := (rejection?_eq_none_iff h.leading).mpr h.accepted
  rw [List.append_assoc, number, hr, digits_of_isDigits h.leading, List.drop_left, hu,
    List.length_append, hl]

theorem number_of_rejects (hd : IsDigits digits rest) (hr : Rejects digits rest what) :
    number (digits ++ rest) =
      ⟨.lexError (.rejected what),
        ((digits ++ rest).takeWhile Byte.isLiteralByte).length⟩ := by
  rw [number, rejection?_of_rejects hd hr]

theorem integerKind_of_lt (h : IsDigits digits rest) {n : NumberLiteral}
    (hv : n.raw.toNat = decimal digits)
    (hb : n.builtin = if decimal digits < 2 ^ 32 then .g32 else .g64) :
    integerKind digits n.unsigned = .number n := by
  have hl : decimal digits < 2 ^ 64 := hv ▸ n.raw.toNat_lt
  have hn : ¬ tooLarge digits = true := by
    rw [tooLarge_iff_of_isDigits h]
    omega
  have hr : digitsValue digits = n.raw :=
    UInt64.toNat_inj.mp ((toNat_digitsValue_of_isDigits h hl).trans hv.symm)
  rw [integerKind, if_neg hn, hr, NumberLiteral.ofRaw]
  rw [← hv, ← NumberLiteral.builtin_ofRaw n.raw n.unsigned] at hb
  rw [show Builtin.ofLiteral n.raw = n.builtin from hb.symm]

theorem exists_isLexeme_of_isDigit {b : UInt8} (hb : Byte.isDigit b = true)
    (rest : List UInt8) :
    ∃ kind text after, b :: rest = text ++ after ∧ IsLexeme kind text after := by
  obtain ⟨digits, after, he, hd⟩ := exists_isDigits hb rest
  rw [he]
  by_cases hr : ∃ what, Rejects digits after what
  · obtain ⟨what, hw⟩ := hr
    obtain ⟨text, after', ht, hl⟩ := Byte.Run.exists_append Byte.isLiteralByte (digits ++ after)
    exact ⟨_, text, after', ht, .rejected hd hw ht.symm hl⟩
  · obtain ⟨unsigned, suffix, after, rfl, hs⟩ := exists_isSuffix after
    have hl : IsLiteral digits unsigned suffix after := ⟨hd, hs, not_exists.mp hr⟩
    rw [← List.append_assoc]
    by_cases hv : decimal digits < 2 ^ 64
    · have hn : (UInt64.ofNat (decimal digits)).toNat = decimal digits :=
        Nat.mod_eq_of_lt hv
      refine ⟨.number (.ofRaw (.ofNat (decimal digits)) unsigned), _, _, rfl,
        .number hl hn ?_⟩
      rw [NumberLiteral.builtin_ofRaw, hn]
    · exact ⟨_, _, _, rfl, .literalTooLarge hl (Nat.le_of_not_lt hv)⟩

end Lexeme
end StaticAssert
