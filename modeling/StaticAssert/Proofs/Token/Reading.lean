import StaticAssert.Proofs.Token.Literals

/-!
# Reading a lexeme

What is read at the head of some bytes is what the lexical grammar gives there, and
conversely: a text of a kind, in front of what follows it, is read as that kind and in
its whole length. So the grammar gives at most one kind to the head of some bytes, and
exactly one where nothing is to be skipped.
-/

set_option autoImplicit false

namespace StaticAssert

namespace Byte

theorem isWordStart_of_isDigit {b : UInt8} (h : isDigit b = true) : isWordStart b = false := by
  have hb := isDigit_iff.mp h
  have hu : b ≠ underscore := by
    rintro rfl
    revert h
    decide
  simp [isWordStart, isLetter, isUpper, isLower, UInt8.le_iff_toNat_le, hu]
  omega

theorem isWordByte_of_isWordStart {b : UInt8} (h : isWordStart b = true) :
    isWordByte b = true := by
  simp only [isWordStart, isWordByte, Bool.or_eq_true] at *
  rcases h with h | h
  · exact .inl (.inl h)
  · exact .inr h

theorem isWordByte_of_isDigit {b : UInt8} (h : isDigit b = true) : isWordByte b = true := by
  simp [isWordByte, h]

theorem not_mem_whitespace_of_isWordByte {b : UInt8} (h : isWordByte b = true) :
    b ∉ whitespace ∧ b ≠ slash := by
  have hw : ∀ c ∈ whitespace, isWordByte c = false :=
    forall_mem_whitespace.mpr (by decide)
  constructor
  · intro hb
    rw [hw b hb] at h
    cases h
  · rintro rfl
    exact absurd h (by decide)

end Byte

namespace Punct

theorem bytes_eq (p : Punct) : (∃ b, p.bytes = [b]) ∨ ∃ b c, p.bytes = [b, c] := by
  cases p <;> first | exact .inl ⟨_, rfl⟩ | exact .inr ⟨_, _, rfl⟩

theorem exists_bytes_eq_cons (p : Punct) : ∃ b rest, p.bytes = b :: rest := by
  rcases p.bytes_eq with ⟨b, h⟩ | ⟨b, c, h⟩
  · exact ⟨b, [], h⟩
  · exact ⟨b, [c], h⟩

theorem exists_bytes_eq_singleton {p : Punct} {b : UInt8} (h : p.bytes.head? = some b) :
    ∃ q : Punct, q.bytes = [b] := by
  obtain ⟨first, rest, arm, hb, ha, -⟩ := p.exists_arm?
  obtain rfl : first = b := by simpa [hb] using h
  cases arm with
  | single one => exact ⟨one, agrees_of_arm? ha⟩
  | oneOrTwo second two one => exact ⟨one, (agrees_of_arm? ha).1⟩

/-- The first byte of a punctuator begins nothing else. -/
theorem opens {p : Punct} {b : UInt8} (h : p.bytes.head? = some b) :
    b ∉ Byte.whitespace ∧ b ≠ Byte.slash ∧
      Byte.isWordStart b = false ∧ Byte.isDigit b = false := by
  cases p <;> cases h <;> decide

theorem eq_star_of_head {p : Punct} (h : p.bytes.head? = some Byte.star) : p = .star := by
  cases p <;> cases h
  rfl

theorem not_mem_whitespace {p : Punct} {b : UInt8} (h : b ∈ p.bytes) :
    b ∉ Byte.whitespace := by
  revert b
  cases p <;> decide +kernel

end Punct

namespace Lexeme

variable {kind : Kind} {text after : List UInt8}

theorem wordKind_of_le (h : text.length ≤ 127) :
    wordKind text = (Keyword.lookup? text).elim .name .keyword :=
  if_neg (Nat.not_lt.mpr h)

theorem wordKind_of_lt (h : 127 < text.length) : wordKind text = .lexError .nameTooLong :=
  if_pos h

theorem read_of_isWord (h : IsWord text after) :
    read (text ++ after) = ⟨wordKind text, text.length⟩ := by
  obtain ⟨b, hb, hw⟩ := h.starts
  obtain ⟨rest, rfl⟩ := List.head?_eq_some_iff.mp hb
  rw [List.cons_append, read, if_pos hw, ← List.cons_append, word, h.run.takeWhile_eq]

theorem read_of_isDigits {digits rest : List UInt8} (h : IsDigits digits rest) :
    read (digits ++ rest) = number (digits ++ rest) := by
  obtain ⟨b, more, rfl, hb⟩ := exists_digits_eq_cons h
  rw [List.cons_append, read, Byte.isWordStart_of_isDigit hb, if_neg Bool.false_ne_true,
    if_pos hb]

theorem read_eq_punct {b : UInt8} {rest : List UInt8} (hw : Byte.isWordStart b = false)
    (hd : Byte.isDigit b = false) (ho : b = Byte.slash → rest.head? ≠ some Byte.star)
    (hc : b = Byte.star → rest.head? ≠ some Byte.slash) :
    read (b :: rest) = punct b rest := by
  have ho' : ¬ (b == Byte.slash && rest.head? == some Byte.star) = true := by simpa using ho
  have hc' : ¬ (b == Byte.star && rest.head? == some Byte.slash) = true := by simpa using hc
  rw [read, hw, if_neg Bool.false_ne_true, hd, if_neg Bool.false_ne_true, if_neg ho', if_neg hc']

theorem read_bytes_append {p : Punct} (hc : p = .star → after.head? ≠ some Byte.slash)
    (hl : ∀ b ∈ after.head?, ∀ q : Punct, q.bytes ≠ p.bytes ++ [b]) :
    read (p.bytes ++ after) = ⟨.punct p, p.bytes.length⟩ := by
  obtain ⟨first, rest, arm, hb, ha, hp⟩ := Punct.choose_of_longest hl
  have hh : p.bytes.head? = some first := by rw [hb, List.head?_cons]
  obtain ⟨-, hs, hw, hd⟩ := Punct.opens hh
  have hr : read (first :: (rest ++ after)) = punct first (rest ++ after) := by
    apply read_eq_punct hw hd (fun he => absurd he hs)
    rintro rfl
    obtain rfl := Punct.eq_star_of_head hh
    cases hb
    exact hc rfl
  have hk : punct first (rest ++ after) = ⟨.punct p, p.bytes.length⟩ := by
    rw [punct, ha]
    simp only [hp]
  rw [← hk, ← hr, hb, List.cons_append]

theorem punct_of_isStray {b : UInt8} (h : IsStray b after) :
    punct b after = ⟨.lexError (.invalidByte b), 1⟩ := by
  rw [punct, Punct.arm?_eq_none_iff.mpr h.notPunct]

/-- A lexeme is read as its kind and in its whole length. -/
theorem read_of_isLexeme (h : IsLexeme kind text after) :
    read (text ++ after) = ⟨kind, text.length⟩ := by
  cases h with
  | eof => rfl
  | punct longest notClosing => exact read_bytes_append notClosing longest
  | @keyword k _ hw =>
    have hl : k.bytes.length ≤ 127 := by
      cases k <;> decide
    rw [read_of_isWord hw, wordKind_of_le hl, Keyword.lookup?_eq_some_iff.mpr rfl]
    rfl
  | name hw hl hk =>
    have hn : Keyword.lookup? text = none := by
      rw [Option.eq_none_iff_forall_ne_some]
      exact fun k h => hk k (Keyword.lookup?_eq_some_iff.mp h).symm
    rw [read_of_isWord hw, wordKind_of_le hl, hn]
    rfl
  | nameTooLong hw hl => rw [read_of_isWord hw, wordKind_of_lt hl]
  | number hd hv hb =>
    rw [List.append_assoc, read_of_isDigits hd.leading, ← List.append_assoc,
      number_of_isLiteral hd, integerKind_of_lt hd.leading hv hb]
  | literalTooLarge hd hv =>
    rw [List.append_assoc, read_of_isDigits hd.leading, ← List.append_assoc,
      number_of_isLiteral hd, integerKind, if_pos ((tooLarge_iff_of_isDigits hd.leading).mpr hv)]
  | rejected hd hr ht hl =>
    rw [ht, read_of_isDigits hd, number_of_rejects hd hr, ← ht, hl.takeWhile_eq]
  | commentNotClosed hb =>
    rw [List.append_nil, read, if_neg (by decide), if_neg (by decide), if_pos (by simp)]
    rfl
  | commentNotOpened =>
    rw [List.cons_append, List.cons_append, read, if_neg (by decide), if_neg (by decide),
      if_neg (by simp; decide), if_pos (by simp)]
    rfl
  | invalidByte hb =>
    rw [List.singleton_append, read_eq_punct hb.notWord hb.notDigit
      (fun he => (hb.notComment he).2) ?_, punct_of_isStray hb]
    · rfl
    · rintro rfl
      exact absurd rfl (hb.notPunct .star)

theorem item?_eq_none {b : UInt8}
    (hb : b ∉ Byte.whitespace ∧ b ≠ Byte.slash)
    (rest : List UInt8) : Trivia.item? (b :: rest) = none := by
  have hn := mt Byte.mem_whitespace_iff.mpr hb.1
  simp [Trivia.item?, hn, hb.2]

theorem item?_of_isWord (h : IsWord text after) : Trivia.item? (text ++ after) = none := by
  obtain ⟨b, hb, hw⟩ := h.starts
  obtain ⟨rest, rfl⟩ := List.head?_eq_some_iff.mp hb
  exact item?_eq_none (Byte.not_mem_whitespace_of_isWordByte (Byte.isWordByte_of_isWordStart hw)) _

theorem item?_of_isDigits {digits rest : List UInt8} (h : IsDigits digits rest) :
    Trivia.item? (digits ++ rest) = none := by
  obtain ⟨b, more, rfl, hb⟩ := exists_digits_eq_cons h
  exact item?_eq_none (Byte.not_mem_whitespace_of_isWordByte (Byte.isWordByte_of_isDigit hb)) _

theorem item?_of_isLexeme (h : IsLexeme kind text after) :
    Trivia.item? (text ++ after) = none := by
  cases h with
  | eof => rfl
  | @punct p =>
    obtain ⟨b, rest, hb⟩ := p.exists_bytes_eq_cons
    obtain ⟨hn, hs, -, -⟩ := Punct.opens (p := p) (by rw [hb, List.head?_cons])
    rw [hb]
    exact item?_eq_none ⟨hn, hs⟩ _
  | keyword hw => exact item?_of_isWord hw
  | name hw => exact item?_of_isWord hw
  | nameTooLong hw => exact item?_of_isWord hw
  | number hd =>
    rw [List.append_assoc]
    exact item?_of_isDigits hd.leading
  | literalTooLarge hd =>
    rw [List.append_assoc]
    exact item?_of_isDigits hd.leading
  | rejected hd hr ht =>
    rw [ht]
    exact item?_of_isDigits hd
  | commentNotClosed hb =>
    rw [List.append_nil, Trivia.item?, if_neg (by decide), if_neg (by simp; decide),
      if_pos (by simp), List.drop_one, List.tail_cons, Trivia.closing?_eq_none_iff.mpr hb]
    rfl
  | commentNotOpened => exact item?_eq_none (by decide) _
  | @invalidByte b _ hb =>
    by_cases hs : b = Byte.slash
    · subst hs
      have hc := hb.notComment rfl
      simp [Trivia.item?, hc]
      decide
    · exact item?_eq_none ⟨hb.notBlank, hs⟩ _

theorem exists_isLexeme_of_isWordStart {b : UInt8} (hb : Byte.isWordStart b = true)
    (rest : List UInt8) :
    ∃ kind text after, b :: rest = text ++ after ∧ IsLexeme kind text after := by
  obtain ⟨run, after, rfl, hr⟩ := Byte.Run.exists_append Byte.isWordByte rest
  have hw : IsWord (b :: run) after :=
    ⟨⟨b, rfl, hb⟩,
      List.forall_mem_cons.mpr ⟨Byte.isWordByte_of_isWordStart hb, hr.inside⟩, hr.stops⟩
  by_cases hl : (b :: run).length ≤ 127
  · by_cases hk : ∃ k : Keyword, b :: run = k.bytes
    · obtain ⟨k, hk⟩ := hk
      rw [hk] at hw
      exact ⟨.keyword k, k.bytes, after, by rw [← hk, List.cons_append], .keyword hw⟩
    · exact ⟨.name, b :: run, after, rfl, .name hw hl (not_exists.mp hk)⟩
  · exact ⟨_, b :: run, after, rfl, .nameTooLong hw (Nat.lt_of_not_le hl)⟩

theorem exists_isLexeme_of_other {b : UInt8} {rest : List UInt8}
    (hn : b ∉ Byte.whitespace)
    (hw : Byte.isWordStart b = false) (hd : Byte.isDigit b = false)
    (ho : b = Byte.slash → rest.head? ≠ some Byte.slash ∧ rest.head? ≠ some Byte.star)
    (hc : b = Byte.star → rest.head? ≠ some Byte.slash) :
    ∃ kind text after, b :: rest = text ++ after ∧ IsLexeme kind text after := by
  -- A punctuator of two bytes comes before its first byte alone.
  by_cases hp : ∃ c ∈ rest.head?, ∃ p : Punct, p.bytes = [b, c]
  · obtain ⟨c, hh, p, hb⟩ := hp
    obtain ⟨after, rfl⟩ := List.head?_eq_some_iff.mp hh
    refine ⟨.punct p, p.bytes, after, by rw [hb]; rfl, .punct ?_ ?_⟩
    · intro d _ q hq
      rcases q.bytes_eq with ⟨e, he⟩ | ⟨e, f, he⟩ <;> rw [he, hb] at hq <;> cases hq
    · rintro rfl
      cases hb
  by_cases hq : ∃ p : Punct, p.bytes = [b]
  · obtain ⟨p, hb⟩ := hq
    refine ⟨.punct p, p.bytes, rest, by rw [hb]; rfl, .punct ?_ ?_⟩
    · intro c hh q hqb
      exact hp ⟨c, hh, q, by rw [hqb, hb]; rfl⟩
    · rintro rfl
      cases hb
      exact hc rfl
  · refine ⟨_, [b], rest, rfl, .invalidByte ⟨hn, hw, hd, ?_, ho⟩⟩
    intro p hb
    exact hq (Punct.exists_bytes_eq_singleton hb)

/-- Where nothing is skipped there is a lexeme. -/
theorem exists_isLexeme {bytes : List UInt8} (h : Trivia.item? bytes = none) :
    ∃ kind text after, bytes = text ++ after ∧ IsLexeme kind text after := by
  rcases bytes with _ | ⟨b, rest⟩
  · exact ⟨.eof, [], [], rfl, .eof⟩
  by_cases hw : Byte.isWordStart b = true
  · exact exists_isLexeme_of_isWordStart hw rest
  by_cases hd : Byte.isDigit b = true
  · exact exists_isLexeme_of_isDigit hd rest
  by_cases ho : b = Byte.slash ∧ rest.head? = some Byte.star
  · obtain ⟨rfl, hs⟩ := ho
    obtain ⟨body, rfl⟩ := List.head?_eq_some_iff.mp hs
    have hc : Trivia.closing? body = none := by
      rw [Trivia.item?, if_neg (by decide), if_neg (by simp; decide), if_pos (by simp)] at h
      simpa using h
    exact ⟨_, Byte.slash :: Byte.star :: body, [], by rw [List.append_nil],
      .commentNotClosed (Trivia.closing?_eq_none_iff.mp hc)⟩
  by_cases hc : b = Byte.star ∧ rest.head? = some Byte.slash
  · obtain ⟨rfl, hs⟩ := hc
    obtain ⟨after, rfl⟩ := List.head?_eq_some_iff.mp hs
    exact ⟨_, [Byte.star, Byte.slash], after, rfl, .commentNotOpened after⟩
  · have ho' : b = Byte.slash → rest.head? ≠ some Byte.star := fun he hs => ho ⟨he, hs⟩
    obtain ⟨hn, hl⟩ := Trivia.of_item?_eq_none h
    exact exists_isLexeme_of_other hn (Bool.eq_false_iff.mpr hw) (Bool.eq_false_iff.mpr hd)
      (fun he => ⟨hl he, ho' he⟩) (fun he hs => hc ⟨he, hs⟩)

end Lexeme

namespace IsLexeme

variable {kind kind' : Kind} {text text' after after' : List UInt8}

theorem length_pos (h : IsLexeme kind text after) (hk : kind ≠ .eof) : 0 < text.length := by
  have hr := Lexeme.read_of_isLexeme h
  rcases text with _ | ⟨b, rest⟩
  · rcases after with _ | ⟨b, rest⟩
    · cases hr
      exact absurd rfl hk
    · have hb := (Lexeme.read_length_bounds b rest).1
      rw [List.nil_append] at hr
      rw [hr] at hb
      exact hb
  · exact Nat.zero_lt_succ _

/-- The same bytes begin with one lexeme only. -/
theorem unique (h : IsLexeme kind text after) (h' : IsLexeme kind' text' after')
    (he : text ++ after = text' ++ after') : kind = kind' ∧ text = text' := by
  have hr := Lexeme.read_of_isLexeme h
  rw [he, Lexeme.read_of_isLexeme h'] at hr
  obtain ⟨rfl, hl⟩ := Lexeme.mk.inj hr
  exact ⟨rfl, (List.append_inj he hl.symm).1⟩

end IsLexeme
end StaticAssert
