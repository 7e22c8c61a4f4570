import StaticAssert.Proofs.Token.Tiling

/-!
# Printed tokens

Tokens that are no errors can be printed: punctuators and keywords as they are spelled,
numbers in decimal, names as any text that is a name. Printed texts with blanks between
them are scanned into the tokens they were printed for, each standing on its own text.
-/

set_option autoImplicit false

namespace StaticAssert

namespace Byte

theorem ofText_injective {s t : String} (h : ofText s = ofText t) : s = t := by
  have encode (s : String) : (ofText s).toByteArray = s.toByteArray := by
    conv_rhs => rw [← String.ofList_toList (s := s)]
    exact String.toByteArray_ofList.symm
  rw [← String.toByteArray_inj, ← encode, h, encode]

theorem ofText_of_ascii {text : String} (h : ∀ c ∈ text.toList, c.val ≤ 127) :
    ofText text = text.toList.map fun c => c.val.toUInt8 := by
  rw [ofText, List.map_eq_flatMap]
  apply List.flatMap_congr
  intro c hc
  exact String.utf8EncodeChar_eq_singleton (Char.utf8Size_eq_one_iff.mpr (h c hc))

theorem toUInt8_bounds {v low high : UInt32} (hl : v ≥ low) (hh : v ≤ high) (ha : high ≤ 127) :
    v ≤ 127 ∧ low.toUInt8 ≤ v.toUInt8 ∧ v.toUInt8 ≤ high.toUInt8 := by
  have hn : (127 : UInt32).toNat = 127 := rfl
  simp only [ge_iff_le, UInt32.le_iff_toNat_le, UInt8.le_iff_toNat_le, UInt32.toNat_toUInt8, hn]
    at *
  omega

theorem isLetter_of_isAlpha {c : Char} (h : c.isAlpha = true) :
    c.val ≤ 127 ∧ isLetter c.val.toUInt8 = true := by
  rw [isLetter, Bool.or_eq_true]
  rcases Bool.or_eq_true_iff.mp h with h | h
  · have hc : c.val ≥ 'A'.val ∧ c.val ≤ 'Z'.val := of_decide_eq_true h
    obtain ⟨ha, hl, hh⟩ := toUInt8_bounds hc.1 hc.2 (by decide)
    exact ⟨ha, .inl (Bool.and_eq_true_iff.mpr ⟨decide_eq_true hl, decide_eq_true hh⟩)⟩
  · obtain ⟨hl, hh⟩ := Bool.and_eq_true_iff.mp h
    obtain ⟨ha, hl, hh⟩ := toUInt8_bounds (of_decide_eq_true hl) (of_decide_eq_true hh) (by decide)
    exact ⟨ha, .inr (Bool.and_eq_true_iff.mpr ⟨decide_eq_true hl, decide_eq_true hh⟩)⟩

theorem isDigit_of_isDigit {c : Char} (h : c.isDigit = true) :
    c.val ≤ 127 ∧ isDigit c.val.toUInt8 = true := by
  obtain ⟨hl, hh⟩ := Bool.and_eq_true_iff.mp h
  obtain ⟨ha, hl, hh⟩ := toUInt8_bounds (of_decide_eq_true hl) (of_decide_eq_true hh) (by decide)
  exact ⟨ha, Bool.and_eq_true_iff.mpr ⟨decide_eq_true hl, decide_eq_true hh⟩⟩

theorem isWordByte_of_isAlphanum {c : Char} (h : c.isAlphanum = true) :
    c.val ≤ 127 ∧ isWordByte c.val.toUInt8 = true := by
  rcases Bool.or_eq_true_iff.mp h with h | h
  · obtain ⟨ha, hl⟩ := isLetter_of_isAlpha h
    exact ⟨ha, by rw [isWordByte, hl, Bool.true_or, Bool.true_or]⟩
  · obtain ⟨ha, hd⟩ := isDigit_of_isDigit h
    exact ⟨ha, by rw [isWordByte, hd, Bool.or_true, Bool.true_or]⟩

end Byte

structure IsName (text : String) : Prop where
  starts : ∃ c ∈ text.toList.head?, c.isAlpha = true ∨ c = '_'
  inside : ∀ c ∈ text.toList, c.isAlphanum = true ∨ c = '_'
  short : (Byte.ofText text).length ≤ 127
  notKeyword : ∀ k : Keyword, text ≠ k.spelling

inductive Prints : Kind → String → Prop where
  | spelled {kind : Kind} {text : String} (h : kind.spelling? = some text) : Prints kind text
  | name {text : String} (h : IsName text) : Prints .name text
  | number (raw : UInt64) (unsigned : Bool) :
      Prints (.number (.ofRaw raw unsigned)) (NumberLiteral.ofRaw raw unsigned).spelling

theorem isName_underscore : IsName "_" where
  starts := ⟨'_', rfl, .inr rfl⟩
  inside := by simp
  short := by decide
  notKeyword k := by cases k <;> simp [Keyword.spelling]

/-- All that can be read can be printed, the end of input and errors apart. -/
theorem exists_prints_iff {kind : Kind} :
    (∃ text, Prints kind text) ↔
      kind ≠ .eof ∧ (∀ e, kind ≠ .lexError e) ∧
      ∀ n, kind = .number n → ∃ raw unsigned, n = .ofRaw raw unsigned := by
  constructor
  · rintro ⟨text, h⟩
    cases h with
    | @spelled _ _ hs => cases kind <;> cases hs <;> simp
    | name => simp
    | number raw unsigned =>
      refine ⟨by simp, by simp, ?_⟩
      rintro n ⟨⟩
      exact ⟨raw, unsigned, rfl⟩
  · rintro ⟨he, hl, hn⟩
    cases kind with
    | eof => exact absurd rfl he
    | lexError e => exact absurd rfl (hl e)
    | name => exact ⟨"_", .name isName_underscore⟩
    | number n =>
      obtain ⟨raw, unsigned, rfl⟩ := hn n rfl
      exact ⟨_, .number raw unsigned⟩
    | punct p => exact ⟨_, .spelled rfl⟩
    | keyword k => exact ⟨_, .spelled rfl⟩

structure Printed where
  kind : Kind
  text : String
  prints : Prints kind text

structure Separator where
  text : String
  nonempty : text ≠ ""
  blank : ∀ c ∈ text.toList, c ∈ [' ', '\t', '\r', '\n']

namespace Printed

def join (separator : Nat → Separator) : List Printed → String
  | [] => ""
  | [p] => p.text
  | p :: q :: ps =>
    p.text ++ (separator 0).text ++ join (fun n => separator (n + 1)) (q :: ps)

end Printed

namespace Lexeme

theorem isDigits_ofText_repr {n : Nat} {after : List UInt8}
    (h : ∀ b ∈ after.head?, Byte.isDigit b = false) :
    IsDigits (Byte.ofText n.repr) after := by
  by_cases hn : n = 0
  · subst hn
    exact .zero after
  · have hd := isDigit_of_mem_ofText_repr (n := n)
    obtain ⟨b, digits, hr, hb⟩ := exists_ofText_repr_eq_cons hn
    rw [hr] at hd ⊢
    exact .run hb ⟨hd, h⟩

end Lexeme

def Parted (after : List UInt8) : Prop :=
  ∀ b ∈ after.head?, b ∈ Byte.whitespace

namespace Parted

variable {after : List UInt8}

theorem nil : Parted [] := by
  rintro b ⟨⟩

theorem take (h : Parted after) (n : Nat) : Parted (after.take n) := by
  intro b hb
  cases n with
  | zero => cases hb
  | succ n =>
    rw [List.head?_take] at hb
    exact h b hb

theorem stops {p : UInt8 → Bool} (h : Parted after)
    (hp : p Byte.space = false ∧ p Byte.tab = false ∧ p Byte.carriageReturn = false ∧
      p Byte.newline = false) :
    ∀ b ∈ after.head?, p b = false :=
  fun b hb => (Byte.forall_mem_whitespace (P := fun b => p b = false)).mpr hp b (h b hb)

theorem isLexeme_punct (h : Parted after) (p : Punct) : IsLexeme (.punct p) p.bytes after := by
  refine .punct ?_ ?_
  · intro b hb q hq
    have hm : b ∈ q.bytes := by simp [hq]
    exact Punct.not_mem_whitespace hm (h b hb)
  · intro _ hs
    exact absurd (h _ hs) (by decide)

theorem isLexeme_keyword (h : Parted after) (k : Keyword) :
    IsLexeme (.keyword k) k.bytes after := by
  refine .keyword ⟨?_, ?_, h.stops (by decide)⟩
  · cases k <;> exact ⟨_, rfl, by decide⟩
  · cases k <;> decide +kernel

theorem isLexeme_name (h : Parted after) {text : String} (hn : IsName text) :
    IsLexeme .name (Byte.ofText text) after := by
  have ha : ∀ c ∈ text.toList, c.val ≤ 127 := by
    intro c hc
    rcases hn.inside c hc with hw | rfl
    · exact (Byte.isWordByte_of_isAlphanum hw).1
    · decide
  have hb := Byte.ofText_of_ascii ha
  refine .name ⟨?_, ?_, h.stops (by decide)⟩ hn.short fun k hk => ?_
  · obtain ⟨c, hc, hw⟩ := hn.starts
    refine ⟨c.val.toUInt8, by simp [hb, Option.mem_def.mp hc], ?_⟩
    rcases hw with hw | rfl
    · rw [Byte.isWordStart, (Byte.isLetter_of_isAlpha hw).2, Bool.true_or]
    · decide
  · rw [hb]
    intro b hm
    obtain ⟨c, hc, rfl⟩ := List.mem_map.mp hm
    rcases hn.inside c hc with hw | rfl
    · exact (Byte.isWordByte_of_isAlphanum hw).2
    · decide
  · exact hn.notKeyword k (Byte.ofText_injective hk)

theorem isLiteral (h : Parted after) {digits suffix : List UInt8} {unsigned : Bool}
    (hd : IsDigits digits (suffix ++ after)) (hs : IsSuffix unsigned suffix after) :
    IsLiteral digits unsigned suffix after :=
  Lexeme.isLiteral_of_stops hd hs (h.stops (by decide))

theorem isSuffix (h : Parted after) (n : NumberLiteral) :
    IsSuffix n.unsigned (Byte.ofText n.suffix) after := by
  rw [NumberLiteral.suffix]
  cases n.unsigned with
  | true => exact .unsigned (by decide) after
  | false => exact .none (h.stops (by decide))

theorem not_isDigit_suffix (h : Parted after) (n : NumberLiteral) :
    ∀ b ∈ (Byte.ofText n.suffix ++ after).head?, Byte.isDigit b = false := by
  rw [NumberLiteral.suffix]
  cases n.unsigned with
  | true =>
    rintro b ⟨⟩
    decide
  | false => exact h.stops (by decide)

theorem isLexeme_number (h : Parted after) (raw : UInt64) (unsigned : Bool) :
    IsLexeme (.number (.ofRaw raw unsigned))
      (Byte.ofText (NumberLiteral.ofRaw raw unsigned).spelling) after := by
  have hv : raw.toNat = Lexeme.decimal (Byte.ofText raw.toNat.repr) :=
    (Lexeme.decimal_ofText_repr _).symm
  rw [NumberLiteral.spelling, Byte.ofText_append]
  have hd := Lexeme.isDigits_ofText_repr (n := raw.toNat)
    (h.not_isDigit_suffix (.ofRaw raw unsigned))
  refine .number (h.isLiteral hd (h.isSuffix _)) hv ?_
  rw [NumberLiteral.builtin_ofRaw, hv]
  rfl

/-- A printed text is a lexeme where a blank or the end follows it. -/
theorem isLexeme_of_prints (h : Parted after) {kind : Kind} {text : String}
    (hp : Prints kind text) : IsLexeme kind (Byte.ofText text) after := by
  cases hp with
  | spelled hs =>
    cases kind <;> cases hs
    · exact h.isLexeme_punct _
    · exact h.isLexeme_keyword _
  | name hn => exact h.isLexeme_name hn
  | number raw unsigned => exact h.isLexeme_number raw unsigned

end Parted

namespace Separator

end Separator

namespace Printed

/-- A token is of the kind that was printed and stands on the text it was printed as. -/
def Matches (bytes : List UInt8) (t : Token) (p : Printed) : Prop :=
  t.kind = p.kind ∧ t.span.slice bytes = Byte.ofText p.text

theorem kind_ne_eof (p : Printed) : p.kind ≠ .eof := (exists_prints_iff.mp ⟨_, p.prints⟩).1

def Scanned (ps : List Printed) (bytes tail : List UInt8) : Prop :=
  -- Some printed text, with a tail behind it, is derived to be scanned into what it was printed
  -- for, and behind that into what the tail gives. The tail may be less than what follows the
  -- text.
  ∀ (before beyond : List UInt8) (line : UInt32), ∃ tokens more,
    Scans before.length line (bytes ++ tail) (tokens ++ more) ∧
    List.Forall₂ (Matches (before ++ (bytes ++ beyond))) tokens ps ∧ (tail = [] → more = [])

variable {ps : List Printed} {gap after tail : List UInt8}

theorem Scanned.nil (hg : ∀ b ∈ gap, b ∈ Byte.whitespace) (tail : List UInt8) :
    Scanned [] gap tail := by
  intro before beyond line
  by_cases ht : tail = []
  · subst ht
    rw [List.append_nil]
    exact ⟨[], [], .finish (Trivia.stretch_of_blank hg []), .nil, fun _ => rfl⟩
  · obtain ⟨more, hs⟩ := exists_scans before.length line (gap ++ tail)
    exact ⟨[], more, hs, .nil, fun h => absurd h ht⟩

theorem Scanned.cons (p : Printed) (hg : ∀ b ∈ gap, b ∈ Byte.whitespace)
    (ha : Parted (after ++ tail)) (h : Scanned ps after tail) :
    Scanned (p :: ps) (gap ++ (Byte.ofText p.text ++ after)) tail := by
  intro before beyond line
  have hb (x : List UInt8) : gap ++ (Byte.ofText p.text ++ after) ++ x =
      gap ++ (Byte.ofText p.text ++ (after ++ x)) := by
    simp only [List.append_assoc]
  have hx : before ++ (gap ++ (Byte.ofText p.text ++ (after ++ beyond))) =
      (before ++ gap ++ Byte.ofText p.text) ++ (after ++ beyond) := by
    simp only [List.append_assoc]
  obtain ⟨tokens, more, hs, hm, hn⟩ := h (before ++ gap ++ Byte.ofText p.text) beyond
    (lineAfter (lineAfter line gap) (Byte.ofText p.text))
  rw [List.length_append, List.length_append] at hs
  rw [hb, hb]
  refine ⟨_ :: tokens, more, .token (Trivia.stretch_of_blank hg _)
    (ha.isLexeme_of_prints p.prints) p.kind_ne_eof hs, .cons ⟨rfl, ?_⟩ (by rwa [hx]), hn⟩
  rw [← List.append_assoc, ← List.length_append, Span.slice_append]

end Printed

end StaticAssert
