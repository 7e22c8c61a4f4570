import StaticAssert.Proofs.Token.Cursor
import StaticAssert.Proofs.Token.Tiling
import StaticAssert.Token.Checked

/-!
# Turns of the checked scanner

Within a source no read of a turn fails. A turn finds the lexeme that stands at the
scanner's place, or passes something that is skipped; the lines it counts are the
newlines of what it passes, though it looks for newlines in two places only. Taking
turns until a token is found is therefore taking the next token. Where sums of lines are
checked, this holds as long as there is room for the lines to come.
-/

set_option autoImplicit false

namespace StaticAssert

namespace Byte

theorem newlines_of_class {p : UInt8 → Bool} {bytes : List UInt8} (h : ∀ b ∈ bytes, p b = true)
    (hp : p newline = false) : newlines bytes = 0 :=
  List.count_eq_zero.mpr fun hm => by simp [h newline hm] at hp

theorem newlines_takeWhile {p : UInt8 → Bool} (hp : p newline = false) (bytes : List UInt8) :
    newlines (bytes.takeWhile p) = 0 :=
  newlines_of_class (List.all_eq_true.mp List.all_takeWhile) hp

theorem any_head? (p : UInt8 → Bool) (hp : p 0 = false) (bytes : List UInt8) :
    bytes.head?.any p = p (bytes.head?.getD 0) := by
  cases bytes with
  | nil => exact hp.symm
  | cons b rest => rfl

theorem head?_getD_beq {b : UInt8} (hb : b ≠ 0) (bytes : List UInt8) :
    (bytes.head?.getD 0 == b) = (bytes.head? == some b) := by
  cases bytes with
  | nil => exact beq_false_of_ne hb.symm
  | cons c rest => rfl

theorem bind_head? {α : Type} (f : UInt8 → Option α) (hf : f 0 = none) (bytes : List UInt8) :
    bytes.head?.bind f = f (bytes.head?.getD 0) := by
  cases bytes with
  | nil => exact hf.symm
  | cons b rest => rfl

end Byte

namespace Trivia

theorem length_append_of_blank {run : List UInt8} (h : ∀ b ∈ run, Byte.isBlank b = true)
    (after : List UInt8) : length (run ++ after) = run.length + length after := by
  induction run with
  | nil => rw [List.nil_append, List.length_nil, Nat.zero_add]
  | cons b run ih =>
    obtain ⟨hb, hr⟩ := List.forall_mem_cons.mp h
    have hi : item? (b :: (run ++ after)) = some 1 := by
      rw [item?, if_pos (by simp [hb])]
    rw [List.cons_append, length_of_some hi, List.drop_one, List.tail_cons, ih hr,
      List.length_cons]
    omega

end Trivia

namespace Scanner

variable {s : Scanner} {b : UInt8} {text after : List UInt8}

theorem advance_advance (s : Scanner) (m n : Nat) :
    (s.advance m).advance n = s.advance (m + n) := by
  simp only [advance, Cursor.rest_advance, Cursor.advance_advance, List.take_add,
    lineAfter_append]

def Room (counting : Counting) (s : Scanner) : Prop :=
  -- The lines to come fit in 32 bits, if they have to.
  counting = .wrapping ∨ s.line.toNat + Byte.newlines s.cursor.rest < 2 ^ 32

variable {counting : Counting}

theorem room_wrapping (s : Scanner) : Room .wrapping s := .inl rfl

theorem Room.advance (h : Room counting s) (n : Nat) : Room counting (s.advance n) := by
  refine h.imp_right fun h => ?_
  have hn : Byte.newlines s.cursor.rest =
      Byte.newlines (s.cursor.rest.take n) + Byte.newlines (s.cursor.rest.drop n) := by
    rw [← Byte.newlines_append, List.take_append_drop]
  show (lineAfter s.line (s.cursor.rest.take n)).toNat +
    Byte.newlines (s.cursor.advance n).rest < 2 ^ 32
  rw [Cursor.rest_advance, toNat_lineAfter (by omega)]
  omega

theorem Room.add?_eq (h : Room counting s) {bytes : List UInt8}
    (hb : bytes.Sublist s.cursor.rest) :
    counting.add? s.line (Byte.newlines bytes) = some (lineAfter s.line bytes) := by
  have hc : Byte.newlines bytes ≤ Byte.newlines s.cursor.rest := hb.count_le _
  rcases h with rfl | h
  · rfl
  · cases counting with
    | wrapping => rfl
    | checked =>
      have hl : s.line.toNat + Byte.newlines bytes < 2 ^ 32 := by omega
      exact if_pos hl

def finds (s : Scanner) (lexeme : Lexeme) : Turn :=
  .found ⟨lexeme.kind, s.line.toNat, ⟨s.position, s.position + lexeme.length⟩⟩
    (s.advance lexeme.length)

theorem advance_of_newlines (hr : s.cursor.rest = text ++ after) (h : Byte.newlines text = 0) :
    s.advance text.length = ⟨s.cursor.advance text.length, s.line⟩ := by
  rw [advance, hr, List.take_left, lineAfter_of_newlines h]

theorem found_eq (hr : s.cursor.rest = text ++ after) (h : Byte.newlines text = 0) (kind : Kind) :
    s.found kind (s.cursor.advance text.length) = s.finds ⟨kind, text.length⟩ := by
  rw [finds, advance_of_newlines hr h]
  rfl

theorem found_takeWhile {p : UInt8 → Bool} (hp : p Byte.newline = false) (kind : Kind) :
    s.found kind (s.cursor.advance (s.cursor.rest.takeWhile p).length) =
      s.finds ⟨kind, (s.cursor.rest.takeWhile p).length⟩ :=
  found_eq (List.takeWhile_append_dropWhile).symm (Byte.newlines_takeWhile hp _) kind

theorem word?_eq (hr : s.cursor.rest = b :: after) (hb : Byte.isWordStart b = true) :
    s.word? = some (s.finds (Lexeme.word s.cursor.rest)) := by
  have hs : s.cursor.InSource := Cursor.inSource_of_rest hr
  have hw : ∀ x ∈ [b], Byte.isWordByte x = true :=
    List.forall_mem_singleton.mpr (Byte.isWordByte_of_isWordStart hb)
  have hr' : s.cursor.rest = [b] ++ after := hr
  have he := Cursor.eatWhile?_advance hr' hs hw (by decide)
  have ht : (s.cursor.advance (s.cursor.rest.takeWhile Byte.isWordByte).length).sliceFrom?
      s.position = some (s.cursor.rest.takeWhile Byte.isWordByte) :=
    Cursor.sliceFrom?_advance List.takeWhile_append_dropWhile.symm hs
  rw [word?, show s.cursor.advance 1 = s.cursor.advance [b].length from rfl, he,
    Option.bind_eq_bind, Option.bind_some, ht, Option.bind_eq_bind, Option.bind_some,
    found_takeWhile (by decide)]
  rfl

/-- A rejected literal is read again from its first byte, as far as literal bytes go. -/
theorem rejected?_eq (hr : s.cursor.rest = text ++ after) (hs : s.cursor.InSource)
    (ht : ∀ x ∈ text, Byte.isLiteralByte x = true) (what : RejectedLiteral) :
    s.rejected? what (s.cursor.advance text.length) =
      some (s.finds ⟨.lexError (.rejected what),
        (s.cursor.rest.takeWhile Byte.isLiteralByte).length⟩) := by
  rw [rejected?, Cursor.eatWhile?_advance hr hs ht (by decide), Option.bind_eq_bind,
    Option.bind_some, found_takeWhile (by decide)]

theorem current?_advance (hr : s.cursor.rest = text ++ after) (hs : s.cursor.InSource) :
    (s.cursor.advance text.length).current? = some (after.head?.getD 0) := by
  rw [Cursor.current?_eq _ (Cursor.inSource_advance hr hs), Cursor.rest_of_append hr]

theorem suffixed?_eq (hr : s.cursor.rest = text ++ after) (hs : s.cursor.InSource)
    (ht : ∀ x ∈ text, Byte.isLiteralByte x = true) :
    s.suffixed? text (s.cursor.advance text.length) =
      some (s.finds (if Lexeme.hasLongSuffix after then
        ⟨.lexError (.rejected .longSuffix), (s.cursor.rest.takeWhile Byte.isLiteralByte).length⟩
      else ⟨Lexeme.integerKind text (Lexeme.hasUnsignedSuffix after),
        text.length + (Lexeme.hasUnsignedSuffix after).toNat⟩)) := by
  obtain ⟨unsigned, suffix, tail, rfl, hx⟩ := Lexeme.exists_isSuffix after
  obtain ⟨hu, hn⟩ := Lexeme.hasUnsignedSuffix_of_isSuffix hx
  have hu' : Byte.isLetterOf 'U' ((suffix ++ tail).head?.getD 0) = unsigned :=
    (Byte.any_head? _ (by decide) _).symm.trans hu
  have hl : Byte.isLetterOf 'L' (tail.head?.getD 0) = Lexeme.hasLongSuffix (suffix ++ tail) := by
    rw [Lexeme.hasLongSuffix_of_isSuffix hx, Byte.any_head? _ (by decide)]
  have hb : ∀ x ∈ text ++ suffix, Byte.isLiteralByte x = true :=
    List.forall_mem_append.mpr ⟨ht, Lexeme.isLiteralByte_of_mem_suffix hx⟩
  have hm : (if unsigned then (s.cursor.advance text.length).advance 1
      else s.cursor.advance text.length) = s.cursor.advance (text ++ suffix).length := by
    rw [List.length_append, hn]
    cases unsigned <;> rfl
  have hr' : s.cursor.rest = (text ++ suffix) ++ tail := by rw [hr, List.append_assoc]
  simp only [suffixed?, current?_advance hr hs, Option.bind_eq_bind, Option.bind_some, hu', hm,
    current?_advance hr' hs, hl, hu]
  cases Lexeme.hasLongSuffix (suffix ++ tail) with
  | true => exact rejected?_eq hr' hs hb .longSuffix
  | false =>
    have hz : Byte.newlines (text ++ suffix) = 0 := Byte.newlines_of_class hb (by decide)
    rw [← hn, ← List.length_append]
    exact congrArg some (found_eq hr' hz _)

theorem number?_eq (hr : s.cursor.rest = b :: after) (hb : Byte.isDigit b = true) :
    s.number? = some (s.finds (Lexeme.number s.cursor.rest)) := by
  have hs : s.cursor.InSource := Cursor.inSource_of_rest hr
  obtain ⟨digits, tail, he, hd⟩ := Lexeme.exists_isDigits hb after
  have hr' : s.cursor.rest = digits ++ tail := hr.trans he
  have hl : ∀ x ∈ digits, Byte.isLiteralByte x = true := Lexeme.isLiteralByte_of_mem_digits hd
  have hz : (b == Byte.zero) = true ↔ digits = [Byte.zero] := by
    cases hd with
    | zero => simpa using (List.cons.inj he).1
    | run hn =>
      obtain ⟨rfl, -⟩ := List.cons.inj he
      simp [hn]
  have hc : (s.cursor.advance digits.length).sliceFrom? s.position = some digits :=
    Cursor.sliceFrom?_advance hr' hs
  obtain ⟨reject, hreject⟩ : ∃ f, f = if digits = [Byte.zero] then Lexeme.rejectedAfterZero?
    else Lexeme.rejectedAfterDigits? := ⟨_, rfl⟩
  have hf : reject 0 = none := by
    rw [hreject]
    split <;> rfl
  have hk := Lexeme.rejection?_eq hd
  rw [← hreject, Byte.bind_head? _ hf] at hk
  have hn : s.number? = (reject (tail.head?.getD 0)).elim
      (s.suffixed? digits (s.cursor.advance digits.length))
      (fun what => s.rejected? what (s.cursor.advance digits.length)) := by
    by_cases h : digits = [Byte.zero]
    · have ha : s.cursor.advance 1 = s.cursor.advance digits.length := by rw [h]; rfl
      simp only [number?, Cursor.current?_of_rest hr, Option.bind_eq_bind, Option.bind_some,
        if_pos (hz.mpr h), ha, hc, current?_advance hr' hs, hreject, if_pos h]
      cases Lexeme.rejectedAfterZero? (tail.head?.getD 0) <;> rfl
    · have ha : s.cursor.eatWhile? Byte.isDigit = some (s.cursor.advance digits.length) := by
        cases hd with
        | zero => exact absurd rfl h
        | run _ hw => rw [Cursor.eatWhile?_eq hs (by decide), hr', hw.takeWhile_eq]
      simp only [number?, Cursor.current?_of_rest hr, Option.bind_eq_bind, Option.bind_some,
        if_neg (mt hz.mp h), ha, hc, current?_advance hr' hs, hreject, if_neg h]
      cases Lexeme.rejectedAfterDigits? (tail.head?.getD 0) <;> rfl
  rw [hn]
  cases hw : reject (tail.head?.getD 0) with
  | some what =>
    rw [hw, Option.some_or] at hk
    rw [Lexeme.number, hr', hk, ← hr']
    exact rejected?_eq hr' hs hl what
  | none =>
    rw [hw, Option.none_or] at hk
    refine (suffixed?_eq hr' hs hl).trans ?_
    rw [Lexeme.number, hr', hk, Lexeme.digits_of_isDigits hd, List.drop_left]
    cases Lexeme.hasLongSuffix tail <;> rfl

/-- No punctuator holds a newline or a byte of the padding. -/
theorem ne_of_mem_bytes {p : Punct} {x : UInt8} (h : x ∈ p.bytes) : x ≠ 0 ∧ x ≠ Byte.newline := by
  revert x
  cases p <;> decide +kernel

theorem single_eq (hr : s.cursor.rest = b :: after) (hb : b ≠ Byte.newline) (p : Punct) :
    s.single p = s.finds ⟨.punct p, 1⟩ := by
  have hr' : s.cursor.rest = [b] ++ after := hr
  exact found_eq hr' (List.count_eq_zero.mpr (by simpa using hb.symm)) _

theorem star?_eq (hr : s.cursor.rest = Byte.star :: after) :
    s.star? = some (s.finds (if after.head? == some Byte.slash then
      ⟨.lexError .commentNotOpened, 2⟩ else ⟨.punct .star, 1⟩)) := by
  rw [star?, Cursor.peek?_of_rest hr, Option.bind_eq_bind, Option.bind_some,
    Byte.head?_getD_beq (by decide)]
  by_cases hs : after.head? = some Byte.slash
  · obtain ⟨tail, rfl⟩ := List.head?_eq_some_iff.mp hs
    have hr' : s.cursor.rest = [Byte.star, Byte.slash] ++ tail := hr
    rw [if_pos (by simp), if_pos (by simp)]
    exact congrArg some (found_eq hr' rfl _)
  · rw [if_neg (by simpa using hs), if_neg (by simpa using hs), single_eq hr (by decide)]

theorem oneOrTwo?_eq {second : UInt8} {two one : Punct} (hr : s.cursor.rest = b :: after)
    (h : (Arm.oneOrTwo second two one).Agrees b) :
    s.oneOrTwo? second two one = some (s.finds
      ⟨.punct ((Arm.oneOrTwo second two one).choose after.head?).1,
        ((Arm.oneOrTwo second two one).choose after.head?).2⟩) := by
  obtain ⟨-, ht⟩ := h
  have hb := ne_of_mem_bytes (p := two) (x := b) (by simp [ht])
  have hs := ne_of_mem_bytes (p := two) (x := second) (by simp [ht])
  rw [oneOrTwo?, Cursor.peek?_of_rest hr, Option.bind_eq_bind, Option.bind_some,
    Byte.head?_getD_beq hs.1, Arm.choose]
  by_cases hc : after.head? = some second
  · obtain ⟨tail, rfl⟩ := List.head?_eq_some_iff.mp hc
    have hr' : s.cursor.rest = [b, second] ++ tail := hr
    have hn : Byte.newlines [b, second] = 0 :=
      List.count_eq_zero.mpr (by simp [hb.2.symm, hs.2.symm])
    rw [if_pos (by simp), if_pos (by simp)]
    exact congrArg some (found_eq hr' hn _)
  · rw [if_neg (by simpa using hc), if_neg (by simpa using hc), single_eq hr hb.2]

theorem punct?_eq (hr : s.cursor.rest = b :: after) (hb : b ≠ Byte.newline) :
    s.punct? b = some (s.finds
      (if b == Byte.star && after.head? == some Byte.slash then ⟨.lexError .commentNotOpened, 2⟩
      else Lexeme.punct b after)) := by
  rw [punct?]
  by_cases hs : b = Byte.star
  · subst hs
    rw [if_pos (by decide), star?_eq hr]
    rfl
  rw [if_neg (by simpa using hs), if_neg (by simp [hs]), Lexeme.punct]
  cases ha : Punct.arm? b with
  | none =>
    have hr' : s.cursor.rest = [b] ++ after := hr
    exact congrArg some (found_eq hr' (List.count_eq_zero.mpr (by simpa using hb.symm)) _)
  | some arm =>
    cases arm with
    | single one => exact congrArg some (single_eq hr hb one)
    | oneOrTwo second two one => exact oneOrTwo?_eq hr (Punct.agrees_of_arm? ha)

theorem slash?_of_slash (hr : s.cursor.rest = Byte.slash :: Byte.slash :: after) :
    s.slash? counting = some (.passed
      (s.advance (s.cursor.rest.takeWhile (· != Byte.newline)).length)) := by
  have hl := advance_of_newlines (s := s)
    (List.takeWhile_append_dropWhile (p := (· != Byte.newline))).symm
    (Byte.newlines_takeWhile (by decide) _)
  rw [slash?, Cursor.peek?_of_rest hr, Cursor.eatLine?_eq (Cursor.inSource_of_rest hr), hl]
  rfl

theorem slash?_of_star (hr : s.cursor.rest = Byte.slash :: Byte.star :: after)
    (h : Room counting s) :
    s.slash? counting = some ((Trivia.closing? after).elim
      (s.finds ⟨.lexError .commentNotClosed, s.cursor.rest.length⟩)
      fun n => .passed (s.advance (2 + n))) := by
  have hi : s.cursor.InSource := Cursor.inSource_of_rest hr
  have hr' : s.cursor.rest = [Byte.slash, Byte.star] ++ after := hr
  have ha : (s.cursor.advance 2).rest = after := Cursor.rest_of_append hr'
  have hs : (s.cursor.advance 2).InSource := Cursor.inSource_advance hr' hi
  have ho : s.advance 2 = ⟨s.cursor.advance 2, s.line⟩ := advance_of_newlines hr' rfl
  have hsub : after.Sublist s.cursor.rest := by
    rw [hr']
    exact List.sublist_append_right _ _
  have hb : s.slash? counting = s.comment? counting := by
    rw [slash?, Cursor.peek?_of_rest hr]
    rfl
  rw [hb, comment?, Cursor.eatBlockComment?_eq hs (Nat.succ_pos _), Cursor.commentEnd, ha]
  cases Trivia.closing? after with
  | some n =>
    have hm : s.advance (2 + n) =
        ⟨(s.cursor.advance 2).advance n, lineAfter s.line (after.take n)⟩ := by
      rw [← advance_advance, ho, advance, ha]
    simp only [Option.bind_eq_bind, Option.bind_some, Option.elim_some, Nat.zero_add,
      h.add?_eq ((List.take_sublist n after).trans hsub), if_true, hm]
  | none =>
    have hp : s.position + s.cursor.rest.length = s.cursor.buffer.size := by
      rw [Cursor.length_rest]
      exact Nat.add_sub_of_le hi
    have hn : lineAfter s.line s.cursor.rest = lineAfter s.line after := by
      have ho : lineAfter s.line [Byte.slash, Byte.star] = s.line := lineAfter_of_newlines rfl _
      rw [hr', lineAfter_append, ho]
    have hm : s.cursor.moveToEnd = s.cursor.advance s.cursor.rest.length := by
      rw [Cursor.moveToEnd, ← hp]
      rfl
    simp only [Option.bind_eq_bind, Option.bind_some, Option.elim_none, Nat.zero_add,
      h.add?_eq hsub, Bool.false_eq_true, if_false, finds, advance, List.take_length, hn, hp, ← hm]
    rfl

theorem slash?_of_ne (hr : s.cursor.rest = Byte.slash :: after)
    (hl : after.head? ≠ some Byte.slash) (hb : after.head? ≠ some Byte.star) :
    s.slash? counting = some (s.finds s.lexeme) := by
  have hx : IsStray Byte.slash after :=
    ⟨by decide, by decide, by decide, fun p hp => (Punct.opens hp).2.1 rfl, fun _ => ⟨hl, hb⟩⟩
  have hk : s.lexeme = ⟨.lexError (.invalidByte Byte.slash), 1⟩ := by
    rw [lexeme, hr]
    exact Lexeme.read_of_isLexeme (.invalidByte hx)
  rw [slash?, Cursor.peek?_of_rest hr, Option.bind_eq_bind, Option.bind_some,
    Byte.head?_getD_beq (by decide), if_neg (by simpa using hl), Byte.head?_getD_beq (by decide),
    if_neg (by simpa using hb), hk]
  have hr' : s.cursor.rest = [Byte.slash] ++ after := hr
  exact congrArg some (found_eq hr' rfl _)

theorem turn?_of_none (h : s.InSource) (hroom : Room counting s)
    (hi : Trivia.item? s.cursor.rest = none) :
    s.turn? counting = some (s.finds s.lexeme) := by
  cases hr : s.cursor.rest with
  | nil =>
    have he : s.cursor.atEnd = true := by rw [Cursor.atEnd_eq, hr]; rfl
    have hl : s.lexeme = ⟨.eof, 0⟩ := by rw [lexeme, hr]; rfl
    rw [turn?, Cursor.current?_eq _ h, Option.bind_eq_bind, Option.bind_some, if_pos he, hl]
    have hr' : s.cursor.rest = [] ++ s.cursor.rest := rfl
    exact congrArg some (found_eq hr' rfl .eof)
  | cons b after =>
    have he : s.cursor.atEnd = false := by rw [Cursor.atEnd_eq, hr]; rfl
    rw [hr] at hi
    obtain ⟨hb, hs⟩ := Trivia.of_item?_eq_none hi
    rw [Byte.mem_whitespace_iff, Bool.or_eq_true, not_or] at hb
    rw [turn?, Cursor.current?_of_rest hr, Option.bind_eq_bind, Option.bind_some, he,
      if_neg Bool.false_ne_true, if_neg hb.1, if_neg hb.2]
    by_cases hc : b = Byte.slash
    · subst hc
      rw [if_pos (by decide)]
      by_cases ho : after.head? = some Byte.star
      · obtain ⟨body, rfl⟩ := List.head?_eq_some_iff.mp ho
        have hn : Trivia.closing? body = none := Option.map_eq_none_iff.mp hi
        have hl : s.lexeme = ⟨.lexError .commentNotClosed, s.cursor.rest.length⟩ := by
          have hx := IsLexeme.commentNotClosed (Trivia.closing?_eq_none_iff.mp hn)
          rw [lexeme, hr, ← Lexeme.read_of_isLexeme hx, List.append_nil]
        rw [slash?_of_star hr hroom, hn, Option.elim_none, hl]
      · exact slash?_of_ne hr (hs rfl) ho
    rw [if_neg (by simpa using hc), lexeme, hr, Lexeme.read, ← hr]
    by_cases hw : Byte.isWordStart b = true
    · rw [if_pos hw, if_pos hw, word?_eq hr hw]
    rw [if_neg hw, if_neg hw]
    by_cases hd : Byte.isDigit b = true
    · rw [if_pos hd, if_pos hd, number?_eq hr hd]
    rw [if_neg hd, if_neg hd, if_neg (by simp [hc])]
    exact punct?_eq hr (by simpa using hb.2)

theorem exists_turn?_of_blank (hr : s.cursor.rest = b :: after) (hb : Byte.isBlank b = true) :
    ∃ m, 0 < m ∧ s.turn? counting = some (.passed (s.advance m)) ∧
      Trivia.length s.cursor.rest = m + Trivia.length (s.cursor.rest.drop m) := by
  have he : s.cursor.atEnd = false := by rw [Cursor.atEnd_eq, hr]; rfl
  obtain ⟨run, tail, ht, hw⟩ := Byte.Run.exists_append Byte.isBlank s.cursor.rest
  have hn := Byte.newlines_of_class hw.inside (by decide)
  refine ⟨run.length, ?_, ?_, ?_⟩
  · rw [← hw.takeWhile_eq, ← ht, hr]
    exact Lexeme.takeWhile_length_pos hb
  · rw [turn?, Cursor.current?_of_rest hr, Option.bind_eq_bind, Option.bind_some, he,
      if_neg Bool.false_ne_true, if_pos hb,
      Cursor.eatWhile?_eq (Cursor.inSource_of_rest hr) (by decide), ht, hw.takeWhile_eq,
      advance_of_newlines ht hn]
    rfl
  · rw [ht, List.drop_left, Trivia.length_append_of_blank hw.inside]

theorem turn?_of_comment {n : Nat} (hr : s.cursor.rest = Byte.slash :: after)
    (hroom : Room counting s) (hi : Trivia.item? s.cursor.rest = some n) :
    s.slash? counting = some (.passed (s.advance n)) := by
  rw [hr, Trivia.item?, if_neg (by decide)] at hi
  by_cases hl : after.head? = some Byte.slash
  · obtain ⟨tail, rfl⟩ := List.head?_eq_some_iff.mp hl
    rw [if_pos (by simp), Nat.add_comm] at hi
    rw [slash?_of_slash hr, ← Option.some.inj hi, hr]
    rfl
  by_cases ho : after.head? = some Byte.star
  · obtain ⟨body, rfl⟩ := List.head?_eq_some_iff.mp ho
    rw [if_neg (by simp; decide), if_pos (by simp)] at hi
    obtain ⟨m, hm, rfl⟩ := Option.map_eq_some_iff.mp hi
    have hc : Trivia.closing? body = some m := hm
    rw [slash?_of_star hr hroom, hc, Option.elim_some]
  · rw [if_neg (by simpa using hl), if_neg (by simpa using ho)] at hi
    cases hi

theorem exists_turn?_of_some {n : Nat} (hroom : Room counting s)
    (hi : Trivia.item? s.cursor.rest = some n) :
    ∃ m, 0 < m ∧ s.turn? counting = some (.passed (s.advance m)) ∧
      Trivia.length s.cursor.rest = m + Trivia.length (s.cursor.rest.drop m) := by
  cases hr : s.cursor.rest with
  | nil =>
    rw [hr] at hi
    cases hi
  | cons b after =>
    have he : s.cursor.atEnd = false := by rw [Cursor.atEnd_eq, hr]; rfl
    by_cases hb : Byte.isBlank b = true
    · rw [← hr]
      exact exists_turn?_of_blank hr hb
    rw [← hr]
    refine ⟨n, (Trivia.item?_bounds hi).1, ?_, Trivia.length_of_some hi⟩
    rw [turn?, Cursor.current?_of_rest hr, Option.bind_eq_bind, Option.bind_some, he,
      if_neg Bool.false_ne_true, if_neg hb]
    by_cases hn : b = Byte.newline
    · subst hn
      have hl : counting.add? s.line (Byte.newlines [Byte.newline]) =
          some (lineAfter s.line [Byte.newline]) := by
        apply hroom.add?_eq
        rw [hr]
        exact List.singleton_sublist.mpr List.mem_cons_self
      rw [show Byte.newlines [Byte.newline] = 1 from rfl] at hl
      rw [hr, Trivia.item?, if_pos (by decide)] at hi
      rw [if_pos (by decide), hl, ← Option.some.inj hi, advance, hr]
      rfl
    rw [if_neg (by simpa using hn)]
    by_cases hs : b = Byte.slash
    · subst hs
      rw [if_pos (by decide)]
      exact turn?_of_comment hr hroom hi
    · rw [hr, Trivia.item?, if_neg (by simp [hb, hn]), if_neg (by simp [hs]),
        if_neg (by simp [hs])] at hi
      cases hi

/-- What is passed before the next token has no part in it. -/
theorem next_advance {m : Nat}
    (h : Trivia.length s.cursor.rest = m + Trivia.length (s.cursor.rest.drop m)) :
    (s.advance m).next = s.next := by
  have hs : (s.advance m).skip = s.skip := by
    rw [skip, skip, cursor_advance, Cursor.rest_advance, advance_advance, h]
  rw [next, next, hs]

/-- Enough turns find the next token. -/
theorem nextWithin?_eq {turns : Nat} (h : s.InSource) (hroom : Room counting s)
    (ht : s.cursor.remaining < turns) : nextWithin? turns s counting = some s.next := by
  induction turns generalizing s with
  | zero => exact absurd ht (Nat.not_lt_zero _)
  | succ turns ih =>
    cases hi : Trivia.item? s.cursor.rest with
    | none =>
      have hs : s.skip = s := by
        rw [skip, Trivia.length_of_none hi, advance, List.take_zero, lineAfter_nil]
        rfl
      have hn : s.next = (⟨s.lexeme.kind, s.line.toNat,
          ⟨s.position, s.position + s.lexeme.length⟩⟩, s.advance s.lexeme.length) := by
        rw [next, hs]
        rfl
      rw [nextWithin?, turn?_of_none h hroom hi, hn]
      rfl
    | some n =>
      obtain ⟨m, hm, hp, hl⟩ := exists_turn?_of_some hroom hi
      have hb := Trivia.length_le s.cursor.rest
      rw [hl, Cursor.length_rest, Cursor.remaining] at hb
      have hs : (s.advance m).InSource := by
        show s.cursor.position + m ≤ s.cursor.buffer.size
        have h' : s.cursor.position ≤ s.cursor.buffer.size := h
        omega
      have hr : (s.advance m).cursor.remaining < turns := by
        rw [cursor_advance, Cursor.remaining_advance, Cursor.remaining]
        rw [Cursor.remaining] at ht
        omega
      rw [nextWithin?, hp, ← next_advance hl]
      exact ih hs (hroom.advance m) hr

theorem inSource_next (h : s.InSource) : s.next.2.InSource := (exists_lexeme_next h).2

theorem Room.next (h : Room counting s) : Room counting s.next.2 := (h.advance _).advance _

/-- Within a source the checked scanner gives the next token. -/
theorem next?_eq (h : s.InSource) (hroom : Room counting s) : s.next? counting = some s.next :=
  nextWithin?_eq h hroom (Nat.lt_succ_self _)

end Scanner
end StaticAssert
