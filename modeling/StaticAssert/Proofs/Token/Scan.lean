import StaticAssert.Proofs.Token.Reading
import StaticAssert.Token.Scanner

/-!
# Scanning as a derivation

The tokens of some bytes are found by taking stretches and lexemes in turn until a
stretch is all that is left. Every scanner gives the tokens that are derived for the
bytes before it, and no others are derived; so what holds of tokens can be proved along
the derivation, and tokens can be found by deriving them.
-/

set_option autoImplicit false

namespace StaticAssert

/-- The tokens of some bytes, the first of which stands at a position and on a line. -/
inductive Scans : Nat → UInt32 → List UInt8 → List Token → Prop where
  | finish {position : Nat} {line : UInt32} {gap : List UInt8} (hg : Trivia.Stretch gap []) :
      Scans position line gap []
  | token {position : Nat} {line : UInt32} {gap text after : List UInt8} {kind : Kind}
      {tokens : List Token} (hg : Trivia.Stretch gap (text ++ after))
      (hl : IsLexeme kind text after) (hk : kind ≠ .eof)
      (ht : Scans (position + gap.length + text.length)
        (lineAfter (lineAfter line gap) text) after tokens) :
      Scans position line (gap ++ (text ++ after))
        (⟨kind, (lineAfter line gap).toNat,
          ⟨position + gap.length, position + gap.length + text.length⟩⟩ :: tokens)

theorem exists_stretch_lexeme (bytes : List UInt8) :
    ∃ gap text after kind, bytes = gap ++ (text ++ after) ∧
      Trivia.Stretch gap (text ++ after) ∧ IsLexeme kind text after := by
  have hs := Trivia.stretch_length bytes
  obtain ⟨kind, text, after, hd, hl⟩ := Lexeme.exists_isLexeme (Trivia.item?_drop_length bytes)
  rw [hd] at hs
  exact ⟨_, text, after, kind, by rw [← hd, List.take_append_drop], hs, hl⟩

theorem exists_scans (position : Nat) (line : UInt32) (bytes : List UInt8) :
    ∃ tokens, Scans position line bytes tokens := by
  induction hn : bytes.length using Nat.strong_induction_on generalizing position line bytes with
  | _ n ih =>
    obtain ⟨gap, text, after, kind, rfl, hg, hl⟩ := exists_stretch_lexeme bytes
    by_cases hk : kind = .eof
    · subst hk
      cases hl
      rw [List.append_nil, List.append_nil]
      exact ⟨[], .finish hg⟩
    · have hp := hl.length_pos hk
      have ha : after.length < n := by
        rw [← hn, List.length_append, List.length_append]
        omega
      obtain ⟨tokens, ht⟩ := ih after.length ha (position + gap.length + text.length)
        (lineAfter (lineAfter line gap) text) after rfl
      exact ⟨_, .token hg hl hk ht⟩

namespace Scanner

variable {s : Scanner} {gap text after : List UInt8} {kind : Kind}

/-- One step of scanning passes a stretch and a lexeme. -/
theorem next_eq (hr : s.cursor.rest = gap ++ (text ++ after))
    (hg : Trivia.Stretch gap (text ++ after)) (hl : IsLexeme kind text after) :
    s.next = (⟨kind, (lineAfter s.line gap).toNat,
        ⟨s.position + gap.length, s.position + gap.length + text.length⟩⟩,
      ⟨(s.cursor.advance gap.length).advance text.length,
        lineAfter (lineAfter s.line gap) text⟩) := by
  have hs : s.skip = ⟨s.cursor.advance gap.length, lineAfter s.line gap⟩ := by
    rw [skip, hr, Trivia.length_of_stretch hg (Lexeme.item?_of_isLexeme hl), advance, hr,
      List.take_left]
  have ha : (s.cursor.advance gap.length).rest = text ++ after := by
    rw [Cursor.rest_advance, hr, List.drop_left]
  simp only [next, hs, lexeme, advance, ha, Lexeme.read_of_isLexeme hl, List.take_left]
  rfl

theorem rest_next (hr : s.cursor.rest = gap ++ (text ++ after))
    (hg : Trivia.Stretch gap (text ++ after)) (hl : IsLexeme kind text after) :
    s.next.2.cursor.rest = after := by
  rw [next_eq hr hg hl, Cursor.rest_advance, Cursor.rest_advance, hr, List.drop_left,
    List.drop_left]

theorem scans_tokens (s : Scanner) : Scans s.position s.line s.cursor.rest s.tokens := by
  fun_induction tokens s with
  | case1 s h ih =>
    obtain ⟨gap, text, after, kind, hr, hg, hl⟩ := exists_stretch_lexeme s.cursor.rest
    rw [rest_next hr hg hl, next_eq hr hg hl] at ih
    rw [next_eq hr hg hl] at h ⊢
    rw [hr]
    exact .token hg hl (fun hk => by simp [Token.isEof, hk] at h) ih
  | case2 s h =>
    obtain ⟨gap, text, after, kind, hr, hg, hl⟩ := exists_stretch_lexeme s.cursor.rest
    rw [next_eq hr hg hl] at h
    obtain rfl : kind = .eof := by simpa [Token.isEof] using h
    cases hl
    rw [hr, List.append_nil, List.append_nil]
    exact .finish hg

end Scanner

end StaticAssert
