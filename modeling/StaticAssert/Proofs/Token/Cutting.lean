import StaticAssert.Proofs.Token.Joining

/-!
# Sources cut at a token

A token does not depend on how far a source goes on behind it, and what is skipped between
two tokens can as well be skipped at the end. So a source that is cut in front of a token
keeps the tokens before the cut; and the tokens behind the cut are those of what is left.
-/

set_option autoImplicit false

namespace StaticAssert

section

variable {digits suffix text after rest : List UInt8}

theorem head?_of_append {P : UInt8 → Prop} (h : ∀ b ∈ (after ++ rest).head?, P b) :
    ∀ b ∈ after.head?, P b := by
  cases after with
  | nil => nofun
  | cons b after => exact h

theorem head?_ne_of_append {b : UInt8} (h : (after ++ rest).head? ≠ some b) :
    after.head? ≠ some b := by
  cases after with
  | nil => nofun
  | cons c after => exact h

theorem Byte.Run.cut {p : UInt8 → Bool} (h : Byte.Run p text (after ++ rest)) :
    Byte.Run p text after :=
  ⟨h.inside, head?_of_append h.stops⟩

theorem Trivia.Item.cut (h : Trivia.Item text (after ++ rest)) : Trivia.Item text after := by
  generalize hx : after ++ rest = bytes at h
  cases h with
  | blank hb => exact .blank hb _
  | line hb =>
    subst hx
    exact .line hb.cut
  | block hb => exact .block hb _

theorem Trivia.Stretch.cut (h : Trivia.Stretch text (after ++ rest)) :
    Trivia.Stretch text after := by
  generalize hx : after ++ rest = bytes at h
  induction h with
  | nil => exact .nil _
  | cons hi ht ih =>
    subst hx
    rw [← List.append_assoc] at hi
    exact .cons hi.cut (ih rfl)

theorem IsWord.cut (h : IsWord text (after ++ rest)) : IsWord text after :=
  ⟨h.starts, h.run.cut⟩

theorem IsDigits.cut (h : IsDigits digits (after ++ rest)) : IsDigits digits after := by
  generalize hx : after ++ rest = bytes at h
  cases h with
  | zero => exact .zero _
  | run hb hr =>
    subst hx
    exact .run hb hr.cut

theorem IsSuffix.cut {unsigned : Bool} (h : IsSuffix unsigned suffix (after ++ rest)) :
    IsSuffix unsigned suffix after := by
  generalize hx : after ++ rest = bytes at h
  cases h with
  | unsigned hb => exact .unsigned hb _
  | none ha =>
    subst hx
    exact .none (head?_of_append ha)

/-- A literal is rejected for bytes that it takes, whatever comes behind them. -/
theorem Rejects.exists_seen {what : RejectedLiteral} (h : Rejects digits after what) :
    ∃ seen more, after = seen ++ more ∧ (∀ b ∈ seen, Byte.isLiteralByte b = true) ∧
      ∀ more', Rejects digits (seen ++ more') what := by
  cases h with
  | @octal b hb more =>
    exact ⟨[b], more, rfl, List.forall_mem_singleton.mpr (Lexeme.isLiteralByte_of_isDigit hb),
      fun more' => .octal hb more'⟩
  | @hex b hb more =>
    exact ⟨[b], more, rfl,
      List.forall_mem_singleton.mpr (Byte.isLiteralByte_of_isLetterOf (by decide) hb),
      fun more' => .hex hb more'⟩
  | @binary b hb more =>
    exact ⟨[b], more, rfl,
      List.forall_mem_singleton.mpr (Byte.isLiteralByte_of_isLetterOf (by decide) hb),
      fun more' => .binary hb more'⟩
  | float _ more =>
    exact ⟨[Byte.dot], more, rfl, List.forall_mem_singleton.mpr rfl,
      fun more' => .float digits more'⟩
  | digitSeparator _ more =>
    exact ⟨[Byte.quoteMark], more, rfl, List.forall_mem_singleton.mpr rfl,
      fun more' => .digitSeparator digits more'⟩
  | @longSuffix _ unsigned suffix b more hs hb =>
    have hL : Byte.isLiteralByte b = true := Byte.isLiteralByte_of_isLetterOf (by decide) hb
    cases hs with
    | @unsigned u hu =>
      have hU : Byte.isLiteralByte u = true := Byte.isLiteralByte_of_isLetterOf (by decide) hu
      refine ⟨[u, b], more, rfl, by simp [hU, hL], ?_⟩
      intro more'
      exact .longSuffix digits (.unsigned hu _) hb
    | none ha =>
      refine ⟨[b], more, rfl, by simp [hL], ?_⟩
      intro more'
      exact .longSuffix digits (@IsSuffix.none (b :: more') ha) hb

theorem Rejects.append {what : RejectedLiteral} (h : Rejects digits after what)
    (rest : List UInt8) : Rejects digits (after ++ rest) what := by
  obtain ⟨seen, more, rfl, -, hr⟩ := h.exists_seen
  rw [List.append_assoc]
  exact hr (more ++ rest)

theorem IsLiteral.cut {unsigned : Bool} (h : IsLiteral digits unsigned suffix (after ++ rest)) :
    IsLiteral digits unsigned suffix after where
  leading := by
    have hl := h.leading
    rw [← List.append_assoc] at hl
    exact hl.cut
  trailing := h.trailing.cut
  accepted what hr := by
    have ha := hr.append rest
    rw [List.append_assoc] at ha
    exact h.accepted what ha

theorem IsLexeme.cut_rejected {what : RejectedLiteral} {bytes : List UInt8}
    (hd : IsDigits digits bytes) (hr : Rejects digits bytes what)
    (ht : text ++ (after ++ rest) = digits ++ bytes)
    (hl : Byte.Run Byte.isLiteralByte text (after ++ rest)) :
    IsLexeme (.lexError (.rejected what)) text after := by
  obtain ⟨seen, more, rfl, hs, hr⟩ := hr.exists_seen
  have hin : ∀ b ∈ digits ++ seen, Byte.isLiteralByte b = true :=
    List.forall_mem_append.mpr ⟨Lexeme.isLiteralByte_of_mem_digits hd, hs⟩
  -- The text is the longest run of such bytes, so that it contains the ones that decide.
  obtain ⟨tail, rfl⟩ : digits ++ seen <+: text := by
    rw [← hl.takeWhile_eq, ht, ← List.append_assoc, List.takeWhile_append_of_pos hin]
    exact List.prefix_append _ _
  have he : tail ++ after ++ rest = more := by
    simpa only [List.append_assoc, List.append_cancel_left_eq] using ht
  rw [← he, ← List.append_assoc] at hd
  exact .rejected hd.cut (hr _) (by simp only [List.append_assoc]) hl.cut

/-- A lexeme is the same where the source ends sooner. -/
theorem IsLexeme.cut {kind : Kind} (h : IsLexeme kind text (after ++ rest)) :
    IsLexeme kind text after := by
  generalize hx : after ++ rest = bytes at h
  cases h with
  | eof =>
    rw [(List.append_eq_nil_iff.mp hx).1]
    exact .eof
  | punct longest notClosing =>
    subst hx
    exact .punct (head?_of_append longest) fun hp => head?_ne_of_append (notClosing hp)
  | keyword hw =>
    subst hx
    exact .keyword hw.cut
  | name hw hl hk =>
    subst hx
    exact .name hw.cut hl hk
  | nameTooLong hw hl =>
    subst hx
    exact .nameTooLong hw.cut hl
  | number hd hv hb =>
    subst hx
    exact .number hd.cut hv hb
  | literalTooLarge hd hv =>
    subst hx
    exact .literalTooLarge hd.cut hv
  | rejected hd hr ht hl =>
    subst hx
    exact cut_rejected hd hr ht hl
  | commentNotClosed hb =>
    rw [(List.append_eq_nil_iff.mp hx).1]
    exact .commentNotClosed hb
  | commentNotOpened => exact .commentNotOpened _
  | invalidByte hb =>
    subst hx
    exact .invalidByte { hb with
      notComment := fun he =>
        ⟨head?_ne_of_append (hb.notComment he).1, head?_ne_of_append (hb.notComment he).2⟩ }

theorem IsLexeme.text_eq_of_punct {p : Punct} (h : IsLexeme (.punct p) text after) :
    text = p.bytes := by
  cases h
  rfl

end

namespace Scans

variable {position : Nat} {line : UInt32} {bytes : List UInt8} {tokens ts more : List Token}
  {t : Token}

/-- The tokens of some bytes are derived in one way only. -/
theorem unique (h : Scans position line bytes ts) (h' : Scans position line bytes tokens) :
    ts = tokens := by
  induction h generalizing tokens with
  | @finish position line gap hg =>
    have hn := Trivia.length_of_stretch hg rfl
    rw [List.append_nil] at hn
    cases h' with
    | finish => rfl
    | @token _ _ gap' text' after' kind' _ hg' hl' hk' ht' =>
      exfalso
      have hp := hl'.length_pos hk'
      rw [Trivia.length_of_stretch hg' (Lexeme.item?_of_isLexeme hl')] at hn
      simp only [List.length_append] at hn
      omega
  | @token position line gap text after kind tokens' hg hl hk ht ih =>
    have hn := Trivia.length_of_stretch hg (Lexeme.item?_of_isLexeme hl)
    generalize hb : gap ++ (text ++ after) = bytes at h' hn
    cases h' with
    | finish hg' =>
      exfalso
      have hp := hl.length_pos hk
      have hn' := Trivia.length_of_stretch hg' rfl
      rw [List.append_nil, hn, ← hb] at hn'
      simp only [List.length_append] at hn'
      omega
    | @token _ _ gap' text' after' kind' _ hg' hl' hk' ht' =>
      rw [Trivia.length_of_stretch hg' (Lexeme.item?_of_isLexeme hl')] at hn
      obtain ⟨rfl, ha⟩ := List.append_inj hb hn.symm
      obtain ⟨rfl, rfl⟩ := hl.unique hl' ha
      obtain rfl := List.append_cancel_left ha
      rw [ih ht']

/-- Some bytes are cut before and behind a token among theirs. -/
theorem exists_cut (h : Scans position line bytes (ts ++ t :: more)) :
    ∃ front text after, bytes = front ++ (text ++ after) ∧
      t.span = ⟨position + front.length, position + front.length + text.length⟩ ∧
      IsLexeme t.kind text after ∧ Scans position line front ts ∧
      Scans (position + front.length + text.length)
        (lineAfter (lineAfter line front) text) after more := by
  induction ts generalizing position line bytes with
  | nil =>
    cases h with
    | @token _ _ gap text after kind _ hg hl hk ht =>
      have hg' : Trivia.Stretch gap ([] ++ (text ++ after)) := hg
      exact ⟨gap, text, after, rfl, rfl, hl, .finish hg'.cut, ht⟩
  | cons u ts ih =>
    cases h with
    | @token _ _ gap word after kind _ hg hl hk ht =>
      obtain ⟨front, text, after, rfl, hs, hx, hf, hm⟩ := ih ht
      have hp : position + gap.length + word.length + front.length =
          position + (gap ++ (word ++ front)).length := by
        simp only [List.length_append]
        omega
      have hn : lineAfter (lineAfter (lineAfter line gap) word) front =
          lineAfter line (gap ++ (word ++ front)) := by
        rw [lineAfter_append, lineAfter_append]
      rw [hp, hn] at hm
      rw [hp] at hs
      rw [← List.append_assoc] at hg
      refine ⟨gap ++ (word ++ front), text, after, by simp only [List.append_assoc], hs, hx, ?_, hm⟩
      exact .token hg.cut hl.cut hk hf

theorem exists_cut_behind (h : Scans position line bytes (ts ++ more)) :
    ∃ front after, bytes = front ++ after ∧ Scans position line front ts ∧
      position + front.length = ts.getLast?.elim position fun t => t.span.stop := by
  induction ts generalizing position line bytes with
  | nil => exact ⟨[], bytes, rfl, .finish (.nil _), rfl⟩
  | cons u ts ih =>
    cases h with
    | @token _ _ gap word rest kind _ hg hl hk ht =>
      obtain ⟨front, after, rfl, hf, hp⟩ := ih ht
      rw [← List.append_assoc] at hg
      refine ⟨gap ++ (word ++ front), after, by simp only [List.append_assoc],
        .token hg.cut hl.cut hk hf, ?_⟩
      rw [List.getLast?_cons, List.length_append, List.length_append, ← Nat.add_assoc,
        ← Nat.add_assoc, hp]
      cases ts.getLast? <;> rfl

theorem exists_cut_before (h : Scans position line bytes (t :: ts)) :
    ∃ gap rest, bytes = gap ++ rest ∧ t.span.start = position + gap.length ∧
      Scans (position + gap.length) (lineAfter line gap) rest (t :: ts) := by
  cases h with
  | @token _ _ gap text after kind _ hg hl hk ht =>
    have hn : Trivia.Stretch [] (text ++ after) := .nil _
    have ht' : Scans (position + gap.length + ([] : List UInt8).length + text.length)
        (lineAfter (lineAfter (lineAfter line gap) []) text) after ts := by
      rw [lineAfter_nil]
      exact ht
    have hs := Scans.token hn hl hk ht'
    rw [lineAfter_nil] at hs
    exact ⟨gap, text ++ after, rfl, rfl, hs⟩

/-- Some tokens are scanned from the bytes from the first of them to the last. -/
theorem exists_cut_around (h : Scans position line bytes (t :: ts ++ more)) :
    ∃ gap middle after, bytes = gap ++ (middle ++ after) ∧
      t.span.start = position + gap.length ∧
      (ts.getLast?.getD t).span.stop = position + gap.length + middle.length ∧
      Scans (position + gap.length) (lineAfter line gap) middle (t :: ts) := by
  obtain ⟨front, after, rfl, hf, hp⟩ := h.exists_cut_behind
  obtain ⟨gap, middle, rfl, hg, hm⟩ := hf.exists_cut_before
  rw [List.getLast?_cons, Option.elim_some, List.length_append, ← Nat.add_assoc] at hp
  exact ⟨gap, middle, after, List.append_assoc _ _ _, hg, hp.symm, hm⟩

end Scans
end StaticAssert
