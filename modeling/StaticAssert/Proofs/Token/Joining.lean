import StaticAssert.Proofs.Token.Scan

/-!
# Sources joined at a newline

A newline ends every token and every line comment as the end of a source does, and an
open block comment is the only thing that it does not end. So the tokens of two sources
with a newline between them are those of the first and then those of the second, which
stand as many bytes and lines further on as the first and the newline take.
-/

set_option autoImplicit false

namespace StaticAssert

def Token.shift (bytes lines : Nat) (t : Token) : Token :=
  ⟨t.kind, t.line + lines, ⟨t.span.start + bytes, t.span.stop + bytes⟩⟩

def Token.shiftWrapping (bytes : Nat) (lines : UInt32) (t : Token) : Token :=
  -- As many lines further on as can be told apart in 32 bits.
  ⟨t.kind, (.ofNat t.line + lines : UInt32).toNat, ⟨t.span.start + bytes, t.span.stop + bytes⟩⟩

theorem lineAfter_add (line lines : UInt32) (bytes : List UInt8) :
    lineAfter (line + lines) bytes = lineAfter line bytes + lines := by
  rw [lineAfter, UInt32.add_assoc, UInt32.add_comm lines, ← UInt32.add_assoc]
  rfl

section

variable {digits suffix text text' after : List UInt8} (rest : List UInt8)

theorem head?_append_newline {P : UInt8 → Prop} (h : ∀ b ∈ after.head?, P b)
    (hn : P Byte.newline) : ∀ b ∈ (after ++ Byte.newline :: rest).head?, P b := by
  cases after with
  | nil =>
    rintro b ⟨⟩
    exact hn
  | cons b after => exact h

theorem head?_append_newline_ne {b : UInt8} (h : after.head? ≠ some b)
    (hn : b ≠ Byte.newline) : (after ++ Byte.newline :: rest).head? ≠ some b :=
  fun hb => head?_append_newline rest (P := (· ≠ b)) (fun c hc he => h (by rw [← he, hc]))
    hn.symm b hb rfl

theorem Byte.Run.append_newline {p : UInt8 → Bool} (h : Byte.Run p text after)
    (hn : p Byte.newline = false) : Byte.Run p text (after ++ Byte.newline :: rest) :=
  ⟨h.inside, head?_append_newline rest h.stops hn⟩

theorem Trivia.Item.append_newline (h : Trivia.Item text after) :
    Trivia.Item text (after ++ Byte.newline :: rest) := by
  cases h with
  | blank hb => exact .blank hb _
  | line hb => exact .line (hb.append_newline rest rfl)
  | block hb => exact .block hb _

theorem Trivia.Stretch.append_newline (h : Trivia.Stretch text after) :
    Trivia.Stretch text (after ++ Byte.newline :: rest) := by
  induction h with
  | nil => exact .nil _
  | cons hi ht ih =>
    refine .cons ?_ ih
    rw [← List.append_assoc]
    exact hi.append_newline rest

theorem IsWord.append_newline (h : IsWord text after) :
    IsWord text (after ++ Byte.newline :: rest) :=
  ⟨h.starts, h.run.append_newline rest rfl⟩

theorem IsDigits.append_newline (h : IsDigits digits after) :
    IsDigits digits (after ++ Byte.newline :: rest) := by
  cases h with
  | zero => exact .zero _
  | run hb hr => exact .run hb (hr.append_newline rest rfl)

theorem IsSuffix.append_newline {unsigned : Bool} (h : IsSuffix unsigned suffix after) :
    IsSuffix unsigned suffix (after ++ Byte.newline :: rest) := by
  cases h with
  | unsigned hb => exact .unsigned hb _
  | none ha => exact .none (head?_append_newline rest ha rfl)

theorem exists_cons_of_append_newline {b : UInt8} {bytes : List UInt8}
    (h : after ++ Byte.newline :: rest = b :: bytes) (hb : b ≠ Byte.newline) :
    ∃ after', after = b :: after' ∧ after' ++ Byte.newline :: rest = bytes := by
  cases after with
  | nil => exact absurd (List.cons.inj h).1.symm hb
  | cons c after =>
    obtain ⟨rfl, hr⟩ := List.cons.inj h
    exact ⟨after, rfl, hr⟩

theorem rejects_append_newline {what : RejectedLiteral} :
    Rejects digits (after ++ Byte.newline :: rest) what ↔ Rejects digits after what := by
  constructor
  · intro h
    have hne (p : UInt8 → Bool) {b : UInt8} (hb : p b = true) (hp : p Byte.newline = false) :
        b ≠ Byte.newline := by
      rintro rfl
      exact absurd hb (by simp [hp])
    generalize hx : after ++ Byte.newline :: rest = bytes at h
    cases h with
    | octal hb =>
      obtain ⟨after, rfl, -⟩ := exists_cons_of_append_newline rest hx (hne _ hb rfl)
      exact .octal hb _
    | hex hb =>
      obtain ⟨after, rfl, -⟩ := exists_cons_of_append_newline rest hx (hne _ hb rfl)
      exact .hex hb _
    | binary hb =>
      obtain ⟨after, rfl, -⟩ := exists_cons_of_append_newline rest hx (hne _ hb rfl)
      exact .binary hb _
    | float =>
      obtain ⟨after, rfl, -⟩ := exists_cons_of_append_newline rest hx (by decide)
      exact .float _ _
    | digitSeparator =>
      obtain ⟨after, rfl, -⟩ := exists_cons_of_append_newline rest hx (by decide)
      exact .digitSeparator _ _
    | longSuffix _ hs hb =>
      cases hs with
      | unsigned hu =>
        obtain ⟨after, rfl, hy⟩ := exists_cons_of_append_newline rest hx (hne _ hu rfl)
        obtain ⟨after, rfl, -⟩ := exists_cons_of_append_newline rest hy (hne _ hb rfl)
        exact .longSuffix _ (.unsigned hu _) hb
      | none ha =>
        obtain ⟨after, rfl, -⟩ := exists_cons_of_append_newline rest hx (hne _ hb rfl)
        exact .longSuffix _ (@IsSuffix.none (_ :: after) ha) hb
  · intro h
    cases h with
    | octal hb => exact .octal hb _
    | hex hb => exact .hex hb _
    | binary hb => exact .binary hb _
    | float => exact .float _ _
    | digitSeparator => exact .digitSeparator _ _
    | longSuffix _ hs hb =>
      rw [List.append_assoc]
      exact .longSuffix _ (hs.append_newline rest) hb

theorem IsLiteral.append_newline {unsigned : Bool} (h : IsLiteral digits unsigned suffix after) :
    IsLiteral digits unsigned suffix (after ++ Byte.newline :: rest) where
  leading := by
    rw [← List.append_assoc]
    exact h.leading.append_newline rest
  trailing := h.trailing.append_newline rest
  accepted what := by
    rw [← List.append_assoc, rejects_append_newline]
    exact h.accepted what

/-- A lexeme that is not an open comment is the same in front of a newline. -/
theorem IsLexeme.append_newline {kind : Kind} (h : IsLexeme kind text after)
    (hk : kind ≠ .eof) (hc : kind ≠ .lexError .commentNotClosed) :
    IsLexeme kind text (after ++ Byte.newline :: rest) := by
  cases h with
  | eof => exact absurd rfl hk
  | punct longest notClosing =>
    refine .punct (head?_append_newline rest longest fun q hq => ?_)
      fun hp => head?_append_newline_ne rest (notClosing hp) (by decide)
    have hm : Byte.newline ∈ q.bytes := by simp [hq]
    exact Punct.not_mem_whitespace hm (by decide)
  | keyword hw => exact .keyword (hw.append_newline rest)
  | name hw hl hk => exact .name (hw.append_newline rest) hl hk
  | nameTooLong hw hl => exact .nameTooLong (hw.append_newline rest) hl
  | number hd hv hb => exact .number (hd.append_newline rest) hv hb
  | literalTooLarge hd hv => exact .literalTooLarge (hd.append_newline rest) hv
  | rejected hd hr ht hl =>
    exact .rejected (hd.append_newline rest) ((rejects_append_newline rest).mpr hr)
      (by rw [← List.append_assoc, ht, List.append_assoc]) (hl.append_newline rest rfl)
  | commentNotClosed => exact absurd rfl hc
  | commentNotOpened => exact .commentNotOpened _
  | invalidByte hb =>
    exact .invalidByte { hb with
      notComment := fun he =>
        ⟨head?_append_newline_ne rest (hb.notComment he).1 (by decide),
          head?_append_newline_ne rest (hb.notComment he).2 (by decide)⟩ }

theorem Trivia.Stretch.join (h : Trivia.Stretch text []) (h' : Trivia.Stretch text' after) :
    Trivia.Stretch (text ++ Byte.newline :: text') after := by
  generalize he : ([] : List UInt8) = stop at h
  induction h with
  | nil => exact @Stretch.cons [Byte.newline] _ _ (.blank (by decide) _) h'
  | @cons item text stop hi ht ih =>
    subst he
    rw [List.append_assoc]
    refine .cons ?_ (ih rfl)
    have hn := hi.append_newline (text' ++ after)
    rw [List.append_nil] at hn
    simpa using hn

end

namespace Scans

variable {position : Nat} {line : UInt32} {bytes bytes' : List UInt8}
  {tokens tokens' : List Token}

/-- Where a derivation starts only moves its tokens. -/
theorem shift (h : Scans position line bytes tokens) (m : Nat) (n : UInt32) :
    Scans (position + m) (line + n) bytes (tokens.map (Token.shiftWrapping m n)) := by
  induction h with
  | finish hg => exact .finish hg
  | @token position line gap text after kind tokens hg hl hk ht ih =>
    simp only [List.map_cons, Token.shiftWrapping, Nat.add_right_comm _ _ m,
      UInt32.ofNat_toNat, ← lineAfter_add] at ih ⊢
    exact .token hg hl hk ih

theorem of_stretch {gap : List UInt8} (hg : Trivia.Stretch gap [])
    (h : Scans (position + gap.length + 1) (lineAfter line (gap ++ [Byte.newline])) bytes tokens) :
    Scans position line (gap ++ Byte.newline :: bytes) tokens := by
  cases h with
  | finish hg' => exact .finish (hg.join hg')
  | @token _ _ gap' text after kind tokens hg' hl hk ht =>
    have hp : position + (gap ++ Byte.newline :: gap').length =
        position + gap.length + 1 + gap'.length := by
      simp only [List.length_append, List.length_cons]
      omega
    have hn : lineAfter line (gap ++ Byte.newline :: gap') =
        lineAfter (lineAfter line (gap ++ [Byte.newline])) gap' := by
      rw [← lineAfter_append, List.append_assoc, List.singleton_append]
    rw [← hp, ← hn] at ht ⊢
    rw [← List.cons_append, ← List.append_assoc]
    exact .token (hg.join hg') hl hk ht

/-- A derivation that meets no open comment goes on behind a newline. -/
theorem join (h : Scans position line bytes tokens)
    (hc : ∀ t ∈ tokens, t.kind ≠ .lexError .commentNotClosed)
    (h' : Scans (position + bytes.length + 1) (lineAfter line (bytes ++ [Byte.newline]))
      bytes' tokens') :
    Scans position line (bytes ++ Byte.newline :: bytes') (tokens ++ tokens') := by
  induction h with
  | finish hg => exact of_stretch hg h'
  | @token position line gap text after kind tokens hg hl hk ht ih =>
    obtain ⟨hc, hcs⟩ := List.forall_mem_cons.mp hc
    -- The second derivation begins where the first ends, from wherever that is looked at.
    simp only [List.length_append, List.append_assoc, lineAfter_append, ← Nat.add_assoc] at h'
    rw [← lineAfter_append _ after] at h'
    rw [List.append_assoc, List.append_assoc, List.cons_append]
    refine .token ?_ (hl.append_newline bytes' hk hc) hk (ih hcs h')
    rw [← List.append_assoc]
    exact hg.append_newline bytes'

theorem line_eq (h : Scans position line bytes tokens) :
    ∀ t ∈ tokens, ∃ n < bytes.length, t.line = (lineAfter line (bytes.take n)).toNat := by
  induction h with
  | finish hg => exact List.forall_mem_nil _
  | @token position line gap text after kind tokens hg hl hk ht ih =>
    have hp := hl.length_pos hk
    refine List.forall_mem_cons.mpr ⟨⟨gap.length, ?_, by rw [List.take_left]⟩, fun t hm => ?_⟩
    · rw [List.length_append, List.length_append]
      omega
    · obtain ⟨n, hn, he⟩ := ih t hm
      refine ⟨(gap ++ text).length + n, ?_, ?_⟩
      · simp only [List.length_append]
        omega
      · rw [← List.append_assoc, List.take_length_add_append, lineAfter_append, lineAfter_append,
          he]

end Scans

section

variable {xs ys : List UInt8}

theorem scans_ofBytes (h : xs.length ≤ Buffer.maxSize) :
    Scans 0 1 xs (Scanner.ofBytes xs).tokens := by
  have hs := (Scanner.ofBytes xs).scans_tokens
  rwa [show (Scanner.ofBytes xs).cursor.rest = xs from Buffer.bytes_ofBytes_of_le h] at hs

end

end StaticAssert
