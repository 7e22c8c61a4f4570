import StaticAssert.Proofs.Compile.Capacity
import StaticAssert.Proofs.Compile.Exactness
import StaticAssert.Proofs.Expr.Alone
import StaticAssert.Proofs.Text.Cuts

/-!
# Failed assertions are their own witnesses

However compilation ends, an assertion is recorded as failed only if it is read to its
semicolon and its value is zero. The record points at the text between its parentheses, and
this text, cut out of the source, is an expression by itself whose value is zero again: its
tokens are those of the statement, moved to the beginning of a source.
-/

set_option autoImplicit false

namespace StaticAssert

section

open scoped Stream'

inductive Fails (upcoming : Stream' Token) : Diagnostic → Prop where
  | statement {before : List Token} {s : Statement} {rest : Stream' Token} {d : Diagnostic}
      (grammatical : s.Grammatical) (tokens : upcoming = before ++ₛ (s.tokens ++ₛ rest))
      (more : ∀ t ∈ before, t.kind ≠ .eof) (value : s.value.value = 0) (span : d.span = s.span) :
      Fails upcoming d

namespace Statement

variable {s : Statement} {t : Token}

theorem kind_ne_eof (ht : t ∈ s.tokens) : t.kind ≠ .eof := by
  rcases List.mem_cons.mp ht with rfl | ht
  · nofun
  rcases List.mem_cons.mp ht with rfl | ht
  · nofun
  rcases List.mem_append.mp ht with ht | ht
  · exact Tree.kind_ne_eof ht
  rcases List.mem_cons.mp ht with rfl | ht
  · nofun
  · rw [List.mem_singleton.mp ht]
    nofun

theorem of_mem_recordsOn {line : Nat} {d : Diagnostic} (hd : d ∈ s.recordsOn line)
    (hi : d.issue = .assertionFailed) : s.value.value = 0 ∧ d.span = s.span := by
  rcases List.mem_append.mp hd with hd | hd
  · rw [Tree.issue_of_mem_records hd] at hi
    cases hi
  · split at hd
    next hv => exact ⟨hv, by rw [List.mem_singleton.mp hd]; rfl⟩
    next => cases hd

end Statement

theorem Fails.before {upcoming rest : Stream' Token} {s : Statement} {d : Diagnostic}
    (h : Fails rest d) (hu : upcoming = s.tokens ++ₛ rest) : Fails upcoming d := by
  obtain @⟨before, s', rest', _, hg, rfl, hm, hv, hs⟩ := h
  have ht : ∀ t ∈ s.tokens ++ before, t.kind ≠ .eof :=
    List.forall_mem_append.mpr ⟨fun t => Statement.kind_ne_eof, hm⟩
  rw [← Stream'.append_append_stream] at hu
  exact .statement hg hu ht hv hs

namespace Parser

theorem exists_describes_body_failures (tokens : Lookahead) :
    ∃ t : Transcript Unit, (t.Describes fun s => body ⟨tokens, s⟩) ∧
      ∀ d ∈ t.records, d.issue = .assertionFailed → Fails tokens.upcoming d := by
  induction tokens using body_induction with
  | @statement tokens ha ih =>
    obtain ⟨t, ht, hq⟩ := exists_describes_assertion tokens
    obtain ⟨u, hu, hf⟩ := ih t ht
    simp only [body_of_assertion ha]
    cases hr : t.result with
    | error e =>
      refine ⟨_, Transcript.describes_andThen_error ht hr, ?_⟩
      intro d hd hi
      cases hr.symm.trans (hq d hd hi)
    | ok a =>
      have hs : (assertion ⟨tokens, .empty t.records.length⟩).result = .ok () := by
        rw [ht.room (.empty t.records.length) (Nat.le_refl _), hr]
      obtain ⟨s, rest, hg, hu'⟩ := exists_statement_of_assertion ha hs
      obtain ⟨tokens', hrest, hd⟩ := exists_describes_assertion_of_statement hg hu'
      obtain rfl := ht.unique hd
      refine ⟨_, Transcript.describes_andThen_ok ht hr hu, ?_⟩
      intro d hm hi
      rcases List.mem_append.mp hm with hm | hm
      · obtain ⟨hv, hs⟩ := Statement.of_mem_recordsOn hm hi
        have hb : tokens.upcoming = [] ++ₛ (s.tokens ++ₛ rest) := hu'
        exact .statement hg hb (by simp) hv hs
      · have hw := hf d hm hi
        rw [hrest] at hw
        exact Fails.before hw hu'
  | ended he =>
    simp only [body_of_end he]
    exact ⟨_, Transcript.describes_const _ _, by simp⟩
  | other he ha =>
    obtain ⟨records, error, hd, hq⟩ := exists_describes_body_of_other he ha
    exact ⟨_, hd, fun d hm hi => absurd hi (hq d hm)⟩

end Parser

end

theorem exists_cut_of_statement {position : Nat} {line : UInt32} {bytes : List UInt8}
    {s : Statement} {before more : List Token}
    (h : Scans position line bytes (before ++ s.tokens ++ more)) :
    ∃ front middle back line',
      bytes = front ++ (Byte.ofText "(" ++ (middle ++ (Byte.ofText ")" ++ back))) ∧
      s.span = ⟨position + front.length + 1, position + front.length + 1 + middle.length⟩ ∧
      Scans (position + front.length + 1) line' middle s.value.tokens := by
  have hs : before ++ s.tokens ++ more =
      (before ++ [s.keyword.token (.keyword .staticAssert)]) ++
        s.opening.token (.punct .leftParen) :: (s.value.tokens ++
          s.closing.token (.punct .rightParen) ::
            s.semicolon.token (.punct .semicolon) :: more) := by
    simp [Statement.tokens]
  rw [hs] at h
  obtain ⟨front, text, after, rfl, ho, hx, -, hv⟩ := h.exists_cut
  obtain ⟨middle, text', back, rfl, hc, hy, hm, -⟩ := hv.exists_cut
  obtain rfl := hx.text_eq_of_punct
  obtain rfl := hy.text_eq_of_punct
  have hl : Punct.leftParen.bytes.length = 1 := by decide
  rw [hl] at ho hc hm
  refine ⟨front, middle, back, _, rfl, ?_, hm⟩
  have hstop : s.opening.span.stop = position + front.length + 1 := congrArg Span.stop ho
  have hstart : s.closing.span.start = position + front.length + 1 + middle.length :=
    congrArg Span.start hc
  rw [Statement.span, hstop, hstart]

/-- Some text of a source is recorded as an assertion that failed, and is evaluated to zero by
itself. -/
structure Witnessed (text : String) (d : Diagnostic) (before cut after : String) : Prop where
  text_eq : text = before ++ "(" ++ cut ++ ")" ++ after
  span_eq : d.span =
    ⟨(Byte.ofText (before ++ "(")).length, (Byte.ofText (before ++ "(" ++ cut)).length⟩
  selected : Text.slice? text d.span = some cut
  fails : ∃ n, ∀ sink : Sink, n ≤ sink.free → ∃ x parser,
    (Parser.ofText cut sink).evaluate { constant := true } = ⟨.ok x, parser⟩ ∧
      x.value = 0 ∧ parser.peek.1.kind = .eof

theorem exists_witness_of_fails {text : String} {d : Diagnostic}
    (h : Fails (unitTokens text) d) : ∃ before cut after, Witnessed text d before cut after := by
  obtain @⟨ts, st, rest, _, hg, hu, hk, hv, hs⟩ := h
  let s := Scanner.start ((Buffer.ofText text).cursorAt 12)
  have hts : ∀ t ∈ ts ++ st.tokens, t.kind ≠ .eof :=
    List.forall_mem_append.mpr ⟨hk, fun t => Statement.kind_ne_eof⟩
  rw [← Stream'.append_append_stream] at hu
  obtain ⟨more, hm⟩ := Scanner.exists_tokens_eq (s := s) hu hts
  have hscan := s.scans_tokens
  rw [hm] at hscan
  obtain ⟨front, middle, back, line, hr, hsp, hsc⟩ := exists_cut_of_statement hscan
  let opening := (Buffer.ofText text).bytes.take s.position
  have hheld : (Buffer.ofText text).bytes = opening ++ s.cursor.rest :=
    (List.take_append_drop _ _).symm
  rw [hr] at hheld
  -- What the buffer does not hold of the text comes after the statement.
  obtain ⟨beyond, hb⟩ := Buffer.isPrefix_ofText text
  rw [hheld] at hb
  simp only [List.append_assoc] at hb
  rw [← List.append_assoc opening] at hb
  obtain ⟨before, cut, after, htext, hbefore, hcut⟩ := Byte.exists_append_of_parens hb.symm
  have hp : s.position ≤ (Buffer.ofText text).size := Nat.min_le_right _ _
  have hlength : opening.length = s.position := List.length_take_of_le hp
  have hfits : (Byte.ofText cut).length ≤ Buffer.maxSize := by
    have hf := (Buffer.ofText text).fits
    rw [hheld, ← hcut] at hf
    simp only [List.length_append] at hf
    omega
  have hopen : (Byte.ofText (before ++ "(")).length = s.position + front.length + 1 := by
    rw [Byte.ofText_append, hbefore, List.length_append, List.length_append, hlength]
    rfl
  have hspan : d.span = ⟨(Byte.ofText (before ++ "(")).length,
      (Byte.ofText (before ++ "(" ++ cut)).length⟩ := by
    rw [hs, hsp, Byte.ofText_append _ cut, List.length_append, hopen, hcut]
  refine ⟨before, cut, after, htext, hspan, ?_, ?_⟩
  · rw [hspan, Byte.ofText_append _ cut, List.length_append, htext, String.append_assoc]
    exact Text.slice?_append (before ++ "(") cut (")" ++ after)
  · rw [← hcut] at hsc
    refine ⟨st.value.records.length, fun sink hf => ?_⟩
    obtain ⟨x, parser, he, hx, heof⟩ :=
      exists_evaluate_alone hsc hfits hg.grammar hg.shallow { constant := true } hf
    refine ⟨x, parser, he, ?_, heof⟩
    rw [← Int64.toInt_inj, hx.value, st.value.operand_value, hv]
    rfl

/-- A failed assertion is recorded with a text of the source between parentheses, which by
itself is evaluated to zero. -/
theorem failures_are_witnessed (text : String) (sink : Sink) :
    ∃ ds, (compile text sink).2 = sink.append ds ∧
      ∀ d ∈ ds, d.issue = .assertionFailed →
        ∃ before cut after, Witnessed text d before cut after := by
  obtain ⟨t, ht, hf⟩ : ∃ t : Transcript Unit, t.Describes (compilation text) ∧
      ∀ d ∈ t.records, d.issue = .assertionFailed → Fails (unitTokens text) d := by
    unfold compilation
    split
    · rw [← upcoming_bodyTokens]
      exact Parser.exists_describes_body_failures (bodyTokens text)
    · exact ⟨_, Transcript.describes_const _ (bodyTokens text), by simp⟩
  refine ⟨t.records.take sink.free, ?_, ?_⟩
  · rw [compile_of_describes ht]
  · intro d hd hi
    exact exists_witness_of_fails (hf d (List.mem_of_mem_take hd) hi)

/-- Comments with a parenthesis and other letters lie in the text, and compilation fails. -/
theorem failures_are_witnessed_comment :
    let text := "void main()\x7bstatic_assert(1/*)\u00e9*/==\n2 //\u00e9\n);x"
    (compile text (.empty 1)).1 = .error (.unsupported .statement 3) ∧
      (compile text (.empty 1)).2 = Sink.append (.empty 1) [.assertionFailed 1 ⟨26, 44⟩] ∧
      ∃ before cut after, Witnessed text (.assertionFailed 1 ⟨26, 44⟩) before cut after := by
  intro text
  have hr : (compile text (.empty 1)).2 =
      Sink.append (.empty 1) [.assertionFailed 1 ⟨26, 44⟩] := by
    decide +kernel
  obtain ⟨ds, hs, hw⟩ := failures_are_witnessed text (.empty 1)
  have hd := Sink.append_inj (hs.symm.trans hr)
  refine ⟨by decide +kernel, hr, hw _ ?_ rfl⟩
  rw [hd]
  exact List.mem_cons_self

end StaticAssert
