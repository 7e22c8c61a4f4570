import StaticAssert.Proofs.Compile.Capacity
import StaticAssert.Proofs.Compile.Statements
import StaticAssert.Proofs.Expr.Layout
import StaticAssert.Proofs.Token.Requests

/-!
# Layout does not matter

Blanks, comments and line breaks move tokens, and nothing else about a unit depends on where
its tokens stand. Two texts whose statements are written in tokens of the same kinds compile
alike: they record the same problems in the same order, and they are accepted or refused for
the same reason. A sink with little room changes nothing about that.
-/

set_option autoImplicit false

namespace StaticAssert

open scoped Stream'

namespace Scanner

theorem map_kind_stream (s : Scanner) :
    s.stream.map Token.kind = s.tokens.map Token.kind ++ₛ Stream'.const .eof := by
  obtain ⟨t, ht, hs⟩ := s.exists_stream_eq
  rw [hs, Stream'.map_append_stream, Stream'.map_const, ht]

end Scanner

namespace Parser

variable {l l' : Lookahead}

theorem twins_expect (kind : Kind) (hl : l.kinds = l'.kinds) :
    ∃ t t', Twins (fun _ _ => True) (fun s => expect ⟨l, s⟩ kind)
      (fun s => expect ⟨l', s⟩ kind) t t' := by
  have hk := Lookahead.kind_head_eq hl
  have hf := Lookahead.kinds_fill_eq hl
  by_cases h : l.upcoming.head.kind = kind
  · have h' : l'.upcoming.head.kind = kind := hk ▸ h
    simp only [expect_of_eq h, expect_of_eq h']
    exact ⟨_, _, .const (.ok trivial) (Lookahead.kinds_advance_eq hl)⟩
  have h' : l'.upcoming.head.kind ≠ kind := hk ▸ h
  by_cases he : ∃ error, l.upcoming.head.kind = .lexError error
  · obtain ⟨error, he⟩ := he
    have he' : l'.upcoming.head.kind = .lexError error := hk ▸ he
    simp only [expect_of_lexical h he, expect_of_lexical h' he']
    exact Twins.stopAt error _ _ hf
  · have he' : ¬ ∃ error, l'.upcoming.head.kind = .lexError error := hk ▸ he
    simp only [expect_of_other h (not_exists.mp he), expect_of_other h' (not_exists.mp he')]
    refine ⟨_, _, .const (.error ?_) hf⟩
    rw [hk]
    rfl

theorem twins_judge {x x' : Operand} (hx : x.Alike x') (line line' : Nat) (span span' : Span)
    (hl : l.kinds = l'.kinds) :
    ∃ t t', Twins Eq (fun s => judge ⟨l, s⟩ x line span)
      (fun s => judge ⟨l', s⟩ x' line' span') t t' := by
  have ht : x.isTrue = x'.isTrue := by rw [Operand.isTrue, hx.value, Operand.isTrue]
  unfold judge
  rw [hx.facts, ht]
  split
  · exact ⟨_, _, .const (.error rfl) hl⟩
  split
  · exact ⟨_, _, .const (.ok rfl) hl⟩
  · exact ⟨_, _, .report ⟨rfl, rfl⟩ hl⟩

theorem twins_assertion (hl : l.kinds = l'.kinds) :
    ∃ t t', Twins Eq (fun s => assertion ⟨l, s⟩) (fun s => assertion ⟨l', s⟩) t t' := by
  simp only [assertion_eq]
  obtain ⟨t, t', ht⟩ := twins_expect (.punct .leftParen) (Lookahead.kinds_advance_eq hl)
  refine ht.andThen fun opening opening' _ => ?_
  obtain ⟨u, u', hu⟩ := twins_evaluate { constant := true } ht.kinds
  refine hu.andThen fun x x' hx => ?_
  obtain ⟨v, v', hv⟩ := twins_expect (.punct .rightParen) hu.kinds
  refine hv.andThen fun closing closing' _ => ?_
  obtain ⟨w, w', hw⟩ := twins_expect (.punct .semicolon) hv.kinds
  exact hw.andThen fun _ _ _ => twins_judge hx _ _ _ _ hw.kinds

theorem twins_body (hl : l.kinds = l'.kinds) :
    ∃ t t', Twins Eq (fun s => body ⟨l, s⟩) (fun s => body ⟨l', s⟩) t t' := by
  induction l using body_induction generalizing l' with
  | statement ha ih =>
    have ha' := ha
    rw [Lookahead.kind_head_eq hl] at ha'
    obtain ⟨t, t', ht⟩ := twins_assertion hl
    simp only [body_of_assertion ha, body_of_assertion ha']
    exact ht.andThen fun _ _ _ => ih t ht.first ht.kinds
  | ended he =>
    have he' := he
    rw [Lookahead.kind_head_eq hl] at he'
    simp only [body_of_end he, body_of_end he']
    exact ⟨_, _, .const (.ok rfl) (Lookahead.kinds_fill_eq hl)⟩
  | @other l he ha =>
    have hk := Lookahead.kind_head_eq hl
    have he' := he
    have ha' := ha
    rw [hk] at he' ha'
    by_cases hx : ∃ error, l.upcoming.head.kind = .lexError error
    · obtain ⟨error, hx⟩ := hx
      have hx' : l'.upcoming.head.kind = .lexError error := hk ▸ hx
      simp only [body_of_lexical hx, body_of_lexical hx']
      exact Twins.stopAt error _ _ (Lookahead.kinds_fill_eq hl)
    · have hx' : ¬ ∃ error, l'.upcoming.head.kind = .lexError error := hk ▸ hx
      simp only [body_of_other he ha (not_exists.mp hx),
        body_of_other he' ha' (not_exists.mp hx')]
      exact ⟨_, _, .const (.error rfl) (Lookahead.kinds_fill_eq hl)⟩

end Parser

variable {text text' : String}

theorem kinds_bodyTokens
    (h : (Scanner.start ((Buffer.ofText text).cursorAt 12)).tokens.map Token.kind =
      (Scanner.start ((Buffer.ofText text').cursorAt 12)).tokens.map Token.kind) :
    (bodyTokens text).kinds = (bodyTokens text').kinds := by
  simp only [Lookahead.kinds, upcoming_bodyTokens, unitTokens, Scanner.map_kind_stream, h]

theorem twins_compilation (ho : opens text = true) (ho' : opens text' = true)
    (h : (bodyTokens text).kinds = (bodyTokens text').kinds) :
    ∃ t t', Twins Eq (compilation text) (compilation text') t t' := by
  unfold compilation
  simp only [ho, ho', if_true]
  exact Parser.twins_body h

/-- Where the tokens of two units are of the same kinds, compiling them into sinks with the
same room gives the same answer, but for its line, and records the same problems. -/
theorem compile_of_same_kinds
    (hs : 20 ≤ (Byte.ofText text).length) (hs' : 20 ≤ (Byte.ofText text').length)
    (hp : Byte.ofText "void main()\x7b" <+: Byte.ofText text)
    (hp' : Byte.ofText "void main()\x7b" <+: Byte.ofText text')
    (hk : (Scanner.start ((Buffer.ofText text).cursorAt 12)).tokens.map Token.kind =
      (Scanner.start ((Buffer.ofText text').cursorAt 12)).tokens.map Token.kind)
    {sink sink' : Sink} (hc : sink.capacity = sink'.capacity) (hn : sink.size = sink'.size) :
    (compile text sink).1.mapError CompileError.withoutLine =
        (compile text' sink').1.mapError CompileError.withoutLine ∧
      ∃ ds ds', (compile text sink).2 = sink.append ds ∧
        (compile text' sink').2 = sink'.append ds' ∧ List.Forall₂ Diagnostic.Alike ds ds' := by
  have ho : opens text = true := (opens_iff text).mpr ⟨hs, hp⟩
  have ho' : opens text' = true := (opens_iff text').mpr ⟨hs', hp'⟩
  obtain ⟨t, t', ht⟩ := twins_compilation ho ho' (kinds_bodyTokens hk)
  have hf : sink.free = sink'.free := by rw [Sink.free, hc, hn, Sink.free]
  rw [compile_of_describes ht.first, compile_of_describes ht.second]
  constructor
  · simp only [ht.records.length_eq, hf, hc]
    split
    · exact ht.result.mapError_eq
    · rfl
  · refine ⟨_, _, rfl, rfl, ?_⟩
    rw [hf]
    exact List.forall₂_take _ ht.records

theorem compile_of_same_kinds_lines :
    let text := "void main()\x7bstatic_assert(0);static_assert(1 2);\x7d"
    let text' := "void main()\x7b// two\n static_assert ( 0 ) ;\nstatic_assert(1/* ; */2);\x7d"
    let sink : Sink := ⟨2, #[.assertionFailed 1 ⟨0, 1⟩]⟩
    let sink' : Sink := ⟨2, #[.signedOverflow 7 2 ⟨0, 1⟩]⟩
    ((compile text sink).1 = .error (.unsupported .adjacentOperands 1) ∧
      (compile text' sink').1 = .error (.unsupported .adjacentOperands 3)) ∧
    ((20 ≤ (Byte.ofText text).length ∧ 20 ≤ (Byte.ofText text').length) ∧
      (Byte.ofText "void main()\x7b" <+: Byte.ofText text ∧
        Byte.ofText "void main()\x7b" <+: Byte.ofText text') ∧
      (Scanner.start ((Buffer.ofText text).cursorAt 12)).tokens.map Token.kind =
        (Scanner.start ((Buffer.ofText text').cursorAt 12)).tokens.map Token.kind ∧
      sink.capacity = sink'.capacity ∧ sink.size = sink'.size) ∧
    (compile text sink).1.mapError CompileError.withoutLine =
        (compile text' sink').1.mapError CompileError.withoutLine ∧
      ∃ ds ds', (compile text sink).2 = sink.append ds ∧
        (compile text' sink').2 = sink'.append ds' ∧ List.Forall₂ Diagnostic.Alike ds ds' := by
  intro text text' sink sink'
  have hs : 20 ≤ (Byte.ofText text).length := by decide +kernel
  have hs' : 20 ≤ (Byte.ofText text').length := by decide +kernel
  have hp : Byte.ofText "void main()\x7b" <+: Byte.ofText text := by decide +kernel
  have hp' : Byte.ofText "void main()\x7b" <+: Byte.ofText text' := by decide +kernel
  have hk : (Scanner.start ((Buffer.ofText text).cursorAt 12)).tokens.map Token.kind =
      (Scanner.start ((Buffer.ofText text').cursorAt 12)).tokens.map Token.kind := by
    decide +kernel
  refine ⟨⟨by decide +kernel, by decide +kernel⟩, ⟨⟨hs, hs'⟩, ⟨hp, hp'⟩, hk, rfl, rfl⟩, ?_⟩
  exact compile_of_same_kinds hs hs' hp hp' hk rfl rfl

end StaticAssert
