import Mathlib.Data.List.Basic
import StaticAssert.Proofs.Compile.Body
import StaticAssert.Proofs.Expr.Acceptance
import StaticAssert.Proofs.Token.Tiling

/-!
# What is accepted as a unit

A statement is the five parts of a static assertion. A body is a sequence of
statements and a token that ends it, and compiling records for each statement what
its expression records, and then the statement itself if its value is zero. A unit
that does not have this form is refused, however many records find room.
-/

set_option autoImplicit false

namespace StaticAssert

open scoped Stream'

structure Statement where
  keyword : Site
  opening : Site
  value : Tree
  closing : Site
  semicolon : Site
  deriving DecidableEq

namespace Statement

def tokens (s : Statement) : List Token :=
  s.keyword.token (.keyword .staticAssert) :: s.opening.token (.punct .leftParen) ::
    (s.value.tokens ++
      [s.closing.token (.punct .rightParen), s.semicolon.token (.punct .semicolon)])

structure Grammatical (s : Statement) : Prop where
  grammar : s.value.InStratum 6
  shallow : s.value.Shallow 0

def span (s : Statement) : Span := ⟨s.opening.span.stop, s.closing.span.start⟩

def recordsOn (line : Nat) (s : Statement) : List Diagnostic :=
  s.value.records ++ if s.value.value = 0 then [.assertionFailed line s.span] else []

def records (text : String) (s : Statement) : List Diagnostic :=
  -- What a statement of a text records; its line counts the newlines before the keyword.
  s.recordsOn (1 + Byte.newlines ((Byte.ofText text).take s.keyword.span.start))

end Statement

namespace Parser

variable {tokens : Lookahead} {sink : Sink} {s : Statement} {rest : Stream' Token}

theorem describes_judge (tokens : Lookahead) (e : Tree) (line : Nat) (span : Span) :
    Transcript.Describes
      ⟨if e.value = 0 then [.assertionFailed line span] else [], .ok (), tokens⟩
      fun sink => judge ⟨tokens, sink⟩ e.operand line span := by
  unfold judge
  simp only [e.operand_immediate, e.operand_isTrue]
  by_cases h : e.value = 0
  · simp only [h]
    exact Transcript.describes_report tokens _
  · simp only [h]
    simpa [h] using Transcript.describes_const _ tokens

theorem exists_describes_assertion_of_statement (hs : s.Grammatical)
    (h : tokens.upcoming = s.tokens ++ₛ rest) :
    ∃ tokens' : Lookahead, tokens'.upcoming = rest ∧
      Transcript.Describes ⟨s.recordsOn s.keyword.line, .ok (), tokens'⟩
        fun sink => assertion ⟨tokens, sink⟩ := by
  have hk : tokens.upcoming.head.line = s.keyword.line := by
    rw [h]
    rfl
  have hp : tokens.advance.2.upcoming.head = s.opening.token (.punct .leftParen) := by
    rw [Lookahead.upcoming_advance, h]
    rfl
  have hv : ExprFlags.Offers { constant := true } tokens.advance.2.advance.2.upcoming s.value
      (s.closing.token (.punct .rightParen) ::
        s.semicolon.token (.punct .semicolon) :: rest) := by
    refine ⟨hs.grammar, hs.shallow, ?_, rfl⟩
    rw [Lookahead.upcoming_advance, Lookahead.upcoming_advance, h, Statement.tokens,
      Stream'.cons_append_stream, Stream'.cons_append_stream, Stream'.append_append_stream]
    rfl
  obtain ⟨tokens₁, ht, hd⟩ := exists_describes_evaluate_of_offers hv
  have hc : tokens₁.upcoming.head = s.closing.token (.punct .rightParen) := by
    rw [ht]
    rfl
  have hm : tokens₁.advance.2.upcoming.head = s.semicolon.token (.punct .semicolon) := by
    rw [Lookahead.upcoming_advance, ht]
    rfl
  refine ⟨tokens₁.advance.2.advance.2, ?_, ?_⟩
  · rw [Lookahead.upcoming_advance, Lookahead.upcoming_advance, ht]
    rfl
  simp only [assertion_eq, hk, expect_of_head hp, Outcome.andThen_ok]
  refine Transcript.describes_andThen_ok (u := ⟨_, .ok (), _⟩) hd rfl ?_
  simp only [expect_of_head hc, expect_of_head hm, Outcome.andThen_ok]
  exact describes_judge tokens₁.advance.2.advance.2 s.value s.keyword.line s.span

/-- What passes for an assertion is a statement. -/
theorem exists_statement_of_assertion
    (hk : tokens.upcoming.head.kind = .keyword .staticAssert)
    (h : (assertion ⟨tokens, sink⟩).result = .ok ()) :
    ∃ (s : Statement) (rest : Stream' Token),
      s.Grammatical ∧ tokens.upcoming = s.tokens ++ₛ rest := by
  rw [assertion_eq] at h
  obtain ⟨opening, hr, ha⟩ := Outcome.ok_of_andThen h
  obtain ⟨hoh, hok, hp⟩ := upcoming_of_expect_ok hr
  rw [ha, hp] at h
  obtain ⟨x, hr, ha⟩ := Outcome.ok_of_andThen h
  obtain ⟨e, -, he⟩ := offers_of_evaluate hr
  rw [ha] at h
  generalize (evaluate ⟨tokens.advance.2.advance.2, sink⟩ { constant := true }).parser = p at h he
  obtain ⟨tokens₁, sink₁⟩ := p
  obtain ⟨closing, hr, ha⟩ := Outcome.ok_of_andThen h
  obtain ⟨hch, hck, hp⟩ := upcoming_of_expect_ok hr
  rw [ha, hp] at h
  obtain ⟨semicolon, hr, -⟩ := Outcome.ok_of_andThen h
  obtain ⟨hsh, hsk, -⟩ := upcoming_of_expect_ok hr
  refine ⟨⟨tokens.upcoming.head.site, opening.site, e, closing.site, semicolon.site⟩,
    tokens₁.advance.2.advance.2.upcoming, ⟨he.grammar, he.shallow⟩, ?_⟩
  have ht : tokens.upcoming = [tokens.upcoming.head] ++ₛ ([opening] ++ₛ (e.tokens ++ₛ
      ([closing] ++ₛ ([semicolon] ++ₛ tokens₁.advance.2.advance.2.upcoming)))) := by
    rw [← Lookahead.upcoming_of_head hsh, ← Lookahead.upcoming_of_head hch]
    change _ = [tokens.upcoming.head] ++ₛ ([opening] ++ₛ (e.tokens ++ₛ upcoming ⟨tokens₁, sink₁⟩))
    rw [← he.tokens, ← Lookahead.upcoming_of_head hoh, ← Lookahead.upcoming_of_head rfl]
  rw [ht]
  simp only [← Stream'.append_append_stream]
  simp [Statement.tokens, Token.token_site hk, Token.token_site hok, Token.token_site hck,
    Token.token_site hsk]

theorem exists_describes_body_of_statements {statements : List Statement}
    (hs : ∀ s ∈ statements, s.Grammatical)
    (h : tokens.upcoming = statements.flatMap Statement.tokens ++ₛ rest)
    (he : endsBody rest.head.kind = true) :
    ∃ tokens' : Lookahead, Transcript.Describes
      ⟨statements.flatMap fun s => s.recordsOn s.keyword.line, .ok (), tokens'⟩
      fun sink => body ⟨tokens, sink⟩ := by
  induction statements generalizing tokens with
  | nil =>
    have he' : endsBody tokens.upcoming.head.kind = true := by
      rw [h]
      exact he
    simp only [body_of_end he']
    exact ⟨tokens.fill, Transcript.describes_const _ tokens.fill⟩
  | cons s statements ih =>
    rw [List.flatMap_cons, Stream'.append_append_stream] at h
    have hk : tokens.upcoming.head.kind = .keyword .staticAssert := by
      rw [h]
      rfl
    obtain ⟨tokens₁, ht, hd⟩ :=
      exists_describes_assertion_of_statement (hs s List.mem_cons_self) h
    obtain ⟨tokens', hb⟩ := ih (fun s' hs' => hs s' (List.mem_cons_of_mem s hs')) ht
    simp only [body_of_assertion hk]
    exact ⟨tokens', Transcript.describes_andThen_ok (u := ⟨_, .ok (), tokens'⟩) hd rfl hb⟩

theorem exists_statements_of_body (h : (body ⟨tokens, sink⟩).result = .ok ()) :
    ∃ (statements : List Statement) (rest : Stream' Token),
      (∀ s ∈ statements, s.Grammatical) ∧
      tokens.upcoming = statements.flatMap Statement.tokens ++ₛ rest ∧
      endsBody rest.head.kind = true := by
  induction tokens using body_induction generalizing sink with
  | @statement tokens hk ih =>
    rw [body_of_assertion hk] at h
    obtain ⟨_, ha, hb⟩ := Outcome.ok_of_andThen h
    obtain ⟨s, rest, hs, ht⟩ := exists_statement_of_assertion hk ha
    obtain ⟨tokens₁, rfl, hd⟩ := exists_describes_assertion_of_statement hs ht
    rw [hb, hd.room sink (hd.result_eq_ok_iff.mp ha).2] at h
    obtain ⟨statements, rest, hg, hu, he⟩ := ih _ hd h
    refine ⟨s :: statements, rest, List.forall_mem_cons.mpr ⟨hs, hg⟩, ?_, he⟩
    rw [ht, hu, List.flatMap_cons, Stream'.append_append_stream]
  | @ended tokens he => exact ⟨[], tokens.upcoming, by simp, rfl, he⟩
  | other he hk =>
    obtain ⟨records, error, hd, -⟩ := exists_describes_body_of_other he hk
    cases (hd.result_eq_ok_iff.mp h).1

end Parser

def unitTokens (text : String) : Stream' Token :=
  (Scanner.start ((Buffer.ofText text).cursorAt 12)).stream

/-- A text is a unit that consists of some statements. -/
structure Asserts (text : String) (statements : List Statement) : Prop where
  size : 20 ≤ (Byte.ofText text).length
  opening : Byte.ofText "void main()\x7b" <+: Byte.ofText text
  grammatical : ∀ s ∈ statements, s.Grammatical
  tokens : ∃ rest, unitTokens text = statements.flatMap Statement.tokens ++ₛ rest ∧
    Parser.endsBody rest.head.kind = true

/-- What a unit records, statement by statement. -/
def unitRecords (text : String) (statements : List Statement) : List Diagnostic :=
  statements.flatMap (Statement.records text)

theorem opens_iff (text : String) :
    opens text = true ↔
      20 ≤ (Byte.ofText text).length ∧ Byte.ofText "void main()\x7b" <+: Byte.ofText text := by
  rw [opens, Bool.and_eq_true, decide_eq_true_iff, List.isPrefixOf_iff_prefix]
  rfl

theorem upcoming_bodyTokens (text : String) : (bodyTokens text).upcoming = unitTokens text := by
  rw [bodyTokens, Lookahead.upcoming_ofScanner]
  rfl

section UnitLines

variable {text : String}

theorem bodyStart_le_size (h : opens text = true) : 12 ≤ (Buffer.ofText text).size := by
  have hl := ((opens_iff text).mp h).1
  have hm : 12 ≤ Buffer.maxSize := by decide
  rw [Buffer.size_ofText]
  omega

theorem countsFrom_start (h : opens text = true) :
    (Scanner.start ((Buffer.ofText text).cursorAt 12)).CountsFrom ⟨12, 1⟩ := by
  have hp : (Scanner.start ((Buffer.ofText text).cursorAt 12)).snapshot = ⟨12, 1⟩ :=
    congrArg (Snapshot.mk · 1) (Nat.min_eq_left (bodyStart_le_size h))
  rw [← hp]
  exact Scanner.countsFrom_snapshot _

/-- Nothing in the opening ends a line, so the lines behind it are those of the text. -/
theorem line_of_mem_unitTokens (h : opens text = true) {t : Token} (ht : t ∈ unitTokens text) :
    t.line = 1 + Byte.newlines ((Byte.ofText text).take t.span.start) := by
  have hs := bodyStart_le_size h
  have hm := (Buffer.ofText text).size_le_maxSize
  have hd : Byte.newlines ((Buffer.ofText text).bytes.drop 12) ≤ (Buffer.ofText text).size - 12 :=
    Nat.le_trans List.count_le_length (Nat.le_of_eq List.length_drop)
  have hb : (Buffer.ofText text).bytes.take 12 = Byte.ofText "void main()\x7b" := by
    obtain ⟨rest, hr⟩ := ((opens_iff text).mp h).2
    rw [Buffer.take_ofText hs, ← hr]
    exact List.take_left' (by decide)
  have hstart := (Scanner.line_of_mem_stream (countsFrom_start h) ht).1
  have hstop := Scanner.stop_le_of_mem_stream (Scanner.inSource_start (Buffer.ofText text) 12) ht
  have hone : (1 : UInt32).toNat = 1 := rfl
  have hroom : 1 + Byte.newlines ((Buffer.ofText text).bytes.drop 12) < 2 ^ 32 := by
    have hsize : Buffer.maxSize + 1 = 2 ^ 32 := rfl
    omega
  rw [Scanner.line_of_mem_stream_of_lt (countsFrom_start h) hroom ht, hone,
    ← Buffer.take_ofText (Nat.le_trans hstop.1 hstop.2), Span.take_eq_append_slice hstart,
    Byte.newlines_append, hb]
  exact congrArg (1 + ·) (Nat.zero_add _).symm

end UnitLines

namespace Asserts

variable {text : String} {statements : List Statement}

theorem of_take {n : Nat} (hs : 20 ≤ (Byte.ofText text).length)
    (ho : Byte.ofText "void main()\x7b" <+: Byte.ofText text)
    (hg : ∀ s ∈ statements, s.Grammatical)
    (ht : (unitTokens text).take n = statements.flatMap Statement.tokens)
    (he : Parser.endsBody ((unitTokens text).drop n).head.kind = true) :
    Asserts text statements where
  size := hs
  opening := ho
  grammatical := hg
  tokens := ⟨(unitTokens text).drop n, by rw [← ht, Stream'.append_take_drop], he⟩

theorem opens_eq (h : Asserts text statements) : opens text = true :=
  (opens_iff text).mpr ⟨h.size, h.opening⟩

theorem line_keyword (h : Asserts text statements) {s : Statement} (hs : s ∈ statements) :
    s.keyword.line = 1 + Byte.newlines ((Byte.ofText text).take s.keyword.span.start) := by
  obtain ⟨rest, ht, -⟩ := h.tokens
  have hm : s.keyword.token (.keyword .staticAssert) ∈ unitTokens text := by
    rw [ht]
    exact Stream'.mem_append_stream_left rest
      (List.mem_flatMap.mpr ⟨s, hs, List.mem_cons_self⟩)
  exact line_of_mem_unitTokens h.opens_eq hm

theorem exists_describes (h : Asserts text statements) :
    ∃ tokens : Lookahead, Transcript.Describes
      ⟨unitRecords text statements, .ok (), tokens⟩ (compilation text) := by
  obtain ⟨rest, ht, he⟩ := h.tokens
  rw [← upcoming_bodyTokens] at ht
  obtain ⟨tokens', hd⟩ := Parser.exists_describes_body_of_statements h.grammatical ht he
  have hr : unitRecords text statements =
      statements.flatMap fun s => s.recordsOn s.keyword.line := by
    apply List.flatMap_congr
    intro s hs
    rw [Statement.records, h.line_keyword hs]
  have ho : opens text = true := h.opens_eq
  rw [hr]
  refine ⟨tokens', ?_⟩
  unfold compilation
  simp only [ho, if_true]
  exact hd

theorem unitRecords_eq_nil (ha : Asserts text statements) {sink : Sink}
    (h : compile text sink = (.ok (), sink)) : unitRecords text statements = [] := by
  obtain ⟨tokens, hd⟩ := ha.exists_describes
  rw [compile_eq, Prod.mk.injEq] at h
  have ho := hd.room sink (hd.result_eq_ok_iff.mp h.1).2
  rw [ho] at h
  exact Sink.eq_nil_of_append_eq_self h.2

end Asserts

theorem exists_asserts_of_compilation {text : String} {sink : Sink}
    (h : (compilation text sink).result = .ok ()) : ∃ statements, Asserts text statements := by
  unfold compilation at h
  split at h
  next ho =>
    obtain ⟨hs, hp⟩ := (opens_iff text).mp ho
    obtain ⟨statements, rest, hg, ht, he⟩ := Parser.exists_statements_of_body h
    rw [upcoming_bodyTokens] at ht
    exact ⟨statements, hs, hp, hg, rest, ht, he⟩
  next => cases h

/-- What is accepted as a unit, and what it then records. -/
theorem compile_agrees_with_grammar (text : String) (sink sink' : Sink) :
    compile text sink = (.ok (), sink') ↔
      ∃ statements, Asserts text statements ∧
        (unitRecords text statements).length ≤ sink.free ∧
        sink' = sink.append (unitRecords text statements) := by
  rw [compile_eq, Prod.mk.injEq]
  constructor
  · rintro ⟨hr, rfl⟩
    obtain ⟨statements, ha⟩ := exists_asserts_of_compilation hr
    obtain ⟨tokens, hd⟩ := ha.exists_describes
    have hs := (hd.result_eq_ok_iff.mp hr).2
    refine ⟨statements, ha, hs, ?_⟩
    rw [hd.room sink hs]
  · rintro ⟨statements, ha, hs, rfl⟩
    obtain ⟨tokens, hd⟩ := ha.exists_describes
    rw [hd.room sink hs]
    exact ⟨rfl, rfl⟩

end StaticAssert
