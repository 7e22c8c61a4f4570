import StaticAssert.Compile.Unit
import StaticAssert.Proofs.Expr.Run
import StaticAssert.Proofs.Expr.Tree

/-!
# The turns of compiling a unit

Expecting a token, judging an assertion and reading the body, each as an equation on
the tokens to come and with a transcript. A unit is compiled by the body alone, so it
has one transcript as well.
-/

set_option autoImplicit false

namespace StaticAssert

namespace Parser

variable {tokens : Lookahead} {sink : Sink} {kind : Kind}

theorem expect_of_eq (h : tokens.upcoming.head.kind = kind) :
    expect ⟨tokens, sink⟩ kind = ⟨.ok tokens.upcoming.head, ⟨tokens.advance.2, sink⟩⟩ := by
  rw [expect, Lookahead.eat_of_eq h]

theorem expect_of_head {p : Site} (h : tokens.upcoming.head = p.token kind) (sink : Sink) :
    expect ⟨tokens, sink⟩ kind = ⟨.ok (p.token kind), ⟨tokens.advance.2, sink⟩⟩ := by
  have hk : tokens.upcoming.head.kind = kind := congrArg Token.kind h
  rw [expect_of_eq hk, h]

theorem expect_of_lexical {error : LexError} (h : tokens.upcoming.head.kind ≠ kind)
    (hl : tokens.upcoming.head.kind = .lexError error) :
    expect ⟨tokens, sink⟩ kind =
      .failed (stopAt ⟨tokens.fill, sink⟩ error tokens.upcoming.head) := by
  simp only [expect, Lookahead.eat_of_ne h, Lookahead.peek_fst, Lookahead.upcoming_fill]
  rw [hl]

theorem expect_of_other (h : tokens.upcoming.head.kind ≠ kind)
    (hl : ∀ error, tokens.upcoming.head.kind ≠ .lexError error) :
    expect ⟨tokens, sink⟩ kind =
      ⟨.error (.unexpected kind tokens.upcoming.head.kind tokens.upcoming.head.line),
        ⟨tokens.fill, sink⟩⟩ := by
  simp only [expect, Lookahead.eat_of_ne h, Lookahead.peek_fst, Lookahead.upcoming_fill]

theorem exists_describes_expect_of_ne (h : tokens.upcoming.head.kind ≠ kind) :
    ∃ records error, Transcript.Describes ⟨records, .error error, tokens.fill⟩
        (fun s => expect ⟨tokens, s⟩ kind) ∧
      ∀ d ∈ records, d.issue ≠ .assertionFailed := by
  by_cases hl : ∃ error, tokens.upcoming.head.kind = .lexError error
  · obtain ⟨error, hl⟩ := hl
    simp only [expect_of_lexical h hl]
    exact ⟨_, _, Transcript.describes_stopAt tokens.fill _ _,
      List.forall_mem_singleton.mpr (Diagnostic.issue_lexError_ne error _ _)⟩
  · simp only [expect_of_other h (not_exists.mp hl)]
    exact ⟨_, _, Transcript.describes_const _ tokens.fill, by simp⟩

theorem exists_describes_expect (tokens : Lookahead) (kind : Kind) :
    ∃ t : Transcript Token, (t.Describes fun s => expect ⟨tokens, s⟩ kind) ∧
      ∀ d ∈ t.records, d.issue ≠ .assertionFailed := by
  by_cases h : tokens.upcoming.head.kind = kind
  · simp only [expect_of_eq h]
    exact ⟨_, Transcript.describes_const _ tokens.advance.2, by simp⟩
  · obtain ⟨records, error, hd, hi⟩ := exists_describes_expect_of_ne h
    exact ⟨_, hd, hi⟩

theorem upcoming_of_expect_ok {token : Token}
    (h : (expect ⟨tokens, sink⟩ kind).result = .ok token) :
    tokens.upcoming.head = token ∧ token.kind = kind ∧
      (expect ⟨tokens, sink⟩ kind).parser = ⟨tokens.advance.2, sink⟩ := by
  by_cases hk : tokens.upcoming.head.kind = kind
  · rw [expect_of_eq hk] at h ⊢
    cases h
    exact ⟨rfl, hk, rfl⟩
  · obtain ⟨records, error, hd, -⟩ := exists_describes_expect_of_ne hk
    cases (hd.result_eq_ok_iff.mp h).1

theorem exists_describes_judge (tokens : Lookahead) (value : Operand) (line : Nat) (span : Span) :
    ∃ t : Transcript Unit, (t.Describes fun s => judge ⟨tokens, s⟩ value line span) ∧
      ∀ d ∈ t.records, d.issue = .assertionFailed → t.result = .ok () := by
  unfold judge
  split
  · exact ⟨_, Transcript.describes_const _ tokens, by simp⟩
  split
  · exact ⟨_, Transcript.describes_const _ tokens, by simp⟩
  · exact ⟨_, Transcript.describes_report tokens _, by simp⟩

theorem assertion_eq (tokens : Lookahead) (sink : Sink) :
    assertion ⟨tokens, sink⟩ =
      (expect ⟨tokens.advance.2, sink⟩ (.punct .leftParen)).andThen fun opening p =>
      (p.evaluate { constant := true }).andThen fun value p =>
      (p.expect (.punct .rightParen)).andThen fun closing p =>
      (p.expect (.punct .semicolon)).andThen fun _ p =>
      p.judge value tokens.upcoming.head.line ⟨opening.span.stop, closing.span.start⟩ := by
  rw [assertion, take_fst]
  rfl

theorem exists_describes_assertion (tokens : Lookahead) :
    ∃ t : Transcript Unit, (t.Describes fun s => assertion ⟨tokens, s⟩) ∧
      ∀ d ∈ t.records, d.issue = .assertionFailed → t.result = .ok () := by
  have quiet {ds : List Diagnostic} (h : ∀ d ∈ ds, d.issue ≠ .assertionFailed) :
      ∀ r : Except CompileError Unit, ∀ d ∈ ds, d.issue = .assertionFailed → r = .ok () :=
    fun _ d hd hi => absurd hi (h d hd)
  simp only [assertion_eq]
  obtain ⟨t, ht, hd⟩ := exists_describes_expect tokens.advance.2 (.punct .leftParen)
  refine Transcript.exists_describes_andThen ht (quiet hd) fun opening _ => ?_
  obtain ⟨u, hu, hd⟩ := exists_describes_evaluate { constant := true } t.tokens
  refine Transcript.exists_describes_andThen hu (quiet hd) fun value _ => ?_
  obtain ⟨v, hv, hd⟩ := exists_describes_expect u.tokens (.punct .rightParen)
  refine Transcript.exists_describes_andThen hv (quiet hd) fun closing _ => ?_
  obtain ⟨w, hw, hd⟩ := exists_describes_expect v.tokens (.punct .semicolon)
  exact Transcript.exists_describes_andThen hw (quiet hd) fun _ _ =>
    exists_describes_judge w.tokens _ _ _

def endsBody : Kind → Bool
  | .eof | .punct .rightBrace => true
  | _ => false

theorem body_of_end (h : endsBody tokens.upcoming.head.kind = true) :
    body ⟨tokens, sink⟩ = ⟨.ok (), ⟨tokens.fill, sink⟩⟩ := by
  rw [body, peek_fst]
  change endsBody (upcoming ⟨tokens, sink⟩).head.kind = true at h
  split <;> simp_all [endsBody, peek, Lookahead.peek]

theorem body_of_assertion (h : tokens.upcoming.head.kind = .keyword .staticAssert) :
    body ⟨tokens, sink⟩ = (assertion ⟨tokens, sink⟩).andThen fun _ p => p.body := by
  change (upcoming ⟨tokens, sink⟩).head.kind = _ at h
  rw [body, peek_fst]
  split <;> simp_all
  rw [Outcome.andThen]
  cases (assertion ⟨tokens, sink⟩).result <;> rfl

theorem body_of_lexical {error : LexError} (h : tokens.upcoming.head.kind = .lexError error) :
    body ⟨tokens, sink⟩ =
      .failed (stopAt ⟨tokens.fill, sink⟩ error tokens.upcoming.head) := by
  change (upcoming ⟨tokens, sink⟩).head.kind = _ at h
  rw [body, peek_fst]
  split <;> simp_all
  rfl

theorem body_of_other (he : endsBody tokens.upcoming.head.kind = false)
    (ha : tokens.upcoming.head.kind ≠ .keyword .staticAssert)
    (hl : ∀ error, tokens.upcoming.head.kind ≠ .lexError error) :
    body ⟨tokens, sink⟩ =
      ⟨.error (.unsupported .statement tokens.upcoming.head.line), ⟨tokens.fill, sink⟩⟩ := by
  change endsBody (upcoming ⟨tokens, sink⟩).head.kind = false at he
  change (upcoming ⟨tokens, sink⟩).head.kind ≠ _ at ha
  change ∀ error, (upcoming ⟨tokens, sink⟩).head.kind ≠ .lexError error at hl
  rw [body, peek_fst]
  split <;> simp_all [endsBody]
  exact ⟨rfl, rfl⟩

theorem exists_describes_body_of_other (he : endsBody tokens.upcoming.head.kind = false)
    (ha : tokens.upcoming.head.kind ≠ .keyword .staticAssert) :
    ∃ records error, Transcript.Describes ⟨records, .error error, tokens.fill⟩
        (fun s => body ⟨tokens, s⟩) ∧
      ∀ d ∈ records, d.issue ≠ .assertionFailed := by
  by_cases hl : ∃ error, tokens.upcoming.head.kind = .lexError error
  · obtain ⟨error, hl⟩ := hl
    simp only [body_of_lexical hl]
    exact ⟨_, _, Transcript.describes_stopAt tokens.fill _ _,
      List.forall_mem_singleton.mpr (Diagnostic.issue_lexError_ne error _ _)⟩
  · simp only [body_of_other he ha (not_exists.mp hl)]
    exact ⟨_, _, Transcript.describes_const _ tokens.fill, by simp⟩

theorem remaining_assertion_lt_of_kind
    (h : tokens.upcoming.head.kind = .keyword .staticAssert) (sink : Sink) :
    (assertion ⟨tokens, sink⟩).parser.remaining < tokens.remaining := by
  have he : (peek ⟨tokens, sink⟩).1.isEof = false := by
    rw [peek_fst]
    apply Bool.eq_false_iff.mpr
    intro he
    rw [Token.isEof_iff] at he
    cases he.symm.trans h
  exact remaining_assertion_lt he

/-- What each turn of a body carries over from the turns behind it holds of all bodies. -/
@[elab_as_elim]
theorem body_induction {motive : Lookahead → Prop}
    (statement : ∀ {tokens}, tokens.upcoming.head.kind = .keyword .staticAssert →
      (∀ t : Transcript Unit, (t.Describes fun s => assertion ⟨tokens, s⟩) → motive t.tokens) →
      motive tokens)
    (ended : ∀ {tokens}, endsBody tokens.upcoming.head.kind = true → motive tokens)
    (other : ∀ {tokens}, endsBody tokens.upcoming.head.kind = false →
      tokens.upcoming.head.kind ≠ .keyword .staticAssert → motive tokens)
    (tokens : Lookahead) : motive tokens := by
  induction hn : tokens.remaining using Nat.strong_induction_on generalizing tokens with
  | _ n ih =>
  subst hn
  by_cases ha : tokens.upcoming.head.kind = .keyword .staticAssert
  · refine statement ha fun t ht => ih _ ?_ _ rfl
    have h := remaining_assertion_lt_of_kind ha (.empty t.records.length)
    rwa [ht.room (.empty t.records.length) (Nat.le_refl _)] at h
  cases he : endsBody tokens.upcoming.head.kind with
  | true => exact ended he
  | false => exact other he ha

theorem exists_describes_body (tokens : Lookahead) :
    ∃ t : Transcript Unit, t.Describes fun s => body ⟨tokens, s⟩ := by
  induction tokens using body_induction with
  | @statement tokens ha ih =>
    obtain ⟨t, ht, -⟩ := exists_describes_assertion tokens
    obtain ⟨u, hu⟩ := ih t ht
    simp only [body_of_assertion ha]
    obtain ⟨v, hv, -⟩ := Transcript.exists_describes_andThen (P := fun _ _ => True) ht (by simp)
      fun _ _ => ⟨u, hu, by simp⟩
    exact ⟨v, hv⟩
  | ended he =>
    simp only [body_of_end he]
    exact ⟨_, Transcript.describes_const _ _⟩
  | other he ha =>
    obtain ⟨records, error, hd, -⟩ := exists_describes_body_of_other he ha
    exact ⟨_, hd⟩

end Parser

def bodyTokens (text : String) : Lookahead :=
  .ofScanner (.start ((Buffer.ofText text).cursorAt bodyStart))

def compilation (text : String) (sink : Sink) : Outcome Unit :=
  if opens text then Parser.body ⟨bodyTokens text, sink⟩
  else ⟨.error .missingPrelude, ⟨bodyTokens text, sink⟩⟩

theorem compile_eq (text : String) (sink : Sink) :
    compile text sink = ((compilation text sink).result, (compilation text sink).parser.sink) := by
  rw [compile, compilation]
  split <;> rfl

theorem exists_describes_compilation (text : String) :
    ∃ t : Transcript Unit, t.Describes (compilation text) := by
  unfold compilation
  split
  · exact Parser.exists_describes_body (bodyTokens text)
  · exact ⟨_, Transcript.describes_const _ (bodyTokens text)⟩

end StaticAssert
