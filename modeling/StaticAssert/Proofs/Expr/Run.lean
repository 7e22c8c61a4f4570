import StaticAssert.Expr.Reading
import StaticAssert.Proofs.Compile.Transcript
import StaticAssert.Proofs.Token.Stream

/-!
# The turns of reading an expression

One equation for each role that the next token can have says what the rest of the run
is. Reducing is written as a parsing step of its own: it takes no token, records what
it has to, and answers with the stack it leaves. Every run has a transcript, so the
sink never decides what is read.
-/

set_option autoImplicit false

namespace StaticAssert

namespace Lookahead

@[simp] theorem advance_fill (l : Lookahead) : l.fill.advance = l.advance := by
  simp [advance, peek]

theorem remaining_advance_lt_of_kind {l : Lookahead} (h : l.upcoming.head.kind ≠ .eof) :
    l.advance.2.remaining < l.remaining := by
  refine remaining_advance_lt (Bool.eq_false_iff.mpr fun he => h ?_)
  rwa [Token.isEof_iff, peek_fst] at he

end Lookahead

namespace Pending

def records (top : Pending) (folded : Folded) : List Diagnostic :=
  if folded.wrapped then
    [.signedOverflow top.operator.operation.code top.line folded.operand.span]
  else []

theorem issue_of_mem_records {top : Pending} {folded : Folded} {d : Diagnostic}
    (h : d ∈ top.records folded) : d.issue = .signedOverflow := by
  unfold records at h
  split at h
  · rw [List.mem_singleton.mp h]
    rfl
  · cases h

def recording (top : Pending) (folded : Folded) (p : Parser) : Outcome Unit :=
  if folded.wrapped then
    p.report (.signedOverflow top.operator.operation.code top.line folded.operand.span)
  else ⟨.ok (), p⟩

theorem describes_recording (top : Pending) (folded : Folded) (tokens : Lookahead) :
    Transcript.Describes ⟨top.records folded, .ok (), tokens⟩
      fun s => top.recording folded ⟨tokens, s⟩ := by
  unfold records recording
  by_cases h : folded.wrapped = true
  · simp only [h, if_true]
    exact Transcript.describes_report tokens _
  · simp only [h]
    exact Transcript.describes_const _ _

end Pending

namespace Stacks

def reduction (s : Stacks) (incoming : Operator) (p : Parser) : Outcome Stacks :=
  ⟨(s.reduce incoming p.sink).1, { p with sink := (s.reduce incoming p.sink).2 }⟩

variable {incoming : Operator} {xs : List Operand} {top : Pending} {below : List Pending}

theorem reduction_nil (p : Parser) :
    reduction ⟨xs, []⟩ incoming p = ⟨.ok ⟨xs, []⟩, p⟩ := rfl

theorem reduction_of_not_yields (h : top.operator.yieldsTo incoming = false) (p : Parser) :
    reduction ⟨xs, top :: below⟩ incoming p = ⟨.ok ⟨xs, top :: below⟩, p⟩ := by
  simp [reduction, reduce, reduceFrom, h]

theorem reduction_of_unfoldable (h : top.operator.yieldsTo incoming = true)
    (hf : top.fold? xs = none) (p : Parser) :
    reduction ⟨xs, top :: below⟩ incoming p =
      ⟨.error (.malformed xs.length below.length top.line), p⟩ := by
  simp [reduction, reduce, reduceFrom, h, hf]

theorem reduction_of_yields {folded : Folded} {rest : List Operand}
    (h : top.operator.yieldsTo incoming = true) (hf : top.fold? xs = some (folded, rest))
    (p : Parser) :
    reduction ⟨xs, top :: below⟩ incoming p =
      (top.recording folded p).andThen fun _ p' =>
        reduction ⟨folded.operand :: rest, below⟩ incoming p' := by
  simp only [reduction, reduce, reduceFrom, h, hf, if_true, Pending.record, Pending.recording]
  by_cases hw : folded.wrapped = true
  · simp only [hw, if_true, Parser.report]
    cases p.sink.push
      (.signedOverflow top.operator.operation.code top.line folded.operand.span) <;> rfl
  · simp only [hw]
    rfl

theorem exists_describes_reduction (incoming : Operator) (s : Stacks) (tokens : Lookahead) :
    ∃ records result, Transcript.Describes ⟨records, result, tokens⟩
        (fun sink => s.reduction incoming ⟨tokens, sink⟩) ∧
      ∀ d ∈ records, d.issue = .signedOverflow := by
  obtain ⟨xs, ps⟩ := s
  induction ps generalizing xs with
  | nil =>
    simp only [reduction_nil]
    exact ⟨_, _, Transcript.describes_const _ tokens, by simp⟩
  | cons top below ih =>
    cases hy : top.operator.yieldsTo incoming with
    | false =>
      simp only [reduction_of_not_yields hy]
      exact ⟨_, _, Transcript.describes_const _ tokens, by simp⟩
    | true =>
      cases hf : top.fold? xs with
      | none =>
        simp only [reduction_of_unfoldable hy hf]
        exact ⟨_, _, Transcript.describes_const _ tokens, by simp⟩
      | some folding =>
        obtain ⟨folded, rest⟩ := folding
        simp only [reduction_of_yields hy hf]
        obtain ⟨records, result, hd, hi⟩ := ih (folded.operand :: rest)
        exact ⟨_, _, Transcript.describes_andThen_ok (u := ⟨records, result, tokens⟩)
          (top.describes_recording folded tokens) rfl hd,
          List.forall_mem_append.mpr ⟨fun d => top.issue_of_mem_records, hi⟩⟩

end Stacks

namespace Reading

variable {flags : ExprFlags} {line : Nat} {tokens : Lookahead} {sink : Sink}
variable {stack : Stacks} {after : Bool}

theorem run_eq (flags : ExprFlags) (line : Nat) (r : Reading) :
    r.run flags line =
      match r.step flags with
      | .more next => next.run flags line
      | .done last => last.finish flags line
      | .failed error parser => ⟨.error error, parser⟩ := by
  rw [run]
  split <;> simp_all

theorem look_eq (tokens : Lookahead) (sink : Sink) (stack : Stacks) (after : Bool) :
    look ⟨⟨tokens, sink⟩, stack, after⟩ =
      (tokens.upcoming.head, ⟨⟨tokens.fill, sink⟩, stack, after⟩) := by
  rw [look, Parser.peek_fst]
  rfl

theorem step_eq (flags : ExprFlags) (tokens : Lookahead) (sink : Sink) (stack : Stacks)
    (after : Bool) :
    step flags ⟨⟨tokens, sink⟩, stack, after⟩ =
      readRole ⟨⟨tokens.fill, sink⟩, stack, after⟩ tokens.upcoming.head
        (.ofKind flags after tokens.upcoming.head.kind) := by
  rw [step, look_eq]

theorem take_fill (tokens : Lookahead) (sink : Sink) :
    (⟨tokens.fill, sink⟩ : Parser).take.2 = ⟨tokens.advance.2, sink⟩ := by
  rw [Parser.take, Lookahead.advance_fill]

theorem step_of_operand {literal : NumberLiteral}
    (h : Role.ofKind flags after tokens.upcoming.head.kind = .operand literal) :
    step flags ⟨⟨tokens, sink⟩, stack, after⟩ =
      if Unsupported.pendingLimit ≤ stack.operands.length then
        .failed (.unsupported .operandOverflow tokens.upcoming.head.line) ⟨tokens.fill, sink⟩
      else
        .more ⟨⟨tokens.advance.2, sink⟩,
          stack.pushOperand (.literal literal tokens.upcoming.head.span), true⟩ := by
  rw [step_eq, h, readRole, readOperand, take_fill]

theorem run_of_operand {literal : NumberLiteral}
    (h : Role.ofKind flags after tokens.upcoming.head.kind = .operand literal) :
    run flags line ⟨⟨tokens, sink⟩, stack, after⟩ =
      if Unsupported.pendingLimit ≤ stack.operands.length then
        ⟨.error (.unsupported .operandOverflow tokens.upcoming.head.line), ⟨tokens.fill, sink⟩⟩
      else
        run flags line ⟨⟨tokens.advance.2, sink⟩,
          stack.pushOperand (.literal literal tokens.upcoming.head.span), true⟩ := by
  rw [run_eq, step_of_operand h]
  by_cases hl : Unsupported.pendingLimit ≤ stack.operands.length
  · rw [if_pos hl, if_pos hl]
  · rw [if_neg hl, if_neg hl]

theorem step_of_operator {operator : Operator}
    (h : Role.ofKind flags after tokens.upcoming.head.kind = .operator operator) :
    step flags ⟨⟨tokens, sink⟩, stack, after⟩ =
      match stack.reduction operator ⟨tokens.advance.2, sink⟩ with
      | ⟨.error error, p⟩ => .failed error p
      | ⟨.ok stack', p⟩ =>
        if Unsupported.pendingLimit ≤ stack'.operators.length then
          .failed (.unsupported .operatorOverflow tokens.upcoming.head.line) p
        else
          .more ⟨p, stack'.pushOperator
            ⟨operator, tokens.upcoming.head.span, tokens.upcoming.head.line⟩, false⟩ := by
  rw [step_eq, h, readRole, readOperator, take_fill, Stacks.reduction]
  rcases stack.reduce operator sink with ⟨error | stack', sink'⟩ <;> rfl

theorem run_of_operator {operator : Operator}
    (h : Role.ofKind flags after tokens.upcoming.head.kind = .operator operator) :
    run flags line ⟨⟨tokens, sink⟩, stack, after⟩ =
      (stack.reduction operator ⟨tokens.advance.2, sink⟩).andThen fun stack' p =>
        if Unsupported.pendingLimit ≤ stack'.operators.length then
          ⟨.error (.unsupported .operatorOverflow tokens.upcoming.head.line), p⟩
        else
          run flags line ⟨p, stack'.pushOperator
            ⟨operator, tokens.upcoming.head.span, tokens.upcoming.head.line⟩, false⟩ := by
  rw [run_eq, step_of_operator h, Outcome.andThen]
  rcases stack.reduction operator ⟨tokens.advance.2, sink⟩ with ⟨error | stack', p⟩
  · rfl
  · by_cases hl : Unsupported.pendingLimit ≤ stack'.operators.length
    · simp only [if_pos hl]
    · simp only [if_neg hl]

theorem run_of_terminator
    (h : Role.ofKind flags after tokens.upcoming.head.kind = .terminator) :
    run flags line ⟨⟨tokens, sink⟩, stack, after⟩ =
      (stack.reduction .collapse ⟨tokens.fill, sink⟩).andThen fun stack' p =>
        ⟨verdict flags line tokens.upcoming.head
          (stack'.pushOperator (.marker .collapse tokens.upcoming.head.line)), p⟩ := by
  rw [run_eq, step_eq, h, readRole]
  simp only [finish, look_eq, Lookahead.upcoming_fill, Lookahead.fill_fill, Stacks.reduction]
  rcases stack.reduce .collapse sink with ⟨error | stack', sink'⟩ <;> rfl

theorem run_of_lexical {error : LexError}
    (h : Role.ofKind flags after tokens.upcoming.head.kind = .lexical error) :
    run flags line ⟨⟨tokens, sink⟩, stack, after⟩ =
      .failed (Parser.stopAt ⟨tokens.fill, sink⟩ error tokens.upcoming.head) := by
  rw [run_eq, step_eq, h]
  rfl

theorem run_of_refused {feature : Unsupported}
    (h : Role.ofKind flags after tokens.upcoming.head.kind = .refused feature) :
    run flags line ⟨⟨tokens, sink⟩, stack, after⟩ =
      ⟨.error (.unsupported feature tokens.upcoming.head.line), ⟨tokens.fill, sink⟩⟩ := by
  rw [run_eq, step_eq, h]
  rfl

theorem kind_ne_eof_of_role {kind : Kind} (h : Role.ofKind flags after kind ≠ .terminator) :
    kind ≠ .eof := by
  rintro rfl
  exact h (Role.ofKind_eof flags after)

theorem exists_describes_run (flags : ExprFlags) (line : Nat) (tokens : Lookahead)
    (stack : Stacks) (after : Bool) :
    ∃ t : Transcript Operand,
      (t.Describes fun s => run flags line ⟨⟨tokens, s⟩, stack, after⟩) ∧
        ∀ d ∈ t.records, d.issue ≠ .assertionFailed := by
  induction hn : tokens.remaining using Nat.strong_induction_on
    generalizing tokens stack after with
  | _ n ih =>
  subst hn
  have quiet {ds : List Diagnostic} (h : ∀ d ∈ ds, d.issue = .signedOverflow) :
      ∀ d ∈ ds, d.issue ≠ .assertionFailed := by
    intro d hd
    rw [h d hd]
    decide
  cases hr : Role.ofKind flags after tokens.upcoming.head.kind with
  | operand literal =>
    have hlt : tokens.advance.2.remaining < tokens.remaining :=
      Lookahead.remaining_advance_lt_of_kind (kind_ne_eof_of_role (by rw [hr]; simp))
    simp only [run_of_operand hr]
    split
    · exact ⟨_, Transcript.describes_const _ tokens.fill, by simp⟩
    · exact ih _ hlt _ _ _ rfl
  | operator operator =>
    have hlt : tokens.advance.2.remaining < tokens.remaining :=
      Lookahead.remaining_advance_lt_of_kind (kind_ne_eof_of_role (by rw [hr]; simp))
    simp only [run_of_operator hr]
    obtain ⟨records, result, hd, hi⟩ := stack.exists_describes_reduction operator tokens.advance.2
    refine Transcript.exists_describes_andThen hd (fun _ => quiet hi) fun stack' _ => ?_
    split
    · exact ⟨_, Transcript.describes_const _ tokens.advance.2, by simp⟩
    · exact ih _ hlt _ _ _ rfl
  | terminator =>
    simp only [run_of_terminator hr]
    obtain ⟨records, result, hd, hi⟩ := stack.exists_describes_reduction .collapse tokens.fill
    exact Transcript.exists_describes_andThen hd (fun _ => quiet hi) fun stack' _ =>
      ⟨_, Transcript.describes_const _ tokens.fill, by simp⟩
  | lexical error =>
    simp only [run_of_lexical hr]
    exact ⟨_, Transcript.describes_stopAt tokens.fill error _,
      List.forall_mem_singleton.mpr (Diagnostic.issue_lexError_ne error _ _)⟩
  | refused feature =>
    simp only [run_of_refused hr]
    exact ⟨_, Transcript.describes_const _ tokens.fill, by simp⟩

end Reading

namespace Parser

theorem evaluate_eq (tokens : Lookahead) (sink : Sink) (flags : ExprFlags) :
    evaluate ⟨tokens, sink⟩ flags =
      Reading.run flags tokens.upcoming.head.line
        ⟨⟨tokens.fill, sink⟩, .start tokens.upcoming.head.line, false⟩ := by
  rw [evaluate, Reading.start, peek_fst]
  rfl

theorem exists_describes_evaluate (flags : ExprFlags) (tokens : Lookahead) :
    ∃ t : Transcript Operand, (t.Describes fun s => evaluate ⟨tokens, s⟩ flags) ∧
      ∀ d ∈ t.records, d.issue ≠ .assertionFailed := by
  simp only [evaluate_eq]
  exact Reading.exists_describes_run flags _ tokens.fill _ _

end Parser
end StaticAssert
