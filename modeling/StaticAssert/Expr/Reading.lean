import StaticAssert.Compile.Parser
import StaticAssert.Expr.Role
import StaticAssert.Expr.Stacks

/-!
# Reading and evaluating an expression

An expression is read token by token. An operand is stacked; an operator is stacked
after the pending ones that yield to it are applied; a token that cannot continue the
expression ends it and is left alone. At the end every pending operator is applied, and
one operand has to be left. A token that is refused is not taken; an operator that finds
no room, or makes an overflow that cannot be recorded, is.
-/

set_option autoImplicit false

namespace StaticAssert

structure Reading where
  parser : Parser
  stack : Stacks
  /-- The last token taken was an operand. -/
  afterOperand : Bool

namespace Reading

inductive Step where
  | more (next : Reading)
  | done (last : Reading)
  | failed (error : CompileError) (parser : Parser)

def start (p : Parser) : Reading := ⟨p.peek.2, .start p.peek.1.line, false⟩

def readOperand (r : Reading) (literal : NumberLiteral) (token : Token) : Step :=
  if Unsupported.pendingLimit ≤ r.stack.operands.length then
    .failed (.unsupported .operandOverflow token.line) r.parser
  else
    .more ⟨r.parser.take.2, r.stack.pushOperand (.literal literal token.span), true⟩

def readOperator (r : Reading) (operator : Operator) (token : Token) : Step :=
  match r.stack.reduce operator r.parser.sink with
  | (.error error, sink) => .failed error { r.parser.take.2 with sink }
  | (.ok stack, sink) =>
    if Unsupported.pendingLimit ≤ stack.operators.length then
      .failed (.unsupported .operatorOverflow token.line) { r.parser.take.2 with sink }
    else
      .more ⟨{ r.parser.take.2 with sink },
        stack.pushOperator ⟨operator, token.span, token.line⟩, false⟩

def readRole (r : Reading) (token : Token) : Role → Step
  | .operand literal => r.readOperand literal token
  | .operator operator => r.readOperator operator token
  | .terminator => .done r
  | .lexical error => .failed (r.parser.stopAt error token).1 (r.parser.stopAt error token).2
  | .refused feature => .failed (.unsupported feature token.line) r.parser

def look (r : Reading) : Token × Reading :=
  (r.parser.peek.1, { r with parser := r.parser.peek.2 })

def step (flags : ExprFlags) (r : Reading) : Step :=
  r.look.2.readRole r.look.1 (.ofKind flags r.afterOperand r.look.1.kind)

theorem remaining_step_lt {flags : ExprFlags} {r next : Reading} (h : r.step flags = .more next) :
    next.parser.remaining < r.parser.remaining := by
  have hp := r.parser.remaining_peek_le
  have taken (hk : r.parser.peek.1.isEof = false) :
      r.parser.peek.2.take.2.remaining < r.parser.remaining :=
    Nat.lt_of_lt_of_le (Parser.remaining_take_lt (by rw [Parser.peek_peek]; exact hk)) hp
  have notEof (hr : Role.ofKind flags r.afterOperand r.parser.peek.1.kind ≠ .terminator) :
      r.parser.peek.1.isEof = false := by
    refine Bool.eq_false_iff.mpr fun he => hr ?_
    rw [(Token.isEof_iff _).mp he]
    exact Role.ofKind_eof _ _
  unfold step at h
  revert h
  generalize hr : Role.ofKind flags r.afterOperand r.look.1.kind = role
  have hk (hne : role ≠ .terminator) := taken (notEof (by rw [← hr] at hne; exact hne))
  intro h
  cases role with
  | operand literal =>
    simp only [readRole, readOperand] at h
    split at h
    · cases h
    · cases h
      exact hk (by simp)
  | operator operator =>
    simp only [readRole, readOperator] at h
    split at h
    · cases h
    · split at h
      · cases h
      · cases h
        exact hk (by simp)
  | terminator => cases h
  | lexical error => cases h
  | refused feature => cases h

def Step.parser : Step → Parser
  | .more next => next.parser
  | .done last => last.parser
  | .failed _ parser => parser

theorem remaining_step_le (flags : ExprFlags) (r : Reading) :
    (r.step flags).parser.remaining ≤ r.parser.remaining := by
  have hp := r.parser.remaining_peek_le
  have ht := Nat.le_trans r.parser.peek.2.remaining_take_le hp
  unfold step
  generalize Role.ofKind flags r.afterOperand r.look.1.kind = role
  cases role with
  | operand literal =>
    simp only [readRole, readOperand]
    split
    · exact hp
    · exact ht
  | operator operator =>
    simp only [readRole, readOperator]
    split
    · exact ht
    · split <;> exact ht
  | terminator => exact hp
  | lexical error =>
    simp only [readRole, Step.parser, Parser.remaining, Parser.tokens_stopAt]
    exact hp
  | refused feature => exact hp

def verdict (flags : ExprFlags) (line : Nat) (terminator : Token) (stack : Stacks) :
    Except CompileError Operand :=
  match stack.result? with
  | none =>
    .error (.malformed stack.operands.length stack.operators.length terminator.line)
  | some x =>
    if flags.constant && !x.facts.immediate then .error (.unsupported .nonConstant line)
    else .ok x

def finish (flags : ExprFlags) (line : Nat) (r : Reading) : Outcome Operand :=
  match r.stack.reduce .collapse r.parser.sink with
  | (.error error, sink) => ⟨.error error, { r.look.2.parser with sink }⟩
  | (.ok stack, sink) =>
    ⟨verdict flags line r.look.1 (stack.pushOperator (.marker .collapse r.look.1.line)),
      { r.look.2.parser with sink }⟩

def run (flags : ExprFlags) (line : Nat) (r : Reading) : Outcome Operand :=
  match _step : r.step flags with
  | .more next => run flags line next
  | .done last => last.finish flags line
  | .failed error parser => ⟨.error error, parser⟩
termination_by r.parser.remaining
decreasing_by exact remaining_step_lt _step

theorem remaining_finish_le (flags : ExprFlags) (line : Nat) (r : Reading) :
    (r.finish flags line).parser.remaining ≤ r.parser.remaining := by
  unfold finish
  split <;> exact r.parser.remaining_peek_le

theorem remaining_run_le (flags : ExprFlags) (line : Nat) (r : Reading) :
    (r.run flags line).parser.remaining ≤ r.parser.remaining := by
  fun_induction run flags line r with
  | case1 r next h ih =>
    have := r.remaining_step_le flags
    rw [h] at this
    exact Nat.le_trans ih this
  | case2 r last h =>
    have := r.remaining_step_le flags
    rw [h] at this
    exact Nat.le_trans (last.remaining_finish_le flags line) this
  | case3 r error parser h =>
    have := r.remaining_step_le flags
    rw [h] at this
    exact this

end Reading

namespace Parser

def evaluate (p : Parser) (flags : ExprFlags) : Outcome Operand :=
  (Reading.start p).run flags p.peek.1.line

theorem remaining_evaluate_le (p : Parser) (flags : ExprFlags) :
    (p.evaluate flags).parser.remaining ≤ p.remaining :=
  Nat.le_trans (Reading.remaining_run_le _ _ _) p.remaining_peek_le

end Parser
end StaticAssert
