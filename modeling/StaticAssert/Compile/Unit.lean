import StaticAssert.Expr.Reading

/-!
# Compilation units

A unit is a fixed opening followed by static assertions up to a closing brace or the end
of the source; what follows the brace is not looked at. Every assertion is evaluated
while it is read. One that comes out as zero is recorded at its keyword's line, with the
bytes between its parentheses, and compilation goes on; anything else than an assertion
stops it.
-/

set_option autoImplicit false

namespace StaticAssert
namespace Parser

def judge (p : Parser) (value : Operand) (line : Nat) (span : Span) : Outcome Unit :=
  if !value.facts.immediate then ⟨.error (.unsupported .nonConstant line), p⟩
  else if value.isTrue then ⟨.ok (), p⟩
  else p.report (.assertionFailed line span)

def assertion (p : Parser) : Outcome Unit :=
  (p.take.2.expect (.punct .leftParen)).andThen fun opening p' =>
  (p'.evaluate { constant := true }).andThen fun value p' =>
  (p'.expect (.punct .rightParen)).andThen fun closing p' =>
  (p'.expect (.punct .semicolon)).andThen fun _ p' =>
  p'.judge value p.take.1.line ⟨opening.span.stop, closing.span.start⟩

theorem remaining_judge_le (p : Parser) (value : Operand) (line : Nat) (span : Span) :
    (p.judge value line span).parser.remaining ≤ p.remaining := by
  unfold judge
  split
  · exact Nat.le_refl _
  split
  · exact Nat.le_refl _
  · simp only [remaining, tokens_report]
    exact Nat.le_refl _

theorem remaining_assertion_le (p : Parser) :
    p.assertion.parser.remaining ≤ p.take.2.remaining := by
  unfold assertion
  refine Outcome.remaining_andThen_le (remaining_expect_le _ _) fun _ p' h => ?_
  refine Outcome.remaining_andThen_le (Nat.le_trans (remaining_evaluate_le _ _) h) fun _ p' h => ?_
  refine Outcome.remaining_andThen_le (Nat.le_trans (remaining_expect_le _ _) h) fun _ p' h => ?_
  refine Outcome.remaining_andThen_le (Nat.le_trans (remaining_expect_le _ _) h) fun _ p' h => ?_
  exact Nat.le_trans (remaining_judge_le _ _ _ _) h

theorem remaining_assertion_lt {p : Parser} (h : p.peek.1.isEof = false) :
    p.assertion.parser.remaining < p.remaining :=
  Nat.lt_of_le_of_lt p.remaining_assertion_le (remaining_take_lt h)

def body (p : Parser) : Outcome Unit :=
  match _kind : p.peek.1.kind with
  | .eof => ⟨.ok (), p.peek.2⟩
  | .punct .rightBrace => ⟨.ok (), p.peek.2⟩
  | .keyword .staticAssert =>
    match p.assertion.result with
    | .ok () => p.assertion.parser.body
    | .error error => ⟨.error error, p.assertion.parser⟩
  | .lexError error => .failed (p.peek.2.stopAt error p.peek.1)
  | _ => ⟨.error (.unsupported .statement p.peek.1.line), p.peek.2⟩
termination_by p.remaining
decreasing_by
  apply remaining_assertion_lt
  simp [Token.isEof, _kind]

end Parser

def opening : String := "void main()\x7b"

def minimumSize : Nat := 20

def bodyStart : Nat := (Byte.ofText opening).length

def opens (text : String) : Bool :=
  minimumSize ≤ (Byte.ofText text).length && (Byte.ofText opening).isPrefixOf (Byte.ofText text)

def compile (text : String) (sink : Sink) : Except CompileError Unit × Sink :=
  if opens text then
    let scanner := Scanner.start ((Buffer.ofText text).cursorAt bodyStart)
    let outcome := (Parser.ofScanner scanner sink).body
    (outcome.result, outcome.parser.sink)
  else (.error .missingPrelude, sink)

end StaticAssert
