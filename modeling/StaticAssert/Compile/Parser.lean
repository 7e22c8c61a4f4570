import StaticAssert.Compile.Error
import StaticAssert.Token.Lookahead

/-!
# Parsing with a sink

A parser holds the tokens still to come and the sink for what it has to report. Every
parsing function answers with a result and the parser after it, also when it fails: the
tokens taken stay taken and the records pushed stay in the sink.
-/

set_option autoImplicit false

namespace StaticAssert

structure Parser where
  tokens : Lookahead
  sink : Sink

structure Outcome (α : Type) where
  result : Except CompileError α
  parser : Parser

namespace Outcome

variable {α β : Type}

def failed (stop : CompileError × Parser) : Outcome α := ⟨.error stop.1, stop.2⟩

def andThen (o : Outcome α) (f : α → Parser → Outcome β) : Outcome β :=
  match o.result with
  | .ok a => f a o.parser
  | .error e => ⟨.error e, o.parser⟩

end Outcome

namespace Parser

def ofScanner (scanner : Scanner) (sink : Sink) : Parser := ⟨.ofScanner scanner, sink⟩

def ofText (text : String) (sink : Sink) : Parser := ofScanner (.ofText text) sink

def remaining (p : Parser) : Nat := p.tokens.remaining

def peek (p : Parser) : Token × Parser := (p.tokens.peek.1, { p with tokens := p.tokens.peek.2 })

def take (p : Parser) : Token × Parser :=
  (p.tokens.advance.1, { p with tokens := p.tokens.advance.2 })

def report (p : Parser) (d : Diagnostic) : Outcome Unit :=
  match p.sink.push d with
  | .ok sink => ⟨.ok (), { p with sink }⟩
  | .error full => ⟨.error (.ofSinkFull full), p⟩

def stopAt (p : Parser) (error : LexError) (token : Token) : CompileError × Parser :=
  match p.sink.push (.lexError error token.line token.span) with
  | .ok sink => (.ofLexError error token.line, { p with sink })
  | .error full => (.ofSinkFull full, p)

def expect (p : Parser) (kind : Kind) : Outcome Token :=
  match p.tokens.eat kind with
  | (some token, tokens) => ⟨.ok token, { p with tokens }⟩
  | (none, tokens) =>
    let found := tokens.peek.1
    match found.kind with
    | .lexError error => .failed (Parser.stopAt { p with tokens } error found)
    | other => ⟨.error (.unexpected kind other found.line), { p with tokens }⟩

theorem peek_peek (p : Parser) : p.peek.2.peek = p.peek := by
  simp [peek, Lookahead.peek]

theorem remaining_peek_le (p : Parser) : p.peek.2.remaining ≤ p.remaining :=
  p.tokens.remaining_fill_le

theorem remaining_take_le (p : Parser) : p.take.2.remaining ≤ p.remaining :=
  p.tokens.remaining_advance_le

theorem remaining_take_lt {p : Parser} (h : p.peek.1.isEof = false) :
    p.take.2.remaining < p.remaining :=
  Lookahead.remaining_advance_lt h

theorem tokens_report (p : Parser) (d : Diagnostic) : (p.report d).parser.tokens = p.tokens := by
  unfold report
  split <;> rfl

theorem tokens_stopAt (p : Parser) (error : LexError) (token : Token) :
    (p.stopAt error token).2.tokens = p.tokens := by
  unfold stopAt
  split <;> rfl

theorem remaining_eat_le (l : Lookahead) (kind : Kind) :
    (l.eat kind).2.remaining ≤ l.remaining := by
  unfold Lookahead.eat
  split
  · exact l.remaining_advance_le
  · exact l.remaining_fill_le

theorem remaining_expect_le (p : Parser) (kind : Kind) :
    (p.expect kind).parser.remaining ≤ p.remaining := by
  have h := remaining_eat_le p.tokens kind
  unfold expect
  split
  next he => rw [he] at h; exact h
  next he =>
    rw [he] at h
    simp only
    split
    · simp only [Outcome.failed, remaining, tokens_stopAt]
      exact h
    · exact h

end Parser

namespace Outcome

theorem remaining_andThen_le {α β : Type} {n : Nat} {o : Outcome α}
    {f : α → Parser → Outcome β} (ho : o.parser.remaining ≤ n)
    (hf : ∀ a p, p.remaining ≤ n → (f a p).parser.remaining ≤ n) :
    (o.andThen f).parser.remaining ≤ n := by
  unfold andThen
  split
  · exact hf _ _ ho
  · exact ho

end Outcome
end StaticAssert
