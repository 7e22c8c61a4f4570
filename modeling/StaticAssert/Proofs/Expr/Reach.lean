import StaticAssert.Proofs.Expr.Offence

/-!
# The states that reading comes to

A run goes from state to state, one token at a time, until the next token does not go on
with the expression, a prefix operator finds no room, or an overflow cannot be recorded.
Each of its states is that of some frames, with the number just read if there is one, and
the run is what its last state makes of the next token.
-/

set_option autoImplicit false

namespace StaticAssert

open scoped Stream'

inductive Reading.Reached (flags : ExprFlags) (p : Parser) : List Token → Reading → Prop where
  | start : Reached flags p [] (.start p)
  | more {w : List Token} {r next : Reading} (reached : Reached flags p w r)
      (step : r.step flags = .more next) : Reached flags p (w ++ [r.look.1]) next

namespace Context

variable {flags : ExprFlags} {line : Nat} {c c' : Context} {last? last?' : Option Tree}
variable {l : Lookahead} {t : Token}

inductive Turn : Context → Option Tree → Token → Context → Option Tree → Prop where
  | literal {c : Context} (n : NumberLiteral) (p : Site) :
      Turn c none (p.token (.number n)) c (some (.literal n p))
  | unary {c : Context} (room : c.length < 31) (op : UnaryOp) (p : Site) :
      Turn c none (p.token (.punct op.punct)) (.unary op p :: c) none
  | binary {c : Context} {x : Tree} (op : BinaryOp) (p : Site) :
      Turn c (some x) (p.token (.punct op.punct))
        (.binary op p (unwind op.stratum c x).2 :: (unwind op.stratum c x).1) none

namespace Turn

theorem valid (h : Turn c last? t c' last?') (hv : c.Valid last?) : c'.Valid last?' := by
  cases h with
  | literal n p => exact hv.literal n p
  | unary room op p => exact hv.unary room op p
  | binary op p => exact hv.binary op p

theorem read (h : Turn c last? t c' last?') : c'.read last?' = c.read last? ++ [t] := by
  cases h with
  | literal n p => simp [Context.read, Tree.tokens]
  | unary _ op p => simp [Context.read, tokens, Frame.tokens]
  | @binary x op p => simp [Context.read, tokens, Frame.tokens, ← tokens_unwind op.stratum c x]

theorem isLiteral (h : Turn c last? t c' last?') : ∀ e ∈ last?', ∃ n p, e = .literal n p := by
  intro e he
  cases h with
  | literal n p =>
    cases he
    exact ⟨n, p, rfl⟩
  | unary | binary => cases he

end Turn

theorem Halts.step_ne_more (h : Halts flags c last? l) (s : Sink) (next : Reading) :
    (c.reading line last? ⟨l, s⟩).step flags ≠ .more next := by
  rw [reading, Reading.step_eq]
  intro hs
  cases h with
  | ended ends =>
    rw [Role.ofKind_eq_terminator_iff.mpr ends] at hs
    cases hs
  | lexical kind =>
    rw [Role.ofKind_eq_lexical_iff.mpr kind] at hs
    cases hs
  | refused refusal =>
    rw [Role.ofKind_eq_refused_iff.mpr refusal] at hs
    cases hs

/-- A step takes a token, or there is a reason that it does not. -/
theorem step_cases (flags : ExprFlags) (line : Nat) (hv : c.Valid last?) (l : Lookahead)
    (s : Sink) :
    (∃ c' last?' s', Turn c last? l.upcoming.head c' last?' ∧
      (c.reading line last? ⟨l, s⟩).step flags = .more (c'.reading line last?' ⟨l.advance.2, s'⟩)) ∨
    (∃ q, (c.reading line last? ⟨l, s⟩).step flags = .failed (.sinkFull s.capacity) q) ∨
    Halts flags c last? l ∨ Crowded c last? l := by
  induction hv, l using run_induction flags with
  | @literal c l n p hv h =>
    refine .inl ⟨c, some (.literal n p), s, ?_, step_literal hv.awaits h s⟩
    rw [h]
    exact .literal n p
  | @unary c l op p hv h =>
    by_cases hc : c.length < 31
    · refine .inl ⟨.unary op p :: c, none, s, ?_, ?_⟩
      · rw [h]
        exact .unary hc op p
      · rw [step_unary h, if_pos hc]
    · exact .inr (.inr (.inr ⟨rfl, hc, op, congrArg Token.kind h⟩))
  | @binary c x l op p hv h =>
    have hw := awaits_unwind (hv.last x rfl).1 (Nat.zero_le op.stratum) op.stratum_le hv.awaits
    obtain ⟨new, -, hroom, hfull⟩ := exists_step_binary flags line hw.1 h
    by_cases hs : new.length ≤ s.free
    · refine .inl ⟨_, none, s.append new, ?_, hroom s hs⟩
      rw [h]
      exact .binary op p
    · obtain ⟨q, hq, -⟩ := hfull s (Nat.lt_of_not_le hs)
      exact .inr (.inl ⟨q, hq⟩)
  | missing hv he | ended hv he => exact .inr (.inr (.inl (.ended he)))
  | lexical hv hr => exact .inr (.inr (.inl (.lexical (Role.ofKind_eq_lexical_iff.mp hr))))
  | refused hv hr => exact .inr (.inr (.inl (.refused (Role.ofKind_eq_refused_iff.mp hr))))

theorem Crowded.step_ne_more (h : Crowded c last? l) (s : Sink) (next : Reading) :
    (c.reading line last? ⟨l, s⟩).step flags ≠ .more next := by
  obtain ⟨rfl, hc, op, hk⟩ := h
  rw [step_unary (Token.token_site hk).symm, if_neg hc]
  intro hs
  cases hs

theorem look_reading (c : Context) (line : Nat) (last? : Option Tree) (l : Lookahead) (s : Sink) :
    (c.reading line last? ⟨l, s⟩).look.1 = l.upcoming.head := by
  rw [reading, Reading.look_eq]

end Context

namespace Reading

variable {flags : ExprFlags} {p : Parser} {w : List Token} {r : Reading}

structure Framed (p : Parser) (w : List Token) (r : Reading) (c : Context) (last? : Option Tree)
    (l : Lookahead) (s : Sink) : Prop where
  state : r = c.reading p.peek.1.line last? ⟨l, s⟩
  valid : c.Valid last?
  literal : ∀ e ∈ last?, ∃ n p, e = .literal n p
  read : c.read last? = w
  tokens : p.upcoming = w ++ₛ l.upcoming

namespace Reached

theorem evaluate_eq (h : Reached flags p w r) :
    p.evaluate flags = r.run flags p.peek.1.line := by
  induction h with
  | start => rfl
  | more _ step ih => rw [ih, run_eq, step]

theorem exists_framed (h : Reached flags p w r) : ∃ c last? l s, Framed p w r c last? l s := by
  induction h with
  | start =>
    refine ⟨[], none, p.tokens.fill, p.sink, rfl, Context.valid_nil, by rintro _ ⟨⟩, rfl, ?_⟩
    rw [Lookahead.upcoming_fill]
    rfl
  | @more w r next _ step ih =>
    obtain ⟨c, last?, l, s, rfl, hv, -, hw, ht⟩ := ih
    rcases Context.step_cases flags p.peek.1.line hv l s with
      ⟨c', last?', s', turn, hs⟩ | ⟨q, hs⟩ | hh | hh
    · rw [hs] at step
      cases step
      refine ⟨c', last?', l.advance.2, s', rfl, turn.valid hv, turn.isLiteral, ?_, ?_⟩
      · rw [turn.read, hw, Context.look_reading]
      · rw [Context.look_reading, Stream'.append_append_stream, ht]
        exact congrArg (w ++ₛ ·) (Lookahead.upcoming_of_head rfl)
    · rw [hs] at step
      cases step
    · exact absurd step (hh.step_ne_more s next)
    · exact absurd step (hh.step_ne_more s next)

end Reached

theorem exists_last (flags : ExprFlags) (p : Parser) :
    ∃ w r, Reached flags p w r ∧ ∀ next, r.step flags ≠ .more next := by
  have goOn {w : List Token} {r : Reading} (h : Reached flags p w r) :
      ∃ w r, Reached flags p w r ∧ ∀ next, r.step flags ≠ .more next := by
    induction hn : r.parser.remaining using Nat.strong_induction_on generalizing w r with
    | _ n ih =>
    subst hn
    by_cases hs : ∃ next, r.step flags = .more next
    · obtain ⟨next, hs⟩ := hs
      exact ih _ (remaining_step_lt hs) (h.more hs) rfl
    · exact ⟨w, r, h, not_exists.mp hs⟩
  exact goOn .start

/-- The last state is at a halt, is crowded, or finds the sink full. -/
theorem exists_stop (flags : ExprFlags) (p : Parser) :
    ∃ w r c last? l s, Reached flags p w r ∧ Framed p w r c last? l s ∧
      (Context.Halts flags c last? l ∨ Context.Crowded c last? l ∨
        ∃ n, (p.evaluate flags).result = .error (.sinkFull n)) := by
  obtain ⟨w, r, hr, hs⟩ := exists_last flags p
  obtain ⟨c, last?, l, s, hf⟩ := hr.exists_framed
  refine ⟨w, r, c, last?, l, s, hr, hf, ?_⟩
  rw [hf.state] at hs
  rcases Context.step_cases flags p.peek.1.line hf.valid l s with
    ⟨c', last?', s', -, hm⟩ | ⟨q, hq⟩ | hh | hh
  · exact absurd hm (hs _)
  · refine .inr (.inr ⟨s.capacity, ?_⟩)
    rw [hr.evaluate_eq, hf.state, run_eq, hq]
  · exact .inl hh
  · exact .inr (.inl hh)

end Reading
end StaticAssert
