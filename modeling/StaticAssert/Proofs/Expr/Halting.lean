import StaticAssert.Proofs.Expr.Waiting

/-!
# Where reading comes to a halt

A run takes tokens for as long as they go on with an alternation, and then comes to a halt:
at the first token that does not, or at a prefix operator for which there is no room. All
that is recorded on the way are overflows of operators that have been applied; what
happens at the halt depends on the frames, on the operand just read and on the next token.
-/

set_option autoImplicit false

namespace StaticAssert

open scoped Stream'

theorem Follows.role (flags : ExprFlags) {after b : Bool} {kind : Kind}
    (h : Follows after kind b) :
    (∃ n, Role.ofKind flags after kind = .operand n) ∨
      ∃ operator, Role.ofKind flags after kind = .operator operator := by
  cases h with
  | number n => exact .inl ⟨n, Role.ofKind_number flags n⟩
  | unary op => exact .inr ⟨_, Role.ofKind_unary flags op⟩
  | binary op => exact .inr ⟨_, Role.ofKind_binary flags op⟩

theorem Longest.of_role (flags : ExprFlags) {upcoming rest : Stream' Token} {w : List Token}
    {b : Bool} (ht : upcoming = w ++ₛ rest) (hw : Trace (w.map Token.kind) b)
    (hn : ∀ n, Role.ofKind flags b rest.head.kind ≠ .operand n)
    (ho : ∀ o, Role.ofKind flags b rest.head.kind ≠ .operator o) : Longest upcoming w rest := by
  refine .of_stops ht (begins_iff.mpr ⟨b, hw⟩) ?_
  rw [begins_snoc_iff hw]
  rintro ⟨b', hf⟩
  rcases hf.role flags with ⟨n, h⟩ | ⟨o, h⟩
  · exact hn n h
  · exact ho o h

namespace Context

variable {flags : ExprFlags} {line : Nat}

inductive Halts (flags : ExprFlags) (c : Context) : Option Tree → Lookahead → Prop where
  | ended {last? : Option Tree} {l : Lookahead} (ends : flags.ends l.upcoming.head.kind = true) :
      Halts flags c last? l
  | lexical {last? : Option Tree} {l : Lookahead} {error : LexError}
      (kind : l.upcoming.head.kind = .lexError error) : Halts flags c last? l
  | refused {last? : Option Tree} {l : Lookahead} {feature : Unsupported}
      (refusal : flags.refusal? last?.isSome l.upcoming.head.kind = some feature) :
      Halts flags c last? l

structure Crowded (c : Context) (last? : Option Tree) (l : Lookahead) : Prop where
  isNone : last? = none
  crowded : ¬ c.length < 31
  operator : ∃ op : UnaryOp, l.upcoming.head.kind = .punct op.punct

structure Arrives (flags : ExprFlags) (line : Nat) (c : Context) (last? : Option Tree)
    (l : Lookahead) (c' : Context) (last?' : Option Tree) (l' : Lookahead)
    (early : List Diagnostic) : Prop where
  valid : c'.Valid last?'
  tokens : c.read last? ++ₛ l.upcoming = c'.read last?' ++ₛ l'.upcoming
  leads : Transcript.Leads early (fun s => (c.reading line last? ⟨l, s⟩).run flags line)
    fun s => (c'.reading line last?' ⟨l', s⟩).run flags line

namespace Arrives

variable {c c₁ c' : Context} {last? last?₁ last?' : Option Tree} {l l₁ l' : Lookahead}
variable {new early : List Diagnostic}

theorem refl (hv : c.Valid last?) : Arrives flags line c last? l c last? l [] where
  valid := hv
  tokens := rfl
  leads := .of_eq fun _ => rfl

theorem before (h : Arrives flags line c₁ last?₁ l₁ c' last?' l' early)
    (ht : c.read last? ++ₛ l.upcoming = c₁.read last?₁ ++ₛ l₁.upcoming)
    (hl : Transcript.Leads new (fun s => (c.reading line last? ⟨l, s⟩).run flags line)
      fun s => (c₁.reading line last?₁ ⟨l₁, s⟩).run flags line) :
    Arrives flags line c last? l c' last?' l' (new ++ early) where
  valid := h.valid
  tokens := ht.trans h.tokens
  leads := hl.trans h.leads

end Arrives

/-- Every run comes to a halt. -/
theorem exists_arrives (flags : ExprFlags) (line : Nat) {c : Context} {last? : Option Tree}
    (hv : c.Valid last?) (l : Lookahead) :
    ∃ c' last?' l' early, Arrives flags line c last? l c' last?' l' early ∧
      (Halts flags c' last?' l' ∨ Crowded c' last?' l') := by
  induction hv, l using run_induction flags with
  | literal hv h ih =>
    obtain ⟨c', last?', l', early, ha, hh⟩ := ih
    exact ⟨c', last?', l', _, ha.before (read_literal h) (.of_eq (run_literal hv.awaits h)), hh⟩
  | @unary c l op p hv h ih =>
    by_cases hc : c.length < 31
    · obtain ⟨c', last?', l', early, ha, hh⟩ := ih hc
      exact ⟨c', last?', l', _, ha.before (read_unary h) (.of_eq (run_unary hc h)), hh⟩
    · exact ⟨c, none, l, [], .refl hv, .inr ⟨rfl, hc, op, congrArg Token.kind h⟩⟩
  | @binary c t l op p hv h ih =>
    obtain ⟨c', last?', l', early, ha, hh⟩ := ih
    have hw := awaits_unwind (hv.last t rfl).1 (Nat.zero_le op.stratum) op.stratum_le hv.awaits
    obtain ⟨new, -, hl⟩ := exists_leads_binary flags line hw.1 h
    exact ⟨c', last?', l', new ++ early, ha.before (read_binary h) hl, hh⟩
  | missing hv he | ended hv he => exact ⟨_, _, _, [], .refl hv, .inl (.ended he)⟩
  | lexical hv hr =>
    exact ⟨_, _, _, [], .refl hv, .inl (.lexical (Role.ofKind_eq_lexical_iff.mp hr))⟩
  | refused hv hr =>
    exact ⟨_, _, _, [], .refl hv, .inl (.refused (Role.ofKind_eq_refused_iff.mp hr))⟩

variable {c : Context} {last? : Option Tree} {l : Lookahead}

theorem Halts.longest (h : Halts flags c last? l) :
    Longest (c.read last? ++ₛ l.upcoming) (c.read last?) l.upcoming := by
  have stops {role : Role} (hr : Role.ofKind flags last?.isSome l.upcoming.head.kind = role)
      (hn : ∀ n, role ≠ .operand n) (ho : ∀ o, role ≠ .operator o) :
      Longest (c.read last? ++ₛ l.upcoming) (c.read last?) l.upcoming := by
    subst hr
    exact .of_role flags rfl (c.trace_read last?) hn ho
  cases h with
  | ended ends => exact stops (Role.ofKind_eq_terminator_iff.mpr ends) (by simp) (by simp)
  | lexical kind => exact stops (Role.ofKind_eq_lexical_iff.mpr kind) (by simp) (by simp)
  | refused refusal => exact stops (Role.ofKind_eq_refused_iff.mpr refusal) (by simp) (by simp)

theorem Halts.upcoming_run (h : Halts flags c last? l) (s : Sink) :
    ((c.reading line last? ⟨l, s⟩).run flags line).parser.upcoming = l.upcoming := by
  rw [← l.upcoming_fill, reading]
  cases h with
  | ended ends =>
    rw [Reading.run_of_terminator (Role.ofKind_eq_terminator_iff.mpr ends), Outcome.andThen]
    split <;> rfl
  | lexical kind =>
    rw [Reading.run_of_lexical (Role.ofKind_eq_lexical_iff.mpr kind)]
    exact congrArg Lookahead.upcoming (Parser.tokens_stopAt _ _ _)
  | refused refusal =>
    rw [Reading.run_of_refused (Role.ofKind_eq_refused_iff.mpr refusal)]
    rfl

theorem Crowded.exists_after {w : List Token} {rest : Stream' Token} (h : Crowded c last? l)
    (hw : Longest (c.read last? ++ₛ l.upcoming) w rest) :
    ∃ after : List Token, w = c.tokens ++ l.upcoming.head :: after := by
  obtain ⟨rfl, hc, op, hk⟩ := h
  have hb : Begins (c.read none ++ [l.upcoming.head]) := by
    rw [begins_snoc_iff (c.trace_read none), hk]
    exact ⟨_, .unary op⟩
  have ht : c.read none ++ₛ l.upcoming =
      (c.read none ++ [l.upcoming.head]) ++ₛ l.advance.2.upcoming := by
    rw [Stream'.append_append_stream, ← Lookahead.upcoming_of_head rfl]
  obtain ⟨after, ha⟩ := hw.prefix_of_begins ht hb
  have hr : c.read none = c.tokens := List.append_nil _
  refine ⟨after, ?_⟩
  rw [← ha, hr, List.append_assoc, List.singleton_append]

theorem Crowded.number?_head (h : Crowded c last? l) : l.upcoming.head.number? = none := by
  obtain ⟨-, -, op, hk⟩ := h
  rw [Token.number?, hk]

theorem Crowded.not_uncrowded {w : List Token} {rest : Stream' Token} (h : Crowded c last? l)
    (hv : c.Valid last?) (hw : Longest (c.read last? ++ₛ l.upcoming) w rest) :
    ¬ Uncrowded w := by
  intro hu
  obtain ⟨after, ha⟩ := h.exists_after hw
  have he : endsInNumber c.tokens = false := c.trace.endsInNumber_eq
  have hlt := hu c.tokens l.upcoming.head after ha h.number?_head he
  rw [waiting_eq hv.awaits, List.length_reverse, List.length_map] at hlt
  exact h.crowded hlt

end Context

theorem Parser.exists_arrives (flags : ExprFlags) (tokens : Lookahead) :
    ∃ c last? l early, Context.Valid c last? ∧ tokens.upcoming = c.read last? ++ₛ l.upcoming ∧
      Transcript.Leads early (fun s => evaluate ⟨tokens, s⟩ flags)
        (fun s => (c.reading tokens.upcoming.head.line last? ⟨l, s⟩).run flags
          tokens.upcoming.head.line) ∧
      (Context.Halts flags c last? l ∨ Context.Crowded c last? l) := by
  obtain ⟨c, last?, l, early, ha, hh⟩ :=
    Context.exists_arrives flags tokens.upcoming.head.line Context.valid_nil tokens.fill
  refine ⟨c, last?, l, early, ha.valid, ?_, ?_, hh⟩
  · rw [← ha.tokens, Lookahead.upcoming_fill]
    rfl
  · simp only [evaluate_eq]
    exact ha.leads

end StaticAssert
