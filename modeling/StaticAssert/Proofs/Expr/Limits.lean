import StaticAssert.Proofs.Expr.Shape

/-!
# The limits of evaluation

The stacks have room for far more operands than there ever are, and a computed operand is
always a constant. So of the limits that evaluating knows only that of operators is ever met,
and it is met at a prefix operator: six infix operators at most wait before it, the others are
those of its own run.
-/

set_option autoImplicit false

namespace StaticAssert

def Unsupported.isLimit : Unsupported → Bool
  | .operandOverflow | .operatorOverflow | .nonConstant => true
  | _ => false

namespace ExprFlags

variable {flags : ExprFlags} {feature : Unsupported} {n : Nat}

theorem isLimit_of_refusal {after : Bool} {kind : Kind}
    (h : flags.refusal? after kind = some feature) : feature.isLimit = false := by
  obtain ⟨constant, commaContinues⟩ := flags
  cases kind with
  | punct p => cases p <;> cases after <;> cases commaContinues <;> cases h <;> rfl
  | eof | lexError | name | number | keyword => cases after <;> cases h <;> rfl

theorem Settles.isLimit {w : List Token} {t : Token} {late : List Diagnostic}
    (h : flags.Settles w t late (.error (.unsupported feature n))) : feature.isLimit = false := by
  rcases h.classified with ends | ⟨f, hf⟩ | ⟨error, hk⟩
  · cases hn : endsInNumber w with
    | true =>
      obtain ⟨x, hx⟩ := h.accepted ends hn
      cases hx
    | false =>
      obtain ⟨a, b, m, hm⟩ := h.broken ends hn
      cases hm
  · cases (h.refused f hf).2
    exact isLimit_of_refusal hf
  · have hr := (h.lexical error hk).2
    cases error <;> cases hr
    rfl

end ExprFlags

theorem Context.Halts.isLimit {flags : ExprFlags} {line n : Nat} {c : Context}
    {last? : Option Tree} {l : Lookahead} {s : Sink} {feature : Unsupported}
    (h : Halts flags c last? l) (hv : c.Valid last?)
    (he : ((c.reading line last? ⟨l, s⟩).run flags line).result =
      .error (.unsupported feature n)) : feature.isLimit = false := by
  obtain ⟨late, result, hs, hd⟩ := h.exists_settles hv line
  rw [hd.result_eq] at he
  split at he
  · subst he
    exact hs.isLimit
  · cases he

namespace Parser

variable {flags : ExprFlags} {p : Parser} {n : Nat}

/-- A limit that is met is that of operators, and it is met at a prefix operator. -/
theorem exists_crowded {feature : Unsupported} (hf : feature.isLimit = true)
    (h : (p.evaluate flags).result = .error (.unsupported feature n)) :
    ∃ w r c l s, Reading.Reached flags p w r ∧ Reading.Framed p w r c none l s ∧
      Context.Crowded c none l ∧ feature = .operatorOverflow ∧ n = l.upcoming.head.line := by
  obtain ⟨w, r, c, last?, l, s, hr, hc, hh | hh | ⟨m, hm⟩⟩ := Reading.exists_stop flags p
  · rw [hr.evaluate_eq, hc.state] at h
    rw [hh.isLimit hc.valid h] at hf
    cases hf
  · obtain ⟨rfl, hl, op, hk⟩ := hh
    rw [hr.evaluate_eq, hc.state,
      Context.run_unary_full hl (Token.token_site hk).symm s] at h
    cases h
    exact ⟨w, r, c, l, s, hr, hc, ⟨rfl, hl, op, hk⟩, rfl, rfl⟩
  · rw [hm] at h
    cases h

theorem operatorOverflow_iff :
    (p.evaluate flags).result = .error (.unsupported .operatorOverflow n) ↔
      ∃ w r, Reading.Reached flags p w r ∧ r.afterOperand = false ∧
        (∃ op : UnaryOp, r.look.1.kind = .punct op.punct) ∧ r.look.1.line = n ∧
        31 ≤ r.stack.infixes.length + (currentRun w).length := by
  constructor
  · intro h
    obtain ⟨w, r, c, l, s, hr, hc, hh, -, hn⟩ := exists_crowded rfl h
    refine ⟨w, r, hr, ?_⟩
    rw [← hc.length_eq_add, hc.state, Context.look_reading]
    exact ⟨rfl, hh.operator, hn.symm, Nat.le_of_not_lt hh.crowded⟩
  · rintro ⟨w, r, hr, ha, ⟨op, hk⟩, hn, hl⟩
    obtain ⟨c, last?, l, s, hc⟩ := hr.exists_framed
    rw [← hc.length_eq_add] at hl
    rw [hc.state, Context.look_reading] at hk hn
    rw [hc.state] at ha
    obtain rfl : last? = none := by simpa [Context.reading] using ha
    rw [hr.evaluate_eq, hc.state,
      Context.run_unary_full (Nat.not_lt.mpr hl) (Token.token_site hk).symm s]
    subst hn
    rfl

/-- A prefix operator finds no room only behind 25 others. -/
theorem ne_operatorOverflow {w : List Token} {rest : Stream' Token}
    (hw : Longest p.upcoming w rest)
    (short : ∀ run, run <:+: operators false w → (∀ o ∈ run, o.1 = 0) → run.length ≤ 25) :
    (p.evaluate flags).result ≠ .error (.unsupported .operatorOverflow n) := by
  intro h
  obtain ⟨v, r, c, l, s, -, hc, hh, -, -⟩ := exists_crowded rfl h
  rw [hc.tokens, ← hc.read] at hw
  obtain ⟨after, ha⟩ := hh.exists_after hw
  have ho : operators false w =
      operators false v ++ (0, l.upcoming.head) :: operators false after := by
    rw [ha, c.operators_append, hc.operators_eq, operators, hh.number?_head]
    rfl
  have hrun : currentRun v ++ [(0, l.upcoming.head)] <:+: operators false w := by
    obtain ⟨before, hb⟩ := currentRun_suffix v
    refine ⟨before, operators false after, ?_⟩
    rw [ho, ← hb]
    simp only [List.append_assoc, List.singleton_append]
  have hs := short _ hrun
    (List.forall_mem_append.mpr ⟨fun o => fst_of_mem_currentRun, List.forall_mem_singleton.mpr rfl⟩)
  have hb := Context.length_binaries_le hc.valid.awaits
  have hl := hc.length_eq_add
  have hcrowded := hh.crowded
  rw [hc.infixes_eq] at hl
  rw [List.length_append, List.length_singleton] at hs
  omega

/-- The stacks keep their shape as an expression is read, so that no operand is ever missing
before its end, and no limit is met but that of a run of prefix operators. -/
theorem evaluate_keeps_shape (p : Parser) (flags : ExprFlags) :
    (∀ w r, Reading.Reached flags p w r →
      r.Shaped p.peek.1.line w ∧
      (∀ incoming s, Relation.ReflTransGen (Stacks.Applies incoming) r.stack s →
        s.operands.length ≤ 7) ∧
      (∀ incoming sink s, (r.stack.reduce incoming sink).1 = .ok s →
        Relation.ReflTransGen (Stacks.Applies incoming) r.stack s) ∧
      ∀ operator, Role.ofKind flags r.afterOperand r.look.1.kind = .operator operator →
        ∀ sink a b n, (r.stack.reduce operator sink).1 ≠ .error (.malformed a b n)) ∧
    (∀ n, (p.evaluate flags).result ≠ .error (.unsupported .operandOverflow n) ∧
      (p.evaluate flags).result ≠ .error (.unsupported .nonConstant n)) ∧
    (∀ n, (p.evaluate flags).result = .error (.unsupported .operatorOverflow n) ↔
      ∃ w r, Reading.Reached flags p w r ∧ r.afterOperand = false ∧
        (∃ op : UnaryOp, r.look.1.kind = .punct op.punct) ∧ r.look.1.line = n ∧
        31 ≤ r.stack.infixes.length + (currentRun w).length) ∧
    ∀ w rest, Longest p.upcoming w rest →
      (∀ run, run <:+: operators false w → (∀ o ∈ run, o.1 = 0) → run.length ≤ 25) →
      ∀ n, (p.evaluate flags).result ≠ .error (.unsupported .operatorOverflow n) := by
  refine ⟨fun w r hr => ?_, fun n => ⟨fun h => ?_, fun h => ?_⟩, fun n => operatorOverflow_iff,
    fun w rest hw hs n => ne_operatorOverflow hw hs⟩
  · obtain ⟨c, last?, l, s, hc⟩ := hr.exists_framed
    refine ⟨hc.shaped, ?_, fun _ _ _ => Stacks.applies_of_reduce,
      fun operator => hc.reduce_ne_malformed⟩
    intro incoming s ha
    exact Nat.le_trans (Stacks.length_operands_le_of_applies ha) hc.length_operands_le
  · obtain ⟨w, r, c, l, s, -, -, -, hf, -⟩ := exists_crowded rfl h
    cases hf
  · obtain ⟨w, r, c, l, s, -, -, -, hf, -⟩ := exists_crowded rfl h
    cases hf

theorem evaluate_keeps_shape_signs :
    (∃ w r, Reading.Reached {}
        (ofText "1|2^3&4==5+6*~~~~~~~~~~~~~~~~~~~~~~~~~~7" (.empty 0)) w r ∧ r.Shaped 1 w ∧
      r.stack.operands.length ≤ 7 ∧
      31 ≤ r.stack.infixes.length + (currentRun w).length) ∧
    ∃ w rest, Longest (ofText "~7" (.empty 0)).upcoming w rest ∧
      ∀ n, ((ofText "~7" (.empty 0)).evaluate {}).result ≠
        .error (.unsupported .operatorOverflow n) := by
  constructor
  · let p := ofText "1|2^3&4==5+6*~~~~~~~~~~~~~~~~~~~~~~~~~~7" (.empty 0)
    have he : (p.evaluate {}).result = .error (.unsupported .operatorOverflow 1) := by
      decide +kernel
    have hline : p.peek.1.line = 1 := by decide +kernel
    have h := evaluate_keeps_shape p {}
    obtain ⟨w, r, hr, -, -, -, hl⟩ := (h.2.2.1 1).mp he
    obtain ⟨hs, ho, -⟩ := h.1 w r hr
    rw [hline] at hs
    exact ⟨w, r, hr, hs, ho .collapse r.stack .refl, hl⟩
  · let s : Scanner := .ofText "~7"
    have hk : (s.stream.take 2).map Token.kind =
        [.punct .tilde, .number ⟨7, false, .g32⟩] := by
      decide +kernel
    have ht : Trace ((s.stream.take 2).map Token.kind) true := by
      rw [hk]
      exact (Trace.singleton (.unary .bitNot)).snoc (.number _)
    have hr : Role.ofKind {} true (s.stream.drop 2).head.kind = .terminator := by decide +kernel
    have hw : Longest (ofText "~7" (.empty 0)).upcoming (s.stream.take 2) (s.stream.drop 2) := by
      rw [show (ofText "~7" (.empty 0)).upcoming = s.stream from Lookahead.upcoming_ofScanner s]
      exact .of_role {} (Stream'.append_take_drop 2 s.stream).symm ht (by rw [hr]; simp)
        (by rw [hr]; simp)
    refine ⟨_, _, hw, (evaluate_keeps_shape _ {}).2.2.2 _ _ hw ?_⟩
    intro run hi _
    refine Nat.le_trans hi.length_le (Nat.le_trans (length_operators_le false _) ?_)
    decide +kernel

end Parser
end StaticAssert
