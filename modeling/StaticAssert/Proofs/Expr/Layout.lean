import StaticAssert.Proofs.Compile.Twins
import StaticAssert.Proofs.Expr.Run

/-!
# Expressions at other places

Operands carry their spans, and operators that wait carry their spans and lines, but nothing
is decided by them: stacks that differ in places only reduce alike, and so a run over tokens
of the same kinds takes the same turns.
-/

set_option autoImplicit false

namespace StaticAssert

structure Operand.Alike (x x' : Operand) : Prop where
  type : x.type = x'.type
  facts : x.facts = x'.facts
  value : x.value = x'.value

structure Folded.Alike (r r' : Folded) : Prop where
  operand : r.operand.Alike r'.operand
  wrapped : r.wrapped = r'.wrapped

namespace Folded

variable {x x' y y' : Operand}

theorem alike_unary (op : UnaryOp) (hx : x.Alike x') (span span' : Span) :
    (unary op x span).Alike (unary op x' span') := by
  have hu : x.isUnsigned = x'.isUnsigned := congrArg Leaf.isUnsigned hx.type
  constructor
  · constructor
    · simp only [unary, Operand.computed, hx.type]
    · rfl
    · exact congrArg op.apply hx.value
  · simp only [unary, hx.value, hu]

theorem alike_binary (op : BinaryOp) (hx : x.Alike x') (hy : y.Alike y') :
    (binary op x y).Alike (binary op x' y') := by
  have hu : x.isUnsigned = x'.isUnsigned := congrArg Leaf.isUnsigned hx.type
  have hv : y.isUnsigned = y'.isUnsigned := congrArg Leaf.isUnsigned hy.type
  constructor
  · constructor
    · simp only [binary, Operand.computed, hx.type, hy.type, hu, hv]
    · rfl
    · simp only [binary, Operand.computed, hx.value, hy.value]
  · simp only [binary, hx.value, hy.value, hu, hv]

end Folded

namespace Pending

variable {top top' : Pending} {xs xs' : List Operand}

theorem alike_fold? (ho : top.operator = top'.operator) (hx : List.Forall₂ Operand.Alike xs xs') :
    Option.Rel (fun r r' => r.1.Alike r'.1 ∧ List.Forall₂ Operand.Alike r.2 r'.2)
      (top.fold? xs) (top'.fold? xs') := by
  unfold fold?
  rw [← ho]
  cases top.operator.operation with
  | unary op =>
    cases hx with
    | nil => exact .none
    | cons hx hs => exact .some ⟨Folded.alike_unary op hx _ _, hs⟩
  | binary op =>
    cases hx with
    | nil => exact .none
    | cons hy hs =>
      cases hs with
      | nil => exact .none
      | cons hx hs => exact .some ⟨Folded.alike_binary op hx hy, hs⟩
  | assign | call | openParen | bottom | collapse => exact .none

theorem twins_recording (ho : top.operator = top'.operator) {folded folded' : Folded}
    (hf : folded.Alike folded') {l l' : Lookahead} (hl : l.kinds = l'.kinds) :
    Twins Eq (fun s => top.recording folded ⟨l, s⟩) (fun s => top'.recording folded' ⟨l', s⟩)
      ⟨top.records folded, .ok (), l⟩ ⟨top'.records folded', .ok (), l'⟩ := by
  refine ⟨top.describes_recording folded l, top'.describes_recording folded' l', ?_, .ok rfl, hl⟩
  rw [records, records, hf.wrapped, ho]
  split
  · exact .cons ⟨rfl, rfl⟩ .nil
  · exact .nil

end Pending

structure Stacks.Alike (s s' : Stacks) : Prop where
  operands : List.Forall₂ Operand.Alike s.operands s'.operands
  operators : List.Forall₂ (fun p p' => p.operator = p'.operator) s.operators s'.operators

namespace Stacks

variable {s s' : Stacks} {l l' : Lookahead}

theorem alike_start (line line' : Nat) : (start line).Alike (start line') :=
  ⟨.nil, .cons rfl .nil⟩

theorem Alike.pushOperand (h : s.Alike s') {x x' : Operand} (hx : x.Alike x') :
    (s.pushOperand x).Alike (s'.pushOperand x') :=
  ⟨.cons hx h.operands, h.operators⟩

theorem Alike.pushOperator (h : s.Alike s') {p p' : Pending} (hp : p.operator = p'.operator) :
    (s.pushOperator p).Alike (s'.pushOperator p') :=
  ⟨h.operands, .cons hp h.operators⟩

theorem twins_reduction (incoming : Operator) (h : s.Alike s') (hl : l.kinds = l'.kinds) :
    ∃ ds r ds' r', Twins Alike (fun sink => s.reduction incoming ⟨l, sink⟩)
      (fun sink => s'.reduction incoming ⟨l', sink⟩) ⟨ds, r, l⟩ ⟨ds', r', l'⟩ := by
  obtain ⟨xs, ps⟩ := s
  obtain ⟨xs', ps'⟩ := s'
  obtain ⟨hx, hp⟩ := h
  simp only at hx hp
  induction hp generalizing xs xs' with
  | nil =>
    simp only [reduction_nil]
    exact ⟨_, _, _, _, .const (.ok ⟨hx, .nil⟩) hl⟩
  | @cons top top' below below' ho hb ih =>
    cases hy : top.operator.yieldsTo incoming with
    | false =>
      have hy' : top'.operator.yieldsTo incoming = false := ho ▸ hy
      simp only [reduction_of_not_yields hy, reduction_of_not_yields hy']
      exact ⟨_, _, _, _, .const (.ok ⟨hx, .cons ho hb⟩) hl⟩
    | true =>
      have hy' : top'.operator.yieldsTo incoming = true := ho ▸ hy
      have hf := top.alike_fold? ho hx
      generalize hr : top.fold? xs = folding, hr' : top'.fold? xs' = folding' at hf
      cases hf with
      | none =>
        have he : (CompileError.malformed xs.length below.length top.line).withoutLine =
            (CompileError.malformed xs'.length below'.length top'.line).withoutLine := by
          rw [CompileError.withoutLine, hx.length_eq, hb.length_eq]
          rfl
        simp only [reduction_of_unfoldable hy hr, reduction_of_unfoldable hy' hr']
        exact ⟨_, _, _, _, .const (.error he) hl⟩
      | some hw =>
        obtain ⟨ds, r, ds', r', ht⟩ := ih _ _ (.cons hw.1.operand hw.2)
        simp only [reduction_of_yields hy hr, reduction_of_yields hy' hr']
        exact ⟨_, _, _, _, Twins.andThen_ok (u := ⟨ds, r, l⟩) (v := ⟨ds', r', l'⟩)
          (Pending.twins_recording ho hw.1 hl) rfl rfl ht⟩

theorem alike_result? (h : s.Alike s') : Option.Rel Operand.Alike s.result? s'.result? := by
  obtain ⟨xs, ps⟩ := s
  obtain ⟨xs', ps'⟩ := s'
  obtain ⟨hx, hp⟩ := h
  simp only at hx hp
  rcases hp with _ | ⟨ht, _ | ⟨hb, _ | _⟩⟩
  · exact .none
  · exact .none
  · rcases hx with _ | ⟨hx, _ | _⟩
    · exact .none
    · simp only [result?, ht, hb]
      split
      · exact .some hx
      · exact .none
    · exact .none
  · exact .none

end Stacks

namespace Reading

variable {l l' : Lookahead} {s s' : Stacks}

theorem alike_verdict (flags : ExprFlags) (line line' : Nat) (token token' : Token)
    (h : s.Alike s') :
    AnswersAlike Operand.Alike (verdict flags line token s) (verdict flags line' token' s') := by
  have hr := Stacks.alike_result? h
  have hm : (CompileError.malformed s.operands.length s.operators.length token.line).withoutLine =
      (CompileError.malformed s'.operands.length s'.operators.length token'.line).withoutLine := by
    rw [CompileError.withoutLine, h.operands.length_eq, h.operators.length_eq]
    rfl
  unfold verdict
  generalize s.result? = x?, s'.result? = x'? at hr
  cases hr with
  | none => exact .error hm
  | some hx =>
    simp only [hx.facts]
    split
    · exact .error rfl
    · exact .ok hx

/-- Runs over tokens of the same kinds take the same turns. -/
theorem twins_run (flags : ExprFlags) (line line' : Nat) (after : Bool) (h : s.Alike s')
    (hl : l.kinds = l'.kinds) :
    ∃ t t', Twins Operand.Alike (fun sink => run flags line ⟨⟨l, sink⟩, s, after⟩)
      (fun sink => run flags line' ⟨⟨l', sink⟩, s', after⟩) t t' := by
  induction hn : l.remaining using Nat.strong_induction_on generalizing l l' s s' after with
  | _ n ih =>
  subst hn
  have hk := Lookahead.kind_head_eq hl
  have ha := Lookahead.kinds_advance_eq hl
  have hf := Lookahead.kinds_fill_eq hl
  have hlt (hr : Role.ofKind flags after l.upcoming.head.kind ≠ .terminator) :
      l.advance.2.remaining < l.remaining :=
    Lookahead.remaining_advance_lt_of_kind (kind_ne_eof_of_role hr)
  cases hr : Role.ofKind flags after l.upcoming.head.kind with
  | operand literal =>
    have hr' := hr
    rw [hk] at hr'
    simp only [run_of_operand hr, run_of_operand hr', h.operands.length_eq]
    split
    · exact ⟨_, _, .const (.error rfl) hf⟩
    · exact ih _ (hlt (by simp [hr])) _ (h.pushOperand ⟨rfl, rfl, rfl⟩) ha rfl
  | operator operator =>
    have hr' := hr
    rw [hk] at hr'
    simp only [run_of_operator hr, run_of_operator hr']
    obtain ⟨ds, r, ds', r', ht⟩ := Stacks.twins_reduction operator h ha
    refine ht.andThen fun stack stack' hs => ?_
    simp only [hs.operators.length_eq]
    split
    · exact ⟨_, _, .const (.error rfl) ha⟩
    · exact ih _ (hlt (by simp [hr])) _ (hs.pushOperator rfl) ha rfl
  | terminator =>
    have hr' := hr
    rw [hk] at hr'
    simp only [run_of_terminator hr, run_of_terminator hr']
    obtain ⟨ds, r, ds', r', ht⟩ := Stacks.twins_reduction .collapse h hf
    refine ht.andThen fun stack stack' hs => ?_
    exact ⟨_, _, .const (alike_verdict flags _ _ _ _ (hs.pushOperator rfl)) hf⟩
  | lexical error =>
    have hr' := hr
    rw [hk] at hr'
    simp only [run_of_lexical hr, run_of_lexical hr']
    exact Twins.stopAt error _ _ hf
  | refused feature =>
    have hr' := hr
    rw [hk] at hr'
    simp only [run_of_refused hr, run_of_refused hr']
    exact ⟨_, _, .const (.error rfl) hf⟩

end Reading

namespace Parser

variable {l l' : Lookahead}

theorem twins_evaluate (flags : ExprFlags) (hl : l.kinds = l'.kinds) :
    ∃ t t', Twins Operand.Alike (fun s => evaluate ⟨l, s⟩ flags)
      (fun s => evaluate ⟨l', s⟩ flags) t t' := by
  simp only [evaluate_eq]
  exact Reading.twins_run flags _ _ false (Stacks.alike_start _ _) (Lookahead.kinds_fill_eq hl)

end Parser
end StaticAssert
