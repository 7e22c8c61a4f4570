import Mathlib.Data.List.DropRight
import Mathlib.Logic.Relation
import StaticAssert.Proofs.Expr.Reach

/-!
# The shape of the stacks

Whenever the next token is looked at, the stacked operators are the marker, infix operators
that bind the tighter the later they came, and the prefix operators behind the last of them;
there is an operand for each infix operator, and one more after an operand. There are six
strata, so there are at most six infix operators and seven operands, and an operator that is
applied before the end finds what it needs.
-/

set_option autoImplicit false

namespace StaticAssert

namespace Pending

def isUnary (p : Pending) : Bool :=
  match p.operator.operation with
  | .unary _ => true
  | _ => false

def isBinary (p : Pending) : Bool :=
  match p.operator.operation with
  | .binary _ => true
  | _ => false

end Pending

namespace Stacks

def prefixes (s : Stacks) : List Pending := s.operators.filter Pending.isUnary

def infixes (s : Stacks) : List Pending := s.operators.filter Pending.isBinary

inductive Applies (incoming : Operator) : Stacks → Stacks → Prop where
  | top {top : Pending} {below : List Pending} {xs rest : List Operand} {folded : Folded}
      (yields : top.operator.yieldsTo incoming = true)
      (folds : top.fold? xs = some (folded, rest)) :
      Applies incoming ⟨xs, top :: below⟩ ⟨folded.operand :: rest, below⟩

theorem applies_of_reduce {incoming : Operator} {s s' : Stacks} {sink : Sink}
    (h : (s.reduce incoming sink).1 = .ok s') :
    Relation.ReflTransGen (Applies incoming) s s' := by
  obtain ⟨xs, ps⟩ := s
  induction ps generalizing xs sink with
  | nil =>
    cases h
    exact .refl
  | cons top below ih =>
    simp only [reduce, reduceFrom] at h ih
    split at h
    next hy =>
      cases hf : top.fold? xs with
      | none =>
        rw [hf] at h
        cases h
      | some folding =>
        obtain ⟨folded, rest⟩ := folding
        rw [hf] at h
        simp only at h
        split at h
        · exact .head (.top hy hf) (ih _ h)
        · cases h
    next =>
      cases h
      exact .refl

/-- No operator leaves more operands than it finds. -/
theorem length_operands_le_of_applies {incoming : Operator} {s s' : Stacks}
    (h : Relation.ReflTransGen (Applies incoming) s s') :
    s'.operands.length ≤ s.operands.length := by
  induction h with
  | refl => exact Nat.le_refl _
  | tail _ step ih =>
    refine Nat.le_trans ?_ ih
    cases step with
    | @top top below xs rest folded _ folds =>
      unfold Pending.fold? at folds
      split at folds
      · cases folds
        exact Nat.le_refl _
      · cases folds
        exact Nat.le_succ _
      · cases folds

end Stacks

def currentRun (w : List Token) : List (Nat × Token) :=
  -- The prefix operators behind the last infix operator.
  (operators false w).rtakeWhile fun o => o.1 == 0

theorem currentRun_suffix (w : List Token) : currentRun w <:+ operators false w :=
  List.rtakeWhile_suffix _ _

theorem fst_of_mem_currentRun {w : List Token} {o : Nat × Token} (h : o ∈ currentRun w) :
    o.1 = 0 := by
  unfold currentRun at h
  exact beq_iff_eq.mp (List.mem_rtakeWhile_imp (p := fun o : Nat × Token => o.1 == 0) h)

/-- What the stacks look like once some tokens are taken. -/
structure Reading.Shaped (line : Nat) (w : List Token) (r : Reading) : Prop where
  operators : r.stack.operators =
    r.stack.prefixes ++ r.stack.infixes ++ [.marker .bottom line]
  increasing : r.stack.infixes.Pairwise fun inner outer =>
    outer.operator.precedence < inner.operator.precedence
  operands : r.stack.operands.length = r.stack.infixes.length + r.afterOperand.toNat
  run : r.stack.prefixes.length = (currentRun w).length

theorem BinaryOp.precedence_lt {inner outer : BinaryOp} (h : inner.stratum < outer.stratum) :
    outer.precedence < inner.precedence := by
  revert h
  cases inner <;> cases outer <;> decide

namespace Context

variable {c : Context} {k line : Nat} {last? : Option Tree}

def unaries (c : Context) : List Pending := (c.map Frame.pending).filter Pending.isUnary

def binaries (c : Context) : List Pending := (c.map Frame.pending).filter Pending.isBinary

variable {op : UnaryOp} {op' : BinaryOp} {p : Site} {x : Tree}

theorem unaries_unary :
    unaries (.unary op p :: c) = (Frame.unary op p).pending :: unaries c := rfl

theorem unaries_binary : unaries (.binary op' p x :: c) = unaries c := rfl

theorem binaries_unary : binaries (.unary op p :: c) = binaries c := rfl

theorem binaries_binary :
    binaries (.binary op' p x :: c) = (Frame.binary op' p x).pending :: binaries c := rfl

theorem prefixes_onStacks (c : Context) (line : Nat) (last? : Option Tree) :
    (c.onStacks line last?).prefixes = c.unaries := by
  rw [Stacks.prefixes, onStacks, List.filter_append]
  exact List.append_nil _

theorem infixes_onStacks (c : Context) (line : Nat) (last? : Option Tree) :
    (c.onStacks line last?).infixes = c.binaries := by
  rw [Stacks.infixes, onStacks, List.filter_append]
  exact List.append_nil _

theorem unaries_eq_nil (hk : 0 < k) (h : c.Awaits k) : c.unaries = [] := by
  refine List.filter_eq_nil_iff.mpr ?_
  intro q hq
  obtain ⟨f, hf, rfl⟩ := List.mem_map.mp hq
  have hs := stratum_lt_of_awaits hk h hf
  cases f with
  | unary op p => exact absurd hs (Nat.not_lt_zero k)
  | binary op p x => exact Bool.false_ne_true

theorem pending_eq_append (h : c.Awaits k) :
    c.map Frame.pending = c.unaries ++ c.binaries := by
  induction c generalizing k with
  | nil => rfl
  | cons f c ih =>
    cases f with
    | unary op p => rw [List.map_cons, ih h.2, unaries_unary, binaries_unary, List.cons_append]
    | binary op p x =>
      rw [List.map_cons, ih h.2.2, unaries_binary, binaries_binary,
        unaries_eq_nil op.stratum_pos h.2.2, List.nil_append, List.nil_append]

theorem increasing_binaries (h : c.Awaits k) :
    c.binaries.Pairwise fun inner outer =>
      outer.operator.precedence < inner.operator.precedence := by
  induction c generalizing k with
  | nil => exact .nil
  | cons f c ih =>
    cases f with
    | unary op p => exact ih h.2
    | binary op p x =>
      refine .cons ?_ (ih h.2.2)
      intro q hq
      obtain ⟨hq, hb⟩ := List.mem_filter.mp hq
      obtain ⟨f, hf, rfl⟩ := List.mem_map.mp hq
      have hs := stratum_lt_of_awaits op.stratum_pos h.2.2 hf
      cases f with
      | unary op' p' => cases hb
      | binary op' p' x' => exact BinaryOp.precedence_lt hs

theorem length_operands_eq (c : Context) :
    (c.flatMap Frame.operands).length = c.binaries.length := by
  induction c with
  | nil => rfl
  | cons f c ih =>
    rw [List.flatMap_cons, List.length_append, ih]
    cases f with
    | unary op p => exact Nat.zero_add _
    | binary op p x => exact Nat.add_comm 1 _

theorem length_binaries_le (h : c.Awaits 0) : c.binaries.length ≤ 6 := by
  rw [← length_operands_eq]
  exact length_operands_le h

/-- The prefix operators on the stack are those that came last. -/
theorem length_currentRun (h : c.Awaits k) :
    (currentRun c.tokens).length = c.unaries.length := by
  induction c generalizing k with
  | nil => rfl
  | cons f c ih =>
    rw [currentRun, tokens, operators_append]
    cases f with
    | unary op p =>
      have ho : operators false (Frame.unary op p).tokens = [(Frame.unary op p).operator] := rfl
      rw [ho, List.rtakeWhile_concat_pos _ _ _ rfl, List.length_append, unaries_unary]
      exact congrArg (· + 1) (ih h.2)
    | binary op p x =>
      have hn : ¬ ((Frame.binary op p x).operator.1 == 0) = true := fun hz =>
        Nat.ne_of_gt op.stratum_pos (beq_iff_eq.mp hz)
      rw [Frame.operators_binary, ← List.append_assoc,
        List.rtakeWhile_concat_neg (fun o : Nat × Token => o.1 == 0) _ _ hn, unaries_binary,
        unaries_eq_nil op.stratum_pos h.2.2, List.length_nil, List.length_nil]

theorem length_eq_add (h : c.Awaits k) : c.length = c.unaries.length + c.binaries.length := by
  rw [← List.length_map (f := Frame.pending), pending_eq_append h, List.length_append]

end Context

namespace Reading.Framed

variable {flags : ExprFlags} {p : Parser} {w : List Token} {r : Reading} {c : Context}
variable {last? : Option Tree} {l : Lookahead} {s : Sink}

theorem operators_eq (h : Framed p w r c last? l s) :
    StaticAssert.operators false w = StaticAssert.operators false c.tokens := by
  rw [← h.read, Context.read, c.operators_append]
  cases last? with
  | none => exact List.append_nil _
  | some e =>
    obtain ⟨n, q, rfl⟩ := h.literal e rfl
    exact List.append_nil _

theorem infixes_eq (h : Framed p w r c last? l s) : r.stack.infixes = c.binaries := by
  rw [h.state]
  exact c.infixes_onStacks _ last?

theorem prefixes_eq (h : Framed p w r c last? l s) : r.stack.prefixes = c.unaries := by
  rw [h.state]
  exact c.prefixes_onStacks _ last?

theorem shaped (h : Framed p w r c last? l s) : r.Shaped p.peek.1.line w := by
  have ha := h.valid.awaits
  constructor
  · rw [h.prefixes_eq, h.infixes_eq, ← Context.pending_eq_append ha, h.state]
    rfl
  · rw [h.infixes_eq]
    exact Context.increasing_binaries ha
  · rw [h.infixes_eq, ← Context.length_operands_eq, h.state, Context.reading, Context.onStacks,
      List.length_append, Nat.add_comm]
    cases last? <;> rfl
  · rw [h.prefixes_eq, currentRun, h.operators_eq]
    exact (c.length_currentRun ha).symm

theorem length_operands_le (h : Framed p w r c last? l s) : r.stack.operands.length ≤ 7 := by
  have hb := Context.length_binaries_le h.valid.awaits
  have ha := Bool.toNat_le r.afterOperand
  rw [h.shaped.operands, h.infixes_eq]
  omega

/-- Whatever operator comes next, those that yield to it find their operands. -/
theorem reduce_ne_malformed (h : Framed p w r c last? l s) {operator : Operator}
    (hr : Role.ofKind flags r.afterOperand r.look.1.kind = .operator operator) (sink : Sink)
    (a b n : Nat) : (r.stack.reduce operator sink).1 ≠ .error (.malformed a b n) := by
  rw [h.state] at hr ⊢
  cases last? with
  | none =>
    rcases Role.ofKind_eq_operator hr with ⟨-, op, rfl, -⟩ | ⟨ha, -⟩
    · show ((c.onStacks p.peek.1.line none).reduction (.unary op) ⟨l, sink⟩).result ≠ _
      rw [c.reduction_unary]
      nofun
    · cases ha
  | some x =>
    rcases Role.ofKind_eq_operator hr with ⟨ha, -⟩ | ⟨-, op, rfl, -⟩
    · cases ha
    · obtain ⟨new, -, hd⟩ :=
        c.exists_describes_reduction (Operator.reaches_binary op) p.peek.1.line l x
      show ((c.onStacks p.peek.1.line (some x)).reduction (.binary op) ⟨l, sink⟩).result ≠ _
      rw [hd.result_eq sink]
      split <;> nofun

theorem length_eq_add (h : Framed p w r c last? l s) :
    c.length = r.stack.infixes.length + (currentRun w).length := by
  rw [← h.shaped.run, h.prefixes_eq, h.infixes_eq, Nat.add_comm]
  exact Context.length_eq_add h.valid.awaits

end Reading.Framed

end StaticAssert
