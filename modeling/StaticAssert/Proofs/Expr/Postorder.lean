import Mathlib.Data.List.Forall2
import StaticAssert.Proofs.Expr.Acceptance
import StaticAssert.Proofs.Expr.Nodes

/-!
# Overflows in post-order

A node overflows if it is arithmetic on signed operands whose exact result is no word. The
evaluator keeps no tree and applies an operator when a later one makes it yield, so that
prefix runs and precedences decide when that is. It comes to the post-order of the tree:
one record for each node that overflows, at the tokens of the node, and no other record.
-/

set_option autoImplicit false

namespace StaticAssert

open scoped Stream'

namespace Tree

/-- The nodes in post-order, from left to right. -/
def nodes : Tree → List Tree
  | .literal n p => [.literal n p]
  | .unary op p x => x.nodes ++ [.unary op p x]
  | .binary op p x y => x.nodes ++ (y.nodes ++ [.binary op p x y])

def operands : Tree → List Tree
  | .literal _ _ => []
  | .unary _ _ x => [x]
  | .binary _ _ x y => [x, y]

def arithmetic? : Tree → Option Int
  | .unary .neg _ x => some (-x.value)
  | .binary .add _ x y => some (x.value + y.value)
  | .binary .sub _ x y => some (x.value - y.value)
  | .binary .mul _ x y => some (x.value * y.value)
  | _ => none

def operator? : Tree → Option (UInt8 × Site)
  | .literal _ _ => none
  | .unary op p _ => some (op.code, p)
  | .binary op p _ _ => some (op.code, p)

structure Overflows (e : Tree) : Prop where
  -- The node is signed arithmetic whose exact result is no word.
  result : ∃ n ∈ e.arithmetic?, ¬ InRange n
  signed : ∀ x ∈ e.operands, x.isUnsigned = false

instance : DecidablePred Overflows := fun e =>
  decidable_of_iff ((∃ n ∈ e.arithmetic?, ¬ InRange n) ∧ ∀ x ∈ e.operands, x.isUnsigned = false)
    ⟨fun h => ⟨h.1, h.2⟩, fun h => ⟨h.result, h.signed⟩⟩

structure Told (e : Tree) (d : Diagnostic) : Prop where
  -- A record tells of a node: the code and the line of its operator, and the bytes from its first
  -- token to its last.
  issue : d.issue = .signedOverflow
  operator : ∃ p, e.operator? = some (d.misc, p) ∧ d.line = p.line
  first : e.tokens.head?.map (·.span.start) = some d.span.start
  last : e.tokens.getLast?.map (·.span.stop) = some d.span.stop

variable {e x y : Tree} {p : Site}

theorem unary_overflows_iff {op : UnaryOp} :
    (unary op p x).Overflows ↔ ¬ (InRange (op.denote id x.value) ∨ x.isUnsigned = true) := by
  have hw := op.overflows_eq x.operand.value
  rw [x.operand_value] at hw
  have h : ¬ InRange (op.denote id x.value) ↔ ∃ n ∈ (unary op p x).arithmetic?, ¬ InRange n := by
    rw [← decide_eq_true_iff (p := ¬ InRange _), ← hw]
    cases op with
    | neg => simp [UnaryOp.overflows, arithmetic?, operand_value]
    | plus | not | bitNot => simp [UnaryOp.overflows, arithmetic?]
  rw [not_or, h, Bool.not_eq_true]
  constructor
  · intro ho
    exact ⟨ho.result, ho.signed x List.mem_cons_self⟩
  · rintro ⟨hn, hu⟩
    exact ⟨hn, List.forall_mem_singleton.mpr hu⟩

theorem binary_overflows_iff {op : BinaryOp} :
    (binary op p x y).Overflows ↔
      ¬ (InRange (op.denote id x.value y.value) ∨ (x.isUnsigned || y.isUnsigned) = true) := by
  have hw := op.overflows_eq x.operand.value y.operand.value
  rw [x.operand_value, y.operand_value] at hw
  have h : ¬ InRange (op.denote id x.value y.value) ↔
      ∃ n ∈ (binary op p x y).arithmetic?, ¬ InRange n := by
    rw [← decide_eq_true_iff (p := ¬ InRange _), ← hw]
    cases op with
    | add | sub | mul => simp [BinaryOp.overflows, arithmetic?, operand_value]
    | bitAnd | bitOr | bitXor | eq | notEq => simp [BinaryOp.overflows, arithmetic?]
  rw [not_or, h, Bool.not_eq_true, Bool.or_eq_false_iff]
  constructor
  · intro ho
    exact ⟨ho.result, ho.signed x List.mem_cons_self,
      ho.signed y (List.mem_cons_of_mem _ List.mem_cons_self)⟩
  · rintro ⟨hn, hx, hy⟩
    exact ⟨hn, List.forall_mem_cons.mpr ⟨hx, List.forall_mem_singleton.mpr hy⟩⟩

theorem exists_last (e : Tree) (h : Token.InOrder e.tokens) :
    ∃ (ts : List Token) (t : Token), e.tokens = ts ++ [t] ∧ t.span.stop = e.span.stop := by
  have last (e : Tree) :
      ∃ (ts : List Token) (t : Token), e.tokens = ts ++ [t] ∧ t.span.stop ≤ e.span.stop := by
    induction e with
    | literal n p => exact ⟨[], _, rfl, Nat.le_refl _⟩
    | unary op p x ih =>
      obtain ⟨ts, t, ht, hs⟩ := ih
      refine ⟨p.token (.punct op.punct) :: ts, t, by rw [tokens, ht, List.cons_append], ?_⟩
      exact Nat.le_trans hs (Nat.le_max_right _ _)
    | binary op p x y ihx ihy =>
      obtain ⟨ts, t, ht, hs⟩ := ihy
      refine ⟨x.tokens ++ p.token (.punct op.punct) :: ts, t, ?_, ?_⟩
      · rw [tokens, ht, List.append_assoc, List.cons_append]
      · exact Nat.le_trans hs (Nat.le_max_right _ _)
  obtain ⟨ts, t, ht, hs⟩ := last e
  obtain ⟨u, hu, hs'⟩ := e.exists_stop
  refine ⟨ts, t, ht, ?_⟩
  rw [ht] at h hu
  rcases List.mem_append.mp hu with hu | hu
  · have hb := (List.pairwise_append.mp h.behind).2.2 u hu t List.mem_cons_self
    have hn := h.nonempty t (List.mem_append_right _ List.mem_cons_self)
    omega
  · rw [List.mem_singleton.mp hu] at hs'
    exact hs'

theorem told (h : Token.InOrder e.tokens) {code : UInt8} (ho : e.operator? = some (code, p)) :
    e.Told (.signedOverflow code p.line e.span) := by
  obtain ⟨t, ts, ht, hs⟩ := e.exists_head h
  obtain ⟨us, u, hu, hs'⟩ := e.exists_last h
  constructor
  · rfl
  · exact ⟨p, ho, rfl⟩
  · rw [ht, List.head?_cons, Option.map_some, hs]
    rfl
  · rw [hu, List.getLast?_concat, Option.map_some, hs']
    rfl

theorem told_overflow (h : Token.InOrder e.tokens) {code : UInt8} {unsigned : Bool} {n : Int}
    (ho : e.operator? = some (code, p)) (hn : e.Overflows ↔ ¬ (InRange n ∨ unsigned = true)) :
    List.Forall₂ Told ([e].filter (Overflows ·)) (overflow code p.line e.span unsigned n) := by
  rw [overflow]
  by_cases hi : InRange n ∨ unsigned = true
  · have he : ¬ e.Overflows := fun he => hn.mp he hi
    rw [if_pos hi, List.filter_cons_of_neg (by simpa using he)]
    exact .nil
  · have he : e.Overflows := hn.mpr hi
    rw [if_neg hi, List.filter_cons_of_pos (by simpa using he)]
    exact .cons (told h ho) .nil

/-- The records of a tree tell of its overflowing nodes one by one. -/
theorem told_records (h : Token.InOrder e.tokens) :
    List.Forall₂ Told (e.nodes.filter (Overflows ·)) e.records := by
  induction e with
  | literal n p =>
    have hn : ¬ (literal n p).Overflows := by
      rintro ⟨⟨_, hm, _⟩, _⟩
      cases hm
    rw [nodes, List.filter_cons_of_neg (by simpa using hn)]
    exact .nil
  | unary op p x ih =>
    have hx := ih (h.sublist (List.sublist_cons_self _ _))
    rw [nodes, List.filter_append]
    exact List.rel_append hx (told_overflow h rfl unary_overflows_iff)
  | binary op p x y ihx ihy =>
    have hx := ihx (h.sublist (List.sublist_append_left _ _))
    have hy := ihy (h.sublist
      ((List.sublist_cons_self _ _).trans (List.sublist_append_right _ _)))
    rw [nodes, List.filter_append, List.filter_append]
    exact List.rel_append hx
      (List.rel_append hy (told_overflow h rfl binary_overflows_iff))

end Tree

namespace Parser

/-- An accepted expression appends one record for each of its nodes that overflows, in
post-order, and nothing else. -/
theorem overflows_in_postorder (p : Parser) (flags : ExprFlags) {s : Scanner} {x : Operand}
    (h : p.upcoming = s.stream) (hx : (p.evaluate flags).result = .ok x) :
    (∃ e rest, flags.Offers p.upcoming e rest) ∧
      ∀ e rest, flags.Offers p.upcoming e rest →
        ∃ ds, (p.evaluate flags).parser.sink = p.sink.append ds ∧
          List.Forall₂ Tree.Told (e.nodes.filter (Tree.Overflows ·)) ds := by
  obtain ⟨tokens, sink⟩ := p
  obtain ⟨e, -, he⟩ := offers_of_evaluate hx
  refine ⟨⟨e, _, he⟩, ?_⟩
  intro e rest he
  obtain ⟨tokens', -, hd⟩ := exists_describes_evaluate_of_offers he
  have hs := hd.room sink (hd.result_eq_ok_iff.mp hx).2
  have ho : Token.Ordered (e.tokens ++ₛ rest) := by
    rw [← he.tokens, h]
    exact Token.ordered_stream s
  refine ⟨e.records, by rw [hs], ?_⟩
  exact Tree.told_records (ho.inOrder fun t => Tree.kind_ne_eof)

/-- The product and the sign come before the sum, though the sum is read before the sign. -/
theorem overflows_in_postorder_sum :
    (ofText "9223372036854775807*2+-9223372036854775808" (.empty 3)).upcoming =
        (Scanner.ofText "9223372036854775807*2+-9223372036854775808").stream ∧
      (∃ x, ((ofText "9223372036854775807*2+-9223372036854775808" (.empty 3)).evaluate {}).result =
        .ok x) ∧
      ∃ e rest, ExprFlags.Offers {}
          (ofText "9223372036854775807*2+-9223372036854775808" (.empty 3)).upcoming e rest ∧
        List.Forall₂ Tree.Told (e.nodes.filter (Tree.Overflows ·))
          [.signedOverflow 9 1 ⟨0, 21⟩, .signedOverflow 1 1 ⟨22, 42⟩,
            .signedOverflow 7 1 ⟨0, 42⟩] := by
  have h : (ofText "9223372036854775807*2+-9223372036854775808" (.empty 3)).upcoming =
      (Scanner.ofText "9223372036854775807*2+-9223372036854775808").stream :=
    Lookahead.upcoming_ofScanner _
  have hx : ((ofText "9223372036854775807*2+-9223372036854775808" (.empty 3)).evaluate {}).result =
      .ok ⟨.integer .g64 false, { immediate := true }, 9223372036854775806, ⟨0, 42⟩⟩ := by
    decide +kernel
  have hr :
      ((ofText "9223372036854775807*2+-9223372036854775808" (.empty 3)).evaluate {}).parser.sink =
        Sink.append (.empty 3) [.signedOverflow 9 1 ⟨0, 21⟩, .signedOverflow 1 1 ⟨22, 42⟩,
          .signedOverflow 7 1 ⟨0, 42⟩] := by
    decide +kernel
  obtain ⟨⟨e, rest, he⟩, ht⟩ := overflows_in_postorder _ {} h hx
  obtain ⟨ds, hs, hf⟩ := ht e rest he
  have hd := Sink.append_inj (hs.symm.trans hr)
  rw [hd] at hf
  exact ⟨h, ⟨_, hx⟩, e, rest, he, hf⟩

end Parser
end StaticAssert
