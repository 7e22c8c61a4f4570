import StaticAssert.Expr.Stacks
import StaticAssert.Proofs.Expr.Run
import StaticAssert.Proofs.Expr.Tree

/-!
# Expressions that are partly read

What is read of an expression, and not yet joined, is a list of frames around the place
where reading goes on: a frame is an operator that waits for its right operand, with
its left operand if it takes one. The two stacks of the evaluator are an image of the
frames. Reducing them is filling the innermost frames with the tree just read, as far
out as the incoming operator reaches; it moves no token, keeps the grammar, and records
the overflows of the nodes it builds.
-/

set_option autoImplicit false

namespace StaticAssert

theorem Pending.records_eq (top : Pending) {folded : Folded} {unsigned : Bool} {n : Int}
    (h : folded.wrapped = (decide (¬ InRange n) && !unsigned)) :
    top.records folded =
      Tree.overflow top.operator.operation.code top.line folded.operand.span unsigned n := by
  rw [records, h, Tree.overflow]
  by_cases hn : InRange n
  · simp [hn]
  · cases unsigned <;> simp [hn]

inductive Frame where
  | unary (op : UnaryOp) (site : Site)
  | binary (op : BinaryOp) (site : Site) (x : Tree)

abbrev Context := List Frame

namespace Frame

def plug : Frame → Tree → Tree
  | .unary op p, t => .unary op p t
  | .binary op p x, t => .binary op p x t

def stratum : Frame → Nat
  | .unary _ _ => 0
  | .binary op _ _ => op.stratum

theorem stratum_le (f : Frame) : f.stratum ≤ 6 := by
  cases f with
  | unary op p => exact Nat.zero_le 6
  | binary op p x => exact op.stratum_le

def pending : Frame → Pending
  | .unary op p => ⟨.unary op, p.span, p.line⟩
  | .binary op p _ => ⟨.binary op, p.span, p.line⟩

def operands : Frame → List Operand
  | .unary _ _ => []
  | .binary _ _ x => [x.operand]

def tokens : Frame → List Token
  | .unary op p => [p.token (.punct op.punct)]
  | .binary op p x => x.tokens ++ [p.token (.punct op.punct)]

def records : Frame → List Diagnostic
  | .unary _ _ => []
  | .binary _ _ x => x.records

theorem tokens_plug (f : Frame) (t : Tree) : (f.plug t).tokens = f.tokens ++ t.tokens := by
  cases f with
  | unary op p => rfl
  | binary op p x => simp [plug, Tree.tokens, tokens]

/-- The stacked operator computes the operand of the tree that filling the frame gives, and
records its overflow. -/
theorem exists_fold? (f : Frame) (t : Tree) (xs : List Operand) :
    ∃ folded, f.pending.fold? (t.operand :: (f.operands ++ xs)) = some (folded, xs) ∧
      folded.operand = (f.plug t).operand ∧
      f.records ++ (t.records ++ f.pending.records folded) = (f.plug t).records := by
  cases f with
  | unary op p =>
    have h : (Folded.unary op t.operand p.span).wrapped =
        (decide (¬ InRange (op.denote id t.value)) && !t.isUnsigned) := by
      rw [Folded.unary, op.overflows_eq, t.operand_value, t.operand_isUnsigned]
    refine ⟨_, rfl, rfl, ?_⟩
    show [] ++ (t.records ++ Pending.records _ (Folded.unary op t.operand p.span)) = _
    rw [Pending.records_eq _ h, plug, Tree.records, ← Tree.operand_span (.unary op p t)]
    rfl
  | binary op p x =>
    have h : (Folded.binary op x.operand t.operand).wrapped =
        (decide (¬ InRange (op.denote id x.value t.value)) &&
          !(x.isUnsigned || t.isUnsigned)) := by
      simp only [Folded.binary, op.overflows_eq, Tree.operand_value, Tree.operand_isUnsigned]
    refine ⟨_, rfl, rfl, ?_⟩
    rw [Pending.records_eq _ h, plug, Tree.records, ← Tree.operand_span (.binary op p x t)]
    rfl

end Frame

structure Operator.Reaches (incoming : Operator) (k : Nat) : Prop where
  frame : ∀ f : Frame, f.pending.operator.yieldsTo incoming = decide (f.stratum ≤ k)
  bottom : Operator.bottom.yieldsTo incoming = false

namespace Operator

theorem reaches_binary (op : BinaryOp) : (binary op).Reaches op.stratum where
  frame f := by
    cases f with
    | unary o p => cases o <;> cases op <;> rfl
    | binary o p x => cases o <;> cases op <;> rfl
  bottom := by cases op <;> rfl

theorem reaches_collapse : collapse.Reaches 6 where
  frame f := by
    cases f with
    | unary o p => cases o <;> rfl
    | binary o p x => cases o <;> rfl
  bottom := rfl

theorem not_yieldsTo_unary (op : UnaryOp) (f : Frame) :
    f.pending.operator.yieldsTo (unary op) = false := by
  cases f with
  | unary o p => rfl
  | binary o p x => cases o <;> rfl

theorem bottom_not_yieldsTo_unary (op : UnaryOp) : bottom.yieldsTo (unary op) = false := rfl

end Operator

namespace Context

def tokens : Context → List Token
  | [] => []
  | f :: c => tokens c ++ f.tokens

def records : Context → List Diagnostic
  | [] => []
  | f :: c => records c ++ f.records

def onStacks (c : Context) (line : Nat) (last? : Option Tree) : Stacks :=
  ⟨(last?.map Tree.operand).toList ++ c.flatMap Frame.operands,
    c.map Frame.pending ++ [.marker .bottom line]⟩

def Awaits : Context → Nat → Prop
  | [], k => k ≤ 6
  | .unary _ _ :: c, k => k = 0 ∧ Awaits c 0
  | .binary op _ x :: c, k => k < op.stratum ∧ x.InStratum op.stratum ∧ Awaits c op.stratum

def Shallow : Context → Prop
  | [] => True
  | .unary _ _ :: c => c.length < 31 ∧ Shallow c
  | .binary _ _ x :: c => x.Shallow c.length ∧ Shallow c

def unwind (k : Nat) : Context → Tree → Context × Tree
  | [], t => ([], t)
  | f :: c, t => if f.stratum ≤ k then unwind k c (f.plug t) else (f :: c, t)

theorem Awaits.mono {j k : Nat} {c : Context} (h : Awaits c k) (hj : j ≤ k) : Awaits c j := by
  cases c with
  | nil => exact Nat.le_trans hj h
  | cons f c =>
    cases f with
    | unary op p => exact ⟨Nat.le_zero.mp (h.1 ▸ hj), h.2⟩
    | binary op p x => exact ⟨Nat.lt_of_le_of_lt hj h.1, h.2⟩

theorem length_operands_le {k : Nat} {c : Context} (h : Awaits c k) :
    (c.flatMap Frame.operands).length + k ≤ 6 := by
  induction c generalizing k with
  | nil =>
    rw [List.flatMap_nil, List.length_nil, Nat.zero_add]
    exact h
  | cons f c ih =>
    cases f with
    | unary op p =>
      have := ih h.2
      rw [List.flatMap_cons, Frame.operands, List.nil_append, h.1]
      exact this
    | binary op p x =>
      have := ih h.2.2
      have hk := h.1
      rw [List.flatMap_cons, Frame.operands, List.length_append, List.length_singleton]
      omega

theorem length_le {k : Nat} {c : Context} (hk : 0 < k) (h : Awaits c k) : c.length + k ≤ 6 := by
  induction c generalizing k with
  | nil =>
    rw [List.length_nil, Nat.zero_add]
    exact h
  | cons f c ih =>
    cases f with
    | unary op p => exact absurd h.1 (Nat.ne_of_gt hk)
    | binary op p x =>
      have := ih op.stratum_pos h.2.2
      have := h.1
      rw [List.length_cons]
      omega

theorem unwind_of_awaits {k : Nat} {c : Context} (hk : 0 < k) (h : Awaits c k) (t : Tree) :
    unwind k c t = (c, t) := by
  cases c with
  | nil => rfl
  | cons f c =>
    cases f with
    | unary op p => exact absurd h.1 (Nat.ne_of_gt hk)
    | binary op p x => exact if_neg (Nat.not_le.mpr h.1)

theorem tokens_unwind (k : Nat) (c : Context) (t : Tree) :
    tokens (unwind k c t).1 ++ (unwind k c t).2.tokens = tokens c ++ t.tokens := by
  induction c generalizing t with
  | nil => rfl
  | cons f c ih =>
    rw [unwind]
    split
    · rw [ih, Frame.tokens_plug, tokens, List.append_assoc]
    · rfl

theorem awaits_unwind {j k : Nat} {c : Context} {t : Tree} (ht : t.InStratum j) (hj : j ≤ k)
    (hk : k ≤ 6) (hc : Awaits c j) :
    Awaits (unwind k c t).1 k ∧ (unwind k c t).2.InStratum k := by
  induction c generalizing j t with
  | nil => exact ⟨hk, ht.mono hj⟩
  | cons f c ih =>
    rw [unwind]
    cases f with
    | unary op p =>
      obtain ⟨rfl, hc⟩ := hc
      rw [if_pos (show (Frame.unary op p).stratum ≤ k from Nat.zero_le k)]
      exact ih (.prefixed op p ht) hj hc
    | binary op p x =>
      by_cases hf : op.stratum ≤ k
      · obtain ⟨i, hi⟩ : ∃ i, op.stratum = i + 1 :=
          Nat.exists_eq_succ_of_ne_zero (Nat.ne_zero_of_lt hc.1)
        have hx : x.InStratum (i + 1) := hi ▸ hc.2.1
        have hj' : j ≤ i := by
          have := hc.1
          omega
        rw [if_pos (show (Frame.binary op p x).stratum ≤ k from hf)]
        exact ih (hi ▸ .joined op p hi hx (ht.mono hj')) hf hc.2.2
      · rw [if_neg (show ¬ (Frame.binary op p x).stratum ≤ k from hf)]
        exact ⟨⟨Nat.lt_of_not_le hf, hc.2⟩, ht.mono hj⟩

theorem shallow_unwind (k : Nat) {c : Context} {t : Tree} (hc : Shallow c)
    (ht : t.Shallow c.length) :
    Shallow (unwind k c t).1 ∧ (unwind k c t).2.Shallow (unwind k c t).1.length := by
  induction c generalizing t with
  | nil => exact ⟨hc, ht⟩
  | cons f c ih =>
    rw [unwind]
    split
    · cases f with
      | unary op p => exact ih hc.2 ⟨hc.1, ht⟩
      | binary op p x => exact ih hc.2 ⟨hc.1, ht⟩
    · exact ⟨hc, ht⟩

theorem reduction_bottom {incoming : Operator} (h : Operator.bottom.yieldsTo incoming = false)
    (line : Nat) (t : Tree) (p : Parser) :
    (onStacks [] line (some t)).reduction incoming p = ⟨.ok (onStacks [] line (some t)), p⟩ :=
  Stacks.reduction_of_not_yields h p

/-- Reducing the stacks fills the frames that the incoming operator reaches and records the
overflows of the nodes that come about. -/
theorem exists_describes_reduction {incoming : Operator} {k : Nat} (h : incoming.Reaches k)
    (line : Nat) (l : Lookahead) (c : Context) (t : Tree) :
    ∃ new, records c ++ t.records ++ new =
        records (unwind k c t).1 ++ (unwind k c t).2.records ∧
      Transcript.Describes
        ⟨new, .ok (onStacks (unwind k c t).1 line (some (unwind k c t).2)), l⟩
        fun s => (onStacks c line (some t)).reduction incoming ⟨l, s⟩ := by
  induction c generalizing t with
  | nil =>
    refine ⟨[], List.append_nil _, ?_⟩
    simp only [fun s => reduction_bottom h.bottom line t ⟨l, s⟩]
    exact Transcript.describes_const _ l
  | cons f c ih =>
    rw [unwind]
    by_cases hf : f.stratum ≤ k
    · obtain ⟨folded, hd, ho, hr⟩ := f.exists_fold? t (c.flatMap Frame.operands)
      have hy : f.pending.operator.yieldsTo incoming = true := by
        rw [h.frame, decide_eq_true hf]
      obtain ⟨new, hn, ht⟩ := ih (f.plug t)
      have hs (s : Sink) : (onStacks (f :: c) line (some t)).reduction incoming ⟨l, s⟩ =
          (f.pending.recording folded ⟨l, s⟩).andThen fun _ p =>
            (onStacks c line (some (f.plug t))).reduction incoming p := by
        have he : Stacks.reduction ⟨t.operand :: (f.operands ++ c.flatMap Frame.operands),
            f.pending :: (c.map Frame.pending ++ [.marker .bottom line])⟩ incoming ⟨l, s⟩ = _ :=
          Stacks.reduction_of_yields hy hd ⟨l, s⟩
        rw [ho] at he
        exact he
      rw [if_pos hf]
      refine ⟨f.pending.records folded ++ new, ?_, ?_⟩
      · rw [← hn, ← hr, records]
        simp only [List.append_assoc]
      · simp only [hs]
        exact Transcript.describes_andThen_ok (u := ⟨new, _, l⟩)
          (f.pending.describes_recording folded l) rfl ht
    · have hy : f.pending.operator.yieldsTo incoming = false := by
        rw [h.frame, decide_eq_false hf]
      have hs (s : Sink) : (onStacks (f :: c) line (some t)).reduction incoming ⟨l, s⟩ =
          ⟨.ok (onStacks (f :: c) line (some t)), ⟨l, s⟩⟩ :=
        Stacks.reduction_of_not_yields hy ⟨l, s⟩
      rw [if_neg hf]
      refine ⟨[], List.append_nil _, ?_⟩
      simp only [hs]
      exact Transcript.describes_const _ l

theorem reduction_unary (op : UnaryOp) (line : Nat) (c : Context) (p : Parser) :
    (onStacks c line none).reduction (.unary op) p = ⟨.ok (onStacks c line none), p⟩ := by
  cases c with
  | nil => exact Stacks.reduction_of_not_yields (Operator.bottom_not_yieldsTo_unary op) p
  | cons f c => exact Stacks.reduction_of_not_yields (Operator.not_yieldsTo_unary op f) p

end Context
end StaticAssert
