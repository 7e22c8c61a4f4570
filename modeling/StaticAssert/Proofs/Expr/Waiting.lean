import StaticAssert.Proofs.Expr.Acceptance
import StaticAssert.Proofs.Expr.Alternation

/-!
# Operators that wait

Which operators wait for their right operand can be told from the tokens read. A prefix
operator stands below all strata; an infix operator belongs to its own. An operator waits
if no infix operator has come behind it, or only such as bind tighter. Where reading
goes on with an operand, the frames are the operators that wait.
-/

set_option autoImplicit false

namespace StaticAssert

def Kind.stratum : Kind → Nat
  | .punct .star => 1
  | .punct .plus | .punct .minus => 2
  | .punct .equal | .punct .notEqual => 3
  | .punct .amp => 4
  | .punct .caret => 5
  | .punct .pipe => 6
  | _ => 0

theorem BinaryOp.stratum_punct (op : BinaryOp) : (Kind.punct op.punct).stratum = op.stratum := by
  cases op <;> rfl

def operators (after : Bool) : List Token → List (Nat × Token)
  -- The operators among some tokens with their strata, where `after` says if a number comes
  -- before the first.
  | [] => []
  | t :: ts =>
    match t.number? with
    | some _ => operators true ts
    | none => (if after then t.kind.stratum else 0, t) :: operators false ts

def BindsTighter (later o : Nat × Token) : Prop := later.1 = 0 ∨ later.1 < o.1

instance (later o : Nat × Token) : Decidable (BindsTighter later o) :=
  inferInstanceAs (Decidable (_ ∨ _))

/-- The operators that none behind them makes apply. -/
def waiting : List (Nat × Token) → List (Nat × Token)
  | [] => []
  | o :: os => if ∀ later ∈ os, BindsTighter later o then o :: waiting os else waiting os

def Uncrowded (w : List Token) : Prop :=
  -- No prefix operator comes where 31 operators wait.
  ∀ before t after, w = before ++ t :: after → t.number? = none → endsInNumber before = false →
    (waiting (operators false before)).length < 31

theorem waiting_append (os us : List (Nat × Token)) :
    waiting (os ++ us) =
      (waiting os).filter (fun o => ∀ later ∈ us, BindsTighter later o) ++ waiting us := by
  induction os with
  | nil => rfl
  | cons o os ih =>
    rw [List.cons_append, waiting, waiting, ih]
    simp only [List.forall_mem_append]
    by_cases ho : ∀ later ∈ os, BindsTighter later o
    · rw [if_pos ho, List.filter_cons]
      by_cases hu : ∀ later ∈ us, BindsTighter later o
      · rw [if_pos ⟨ho, hu⟩, if_pos (decide_eq_true hu), List.cons_append]
      · rw [if_neg fun h => hu h.2, if_neg (by simpa using hu)]
    · rw [if_neg fun h => ho h.1, if_neg ho]

theorem waiting_append_of_tighter {os us : List (Nat × Token)}
    (h : ∀ o ∈ waiting os, ∀ later ∈ us, BindsTighter later o) :
    waiting (os ++ us) = waiting os ++ waiting us := by
  rw [waiting_append, List.filter_eq_self.mpr fun o ho => decide_eq_true (h o ho)]

theorem waiting_sublist (os : List (Nat × Token)) : (waiting os).Sublist os := by
  induction os with
  | nil => exact .slnil
  | cons o os ih =>
    rw [waiting]
    split
    · exact ih.cons_cons o
    · exact ih.cons o

theorem length_operators_le (after : Bool) (ts : List Token) :
    (operators after ts).length ≤ ts.length := by
  induction ts generalizing after with
  | nil => exact Nat.le_refl 0
  | cons t ts ih =>
    rw [operators]
    split
    · exact Nat.le_succ_of_le (ih true)
    · exact Nat.succ_le_succ (ih false)

/-- Only a long expression can be crowded. -/
theorem uncrowded_of_length_le {w : List Token} (h : w.length ≤ 31) : Uncrowded w := by
  rintro before t after rfl - -
  have hw := (waiting_sublist (operators false before)).length_le
  have ho := length_operators_le false before
  rw [List.length_append, List.length_cons] at h
  omega

namespace Tree

variable {e : Tree} {k : Nat}

theorem operators_append (e : Tree) (ts : List Token) :
    operators false (e.tokens ++ ts) = operators false e.tokens ++ operators true ts := by
  induction e generalizing ts with
  | literal n p => rfl
  | unary op p x ih => exact congrArg ((0, p.token (.punct op.punct)) :: ·) (ih ts)
  | binary op p x y ihx ihy =>
    rw [tokens, List.append_assoc, ihx, ihx, List.append_assoc]
    refine congrArg (operators false x.tokens ++ ·) ?_
    exact congrArg (((Kind.punct op.punct).stratum, p.token (.punct op.punct)) :: ·) (ihy ts)

theorem stratum_le_of_mem_operators (h : e.InStratum k) {o : Nat × Token}
    (ho : o ∈ operators false e.tokens) : o.1 ≤ k := by
  induction h with
  | number n p => cases ho
  | prefixed op p _ ih =>
    rcases List.mem_cons.mp ho with rfl | ho
    · exact Nat.zero_le _
    · exact ih ho
  | looser _ ih => exact Nat.le_succ_of_le (ih ho)
  | @joined op p k x y hk _ _ ihx ihy =>
    rw [tokens, operators_append] at ho
    rcases List.mem_append.mp ho with ho | ho
    · exact ihx ho
    rcases List.mem_cons.mp ho with rfl | ho
    · exact Nat.le_of_eq (op.stratum_punct.trans hk)
    · exact Nat.le_succ_of_le (ihy ho)

theorem trace (e : Tree) : Trace (e.tokens.map Token.kind) true := by
  induction e with
  | literal n p => exact .singleton (.number n)
  | unary op p x ih => exact (Trace.singleton (.unary op)).append ih
  | binary op p x y ihx ihy =>
    rw [tokens, List.map_append, List.map_cons]
    have h := (ihx.snoc (.binary op)).append ihy
    rwa [List.append_assoc] at h

end Tree

namespace Frame

def operator : Frame → Nat × Token
  | .unary op p => (0, p.token (.punct op.punct))
  | .binary op p _ => (op.stratum, p.token (.punct op.punct))

theorem operator_fst (f : Frame) : f.operator.1 = f.stratum := by
  cases f <;> rfl

theorem operators_binary (op : BinaryOp) (p : Site) (x : Tree) :
    operators false (binary op p x).tokens =
      operators false x.tokens ++ [(binary op p x).operator] := by
  rw [tokens, x.operators_append, operator, ← op.stratum_punct]
  rfl

end Frame

namespace Context

variable {c : Context} {k : Nat}

theorem trace (c : Context) : Trace (c.tokens.map Token.kind) false := by
  induction c with
  | nil => exact .nil
  | cons f c ih =>
    rw [tokens, List.map_append]
    refine ih.append ?_
    cases f with
    | unary op p => exact .singleton (.unary op)
    | binary op p x =>
      rw [Frame.tokens, List.map_append]
      exact x.trace.snoc (.binary op)

def read (c : Context) (last? : Option Tree) : List Token := c.tokens ++ last?.elim [] Tree.tokens

theorem trace_read (c : Context) (last? : Option Tree) :
    Trace ((c.read last?).map Token.kind) last?.isSome := by
  cases last? with
  | none =>
    rw [read, Option.elim_none, List.append_nil]
    exact c.trace
  | some t =>
    rw [read, Option.elim_some, List.map_append]
    exact c.trace.append t.trace

theorem endsInNumber_read (c : Context) (last? : Option Tree) :
    endsInNumber (c.read last?) = last?.isSome :=
  (c.trace_read last?).endsInNumber_eq

theorem operators_append (c : Context) (ts : List Token) :
    operators false (c.tokens ++ ts) = operators false c.tokens ++ operators false ts := by
  induction c generalizing ts with
  | nil => rfl
  | cons f c ih =>
    rw [tokens, List.append_assoc, ih, ih, List.append_assoc]
    congr 1
    cases f with
    | unary op p => rfl
    | binary op p x =>
      rw [Frame.tokens, List.append_assoc, x.operators_append, x.operators_append,
        List.append_assoc]
      rfl

theorem stratum_lt_of_awaits (hk : 0 < k) (h : c.Awaits k) {f : Frame} (hf : f ∈ c) :
    k < f.stratum := by
  induction c generalizing k with
  | nil => cases hf
  | cons g c ih =>
    cases g with
    | unary op p => exact absurd h.1 (Nat.ne_of_gt hk)
    | binary op p x =>
      rcases List.mem_cons.mp hf with rfl | hf
      · exact h.1
      · exact Nat.lt_trans h.1 (ih op.stratum_pos h.2.2 hf)

/-- The frames are the operators that wait, from the outside in. -/
theorem waiting_eq (h : c.Awaits k) :
    waiting (operators false c.tokens) = (c.map Frame.operator).reverse := by
  induction c generalizing k with
  | nil => rfl
  | cons f c ih =>
    rw [tokens, operators_append, List.map_cons, List.reverse_cons]
    cases f with
    | unary op p =>
      rw [waiting_append_of_tighter, ih h.2]
      · rfl
      · rintro o - later hl
        rw [List.mem_singleton.mp hl]
        exact .inl rfl
    | binary op p x =>
      have hx := Frame.operators_binary op p x
      have hle : ∀ o ∈ operators false (Frame.binary op p x).tokens, o.1 ≤ op.stratum := by
        rw [hx]
        intro o ho
        rcases List.mem_append.mp ho with ho | ho
        · exact Tree.stratum_le_of_mem_operators h.2.1 ho
        · rw [List.mem_singleton.mp ho]
          exact Nat.le_refl _
      have hw : waiting (operators false (Frame.binary op p x).tokens) =
          [(Frame.binary op p x).operator] := by
        -- The operator of the frame makes all those of its left operand apply.
        rw [hx, waiting_append, List.filter_eq_nil_iff.mpr]
        · rfl
        · intro o ho hs
          have hle := Tree.stratum_le_of_mem_operators h.2.1 ((waiting_sublist _).subset ho)
          have hpos := op.stratum_pos
          have hs := of_decide_eq_true hs _ List.mem_cons_self
          rcases hs with hs | hs
          · exact absurd hs (Nat.ne_of_gt hpos)
          · exact absurd hs (Nat.not_lt.mpr hle)
      rw [waiting_append_of_tighter, ih h.2.2, hw]
      intro o ho later hl
      rw [ih h.2.2, List.mem_reverse] at ho
      obtain ⟨g, hg, rfl⟩ := List.mem_map.mp ho
      have hlt := stratum_lt_of_awaits op.stratum_pos h.2.2 hg
      rw [BindsTighter, g.operator_fst]
      exact .inr (Nat.lt_of_le_of_lt (hle later hl) hlt)

end Context
end StaticAssert
