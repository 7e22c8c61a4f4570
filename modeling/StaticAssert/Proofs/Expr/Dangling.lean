import StaticAssert.Proofs.Expr.Nodes

/-!
# Operators that lack an operand

Where an expression breaks off after an operator, all that waits is applied although the
innermost frame is not filled. Each operator then takes the operand that is on top, which is
the left operand of a frame further out, so the span of what it computes begins with that
operand and runs over the operator of that frame. An operator binds tighter than those of
the frames around it, so no tree that it is the root of stands there, and no overflow that is
recorded stems from the source.
-/

set_option autoImplicit false

namespace StaticAssert

namespace Stems

/-- An overflow of a waiting operator that stems from the source is that of a node of its
stratum. -/
theorem exists_node {upcoming : Stream' Token} {f : Frame} {line : Nat} {span : Span}
    (h : Stems upcoming (.signedOverflow f.pending.operator.operation.code line span)) :
    ∃ e : Tree, Stands upcoming f.stratum e ∧ e.span = span := by
  generalize hd : Diagnostic.signedOverflow _ line span = d at h
  cases h with
  | @unary op p x stands =>
    have hk : f.stratum = 0 := by
      cases f with
      | unary o p => rfl
      | binary o p x => cases o <;> cases op <;> cases hd
    rw [hk]
    exact ⟨_, stands, (congrArg Diagnostic.span hd).symm⟩
  | @binary op p x y stands =>
    have hk : f.stratum = op.stratum := by
      cases f with
      | unary o p => cases o <;> cases op <;> cases hd
      | binary o p x =>
        cases o <;> cases op <;> first | rfl | cases hd
    rw [hk]
    exact ⟨_, stands, (congrArg Diagnostic.span hd).symm⟩

end Stems

namespace Frame

theorem kind_ne_eof {f : Frame} {t : Token} (ht : t ∈ f.tokens) : t.kind ≠ .eof := by
  cases f with
  | unary op p =>
    rw [List.mem_singleton.mp ht]
    nofun
  | binary op p x =>
    rcases List.mem_append.mp ht with ht | ht
    · exact Tree.kind_ne_eof ht
    · rw [List.mem_singleton.mp ht]
      nofun

theorem yieldsTo_collapse (f : Frame) : f.pending.operator.yieldsTo .collapse = true := by
  rw [Operator.reaches_collapse.frame, decide_eq_true f.stratum_le]

end Frame

namespace Tree

open scoped Stream'

variable {upcoming rest rest' : Stream' Token} {before before' : List Token} {e x : Tree}
variable {op : BinaryOp} {p : Site}

theorem mem_joints_of_start (ho : Token.Ordered upcoming)
    (he : upcoming = before' ++ₛ (e.tokens ++ₛ rest'))
    (hx : upcoming = before ++ₛ ((Frame.binary op p x).tokens ++ₛ rest))
    (hs : e.span.start = x.span.start) (hp : p.span.stop ≤ e.span.stop) :
    p.token (.punct op.punct) ∈ joints false e.tokens := by
  set joint := p.token (.punct op.punct) with hj
  have hf : (Frame.binary op p x).tokens = x.tokens ++ [joint] := rfl
  have hie : Token.InOrder e.tokens := by
    rw [he] at ho
    exact ho.drop.inOrder fun _ => kind_ne_eof
  have hi : Token.InOrder (x.tokens ++ [joint]) := by
    rw [hx] at ho
    exact ho.drop.inOrder fun _ => Frame.kind_ne_eof
  -- Both begin with the same token, so they are stretches of the same tokens.
  have heq : e.tokens ++ₛ rest' = (x.tokens ++ [joint]) ++ₛ rest := by
    obtain ⟨t, ts, ht, hts⟩ := e.exists_head hie
    obtain ⟨u, us, hu, hus⟩ := x.exists_head (hi.sublist (List.sublist_append_left _ _))
    rw [hf, hu] at hx
    rw [ht] at he
    rw [ht, hu]
    refine Token.Ordered.eq_of_start (he ▸ ho) (he.symm.trans hx) ?_ ?_ ?_
    · exact kind_ne_eof (ht ▸ List.mem_cons_self)
    · exact kind_ne_eof (hu ▸ List.mem_cons_self)
    · rw [hts, hs, hus]
  have hpre : x.tokens ++ [joint] <+: e.tokens := by
    rcases Token.prefix_or_prefix heq with hw | hw
    · rcases List.prefix_concat_iff.mp hw with hw | hw
      · exact hw ▸ List.prefix_refl _
      · obtain ⟨t, ht, hts⟩ := e.exists_stop
        have hb : t.span.stop ≤ p.span.start :=
          (List.pairwise_append.mp hi.behind).2.2 t (hw.subset ht) joint List.mem_cons_self
        have hn : p.span.start < p.span.stop :=
          hi.nonempty joint (List.mem_append_right _ List.mem_cons_self)
        omega
    · exact hw
  obtain ⟨ys, hy⟩ := hpre
  rw [← hy, List.append_assoc, joints_append]
  exact List.mem_append_right _ List.mem_cons_self

end Tree

namespace Context

variable {c : Context} {k : Nat} {op : BinaryOp} {p : Site} {x : Tree}

theorem kind_ne_eof {t : Token} (ht : t ∈ c.tokens) : t.kind ≠ .eof := by
  induction c with
  | nil => cases ht
  | cons f c ih =>
    rcases List.mem_append.mp ht with ht | ht
    · exact ih ht
    · exact Frame.kind_ne_eof ht

def left? : Context → Option (BinaryOp × Site × Tree)
  | [] => none
  | .unary _ _ :: c => left? c
  | .binary op p x :: _ => some (op, p, x)

theorem head?_operands (c : Context) :
    (c.flatMap Frame.operands).head? = c.left?.map fun found => found.2.2.operand := by
  induction c with
  | nil => rfl
  | cons f c ih =>
    cases f with
    | unary op p => exact ih
    | binary op p x => rfl

theorem stratum_lt_of_left? (hc : c.Awaits k) (h : c.left? = some (op, p, x)) :
    k < op.stratum := by
  induction c generalizing k with
  | nil => cases h
  | cons f c ih =>
    cases f with
    | unary o q => exact hc.1 ▸ ih hc.2 h
    | binary o q y =>
      cases h
      exact hc.1

theorem tokens_of_left? (h : c.left? = some (op, p, x)) :
    ∃ before after, c.tokens = before ++ ((Frame.binary op p x).tokens ++ after) := by
  induction c with
  | nil => cases h
  | cons f c ih =>
    cases f with
    | unary o q =>
      obtain ⟨before, after, ht⟩ := ih h
      refine ⟨before, after ++ (Frame.unary o q).tokens, ?_⟩
      rw [tokens, ht]
      simp only [List.append_assoc]
    | binary o q y =>
      cases h
      exact ⟨tokens c, [], by rw [tokens, List.append_nil]⟩

theorem sublist_of_left? (h : c.left? = some (op, p, x)) :
    (Frame.binary op p x).tokens.Sublist c.tokens := by
  obtain ⟨before, after, hc⟩ := tokens_of_left? h
  rw [hc]
  exact (List.sublist_append_left _ after).trans (List.sublist_append_right before _)

theorem left_before {f : Frame} (h : Token.InOrder (tokens (f :: c)))
    (hl : c.left? = some (op, p, x)) :
    x.span.start ≤ p.span.stop ∧ ∀ t ∈ f.tokens, p.span.stop ≤ t.span.start := by
  have hsub := sublist_of_left? hl
  have hf : Token.InOrder (Frame.binary op p x).tokens :=
    h.sublist (hsub.trans (List.sublist_append_left _ _))
  have hp : p.token (.punct op.punct) ∈ (Frame.binary op p x).tokens :=
    List.mem_append_right _ List.mem_cons_self
  constructor
  · obtain ⟨t, ht, hts⟩ := x.exists_start
    have htn : t.span.start < t.span.stop := hf.nonempty t (List.mem_append_left _ ht)
    have hpn : p.span.start < p.span.stop := hf.nonempty _ hp
    have hb : t.span.stop ≤ p.span.start :=
      (List.pairwise_append.mp hf.behind).2.2 t ht _ List.mem_cons_self
    omega
  · exact (List.pairwise_append.mp h.behind).2.2 _ (hsub.subset hp)

theorem span_of_unary {o : UnaryOp} {q : Site} (h : Token.InOrder (tokens (.unary o q :: c)))
    (hl : c.left? = some (op, p, x)) {s : Span} (hs : s.start = x.span.start) :
    (q.span.merge s).start = x.span.start ∧ p.span.stop ≤ (q.span.merge s).stop := by
  obtain ⟨hxp, hb⟩ := left_before h hl
  have hq : p.span.stop ≤ q.span.start := hb _ List.mem_cons_self
  have hn : q.span.start < q.span.stop :=
    h.nonempty (q.token (.punct o.punct)) (List.mem_append_right _ List.mem_cons_self)
  constructor
  · refine (Nat.min_eq_right ?_).trans hs
    omega
  · refine Nat.le_trans ?_ (Nat.le_max_left _ _)
    omega

theorem span_of_binary {o : BinaryOp} {q : Site} {z : Tree}
    (h : Token.InOrder (tokens (.binary o q z :: c))) (hl : c.left? = some (op, p, x)) {s : Span}
    (hs : s.start = z.span.start) (hz : z.span.start ≤ s.stop) :
    (x.span.merge s).start = x.span.start ∧ p.span.stop ≤ (x.span.merge s).stop := by
  obtain ⟨hxp, hb⟩ := left_before h hl
  have hpz : p.span.stop ≤ z.span.start := by
    obtain ⟨t, ht, hts⟩ := z.exists_start
    rw [← hts]
    exact hb t (List.mem_append_left _ ht)
  constructor
  · refine Nat.min_eq_left ?_
    omega
  · refine Nat.le_trans ?_ (Nat.le_max_right _ _)
    omega

open scoped Stream'

variable {upcoming rest : Stream' Token}

/-- What begins with the left operand of a frame and runs over its operator is no node of an
operator that waits inside the frame. -/
theorem not_stems (ho : Token.Ordered upcoming) (hu : upcoming = c.tokens ++ₛ rest) {f : Frame}
    (hc : c.Awaits f.stratum) (hl : c.left? = some (op, p, x)) {line : Nat} {span : Span}
    (hs : span.start = x.span.start) (hp : p.span.stop ≤ span.stop) :
    ¬ Stems upcoming (.signedOverflow f.pending.operator.operation.code line span) := by
  intro h
  obtain ⟨e, ⟨hg, c', rest', -, hu', -⟩, rfl⟩ := h.exists_node
  obtain ⟨before, after, hb⟩ := tokens_of_left? hl
  rw [hb, Stream'.append_append_stream, Stream'.append_append_stream] at hu
  have hm := Tree.mem_joints_of_start ho hu' hu hs hp
  have hle : op.stratum ≤ f.stratum := Tree.stratum_le_of_mem_joints hg hm rfl
  exact absurd (stratum_lt_of_left? hc hl) (Nat.not_lt.mpr hle)

end Context

/-- An overflow that stems from no node of the source. -/
def Borrowed (upcoming : Stream' Token) (d : Diagnostic) : Prop :=
  d.issue = .signedOverflow ∧ ¬ Stems upcoming d

def Stacks.Borrows (upcoming : Stream' Token) (l : Lookahead) (s : Stacks) : Prop :=
  ∃ new result, (∀ d ∈ new, Borrowed upcoming d) ∧
    Transcript.Describes ⟨new, result, l⟩ fun sink => s.reduction .collapse ⟨l, sink⟩

namespace Stacks

variable {upcoming : Stream' Token} {l : Lookahead} {f : Frame} {xs ys : List Operand}
variable {below : List Pending}

theorem borrows_of_unfoldable (h : f.pending.fold? xs = none) :
    Borrows upcoming l ⟨xs, f.pending :: below⟩ := by
  refine ⟨[], .error (.malformed xs.length below.length f.pending.line), ?_, ?_⟩
  · intro d hm
    cases hm
  · simp only [reduction_of_unfoldable f.yieldsTo_collapse h]
    exact Transcript.describes_const _ l

theorem borrows_of_fold? {folded : Folded} (h : f.pending.fold? xs = some (folded, ys))
    (hn : ¬ Stems upcoming (.signedOverflow f.pending.operator.operation.code f.pending.line
      folded.operand.span))
    (hb : Borrows upcoming l ⟨folded.operand :: ys, below⟩) :
    Borrows upcoming l ⟨xs, f.pending :: below⟩ := by
  obtain ⟨new, result, hnew, hd⟩ := hb
  refine ⟨f.pending.records folded ++ new, result, ?_, ?_⟩
  · intro d hm
    rcases List.mem_append.mp hm with hm | hm
    · unfold Pending.records at hm
      split at hm
      · rw [List.mem_singleton.mp hm]
        exact ⟨rfl, hn⟩
      · cases hm
    · exact hnew d hm
  · simp only [reduction_of_yields f.yieldsTo_collapse h]
    exact Transcript.describes_andThen_ok (u := ⟨new, result, l⟩)
      (f.pending.describes_recording folded l) rfl hd

end Stacks

namespace Context

variable {upcoming rest : Stream' Token} {c : Context} {k : Nat}
variable {op : BinaryOp} {p : Site} {x : Tree}

/-- An operator that lacks its operand takes the one on top of the stack. What it computes
begins with the left operand of a frame, and so does all that is computed from it. -/
theorem borrows_of_left? (ho : Token.Ordered upcoming) (hu : upcoming = c.tokens ++ₛ rest)
    (hc : c.Awaits k) (hl : c.left? = some (op, p, x)) {y : Operand}
    (hs : y.span.start = x.span.start) (hy : x.span.start ≤ y.span.stop) (l : Lookahead)
    (line : Nat) :
    Stacks.Borrows upcoming l ⟨y :: (c.flatMap Frame.operands).tail,
      c.map Frame.pending ++ [.marker .bottom line]⟩ := by
  induction c generalizing k rest op p x y with
  | nil => cases hl
  | cons f c ih =>
    have hi : Token.InOrder (tokens (f :: c)) := (hu ▸ ho).inOrder fun _ => kind_ne_eof
    have hu' : upcoming = tokens c ++ₛ (f.tokens ++ₛ rest) := by
      rw [hu, tokens, Stream'.append_append_stream]
    cases f with
    | unary o q =>
      obtain ⟨hstart, hstop⟩ := span_of_unary hi hl hs
      have hfold : (Frame.unary o q).pending.fold?
          (y :: ((.unary o q :: c).flatMap Frame.operands).tail) =
          some (.unary o y q.span, (c.flatMap Frame.operands).tail) := rfl
      refine Stacks.borrows_of_fold? hfold
        (not_stems (f := .unary o q) ho hu' hc.2 hl hstart hstop) ?_
      exact ih hu' hc.2 hl hstart (Nat.le_trans (left_before hi hl).1 hstop)
    | binary o q z =>
      cases hl
      have hhead := head?_operands c
      cases hl : left? c with
      | none =>
        rw [hl, Option.map_none, List.head?_eq_none_iff] at hhead
        refine Stacks.borrows_of_unfoldable (f := .binary op p x) ?_
        rw [List.flatMap_cons, hhead]
        rfl
      | some found =>
        obtain ⟨op', p', x'⟩ := found
        rw [hl, Option.map_some] at hhead
        obtain ⟨tail, htail⟩ := List.head?_eq_some_iff.mp hhead
        obtain ⟨hstart, hstop⟩ := span_of_binary hi hl hs hy
        have hspan : x'.operand.span.merge y.span = x'.span.merge y.span := by
          rw [x'.operand_span]
        rw [← hspan] at hstart hstop
        have hfold : (Frame.binary op p x).pending.fold?
            (y :: ((.binary op p x :: c).flatMap Frame.operands).tail) =
            some (.binary op x'.operand y, (c.flatMap Frame.operands).tail) := by
          rw [List.flatMap_cons, htail]
          rfl
        refine Stacks.borrows_of_fold? hfold
          (not_stems (f := .binary op p x) ho hu' hc.2.2 hl hstart hstop) ?_
        exact ih hu' hc.2.2 hl hstart (Nat.le_trans (left_before hi hl).1 hstop)

theorem borrows_onStacks {f : Frame} (ho : Token.Ordered upcoming)
    (hu : upcoming = tokens (f :: c) ++ₛ rest) (hc : Awaits (f :: c) k) (l : Lookahead)
    (line : Nat) : Stacks.Borrows upcoming l (onStacks (f :: c) line none) := by
  have hhead := head?_operands (f :: c)
  cases hl : left? (f :: c) with
  | none =>
    rw [hl, Option.map_none, List.head?_eq_none_iff] at hhead
    refine Stacks.borrows_of_unfoldable (f := f) ?_
    rw [hhead]
    cases f with
    | unary o q => rfl
    | binary o q z => cases hl
  | some found =>
    obtain ⟨op, p, x⟩ := found
    rw [hl, Option.map_some] at hhead
    obtain ⟨tail, htail⟩ := List.head?_eq_some_iff.mp hhead
    have hx : x.span.start ≤ x.operand.span.stop := by
      have hi : Token.InOrder (tokens (f :: c)) := (hu ▸ ho).inOrder fun _ => kind_ne_eof
      have hs := (List.sublist_append_left _ _).trans (sublist_of_left? hl)
      rw [x.operand_span]
      exact Tree.start_le_stop (hi.sublist hs)
    have h := borrows_of_left? ho hu hc hl (congrArg Span.start x.operand_span) hx l line
    rw [htail] at h
    rw [onStacks, htail]
    exact h

end Context
end StaticAssert
