import StaticAssert.Proofs.Expr.Frames
import StaticAssert.Proofs.Token.Order

/-!
# Nodes where they stand

A tree stands in the tokens to come if frames that wait for it come before it, and behind
it no operator that would take a part of it. An overflow stems from the source if it is
that of a node that stands there: the operator lies under the span of the record, and its
operands are written on the sides where it takes them. All that is recorded for a tree
that stands in the source stems from it.
-/

set_option autoImplicit false

namespace StaticAssert

def Span.Covers (s t : Span) : Prop := s.start ≤ t.start ∧ t.stop ≤ s.stop

theorem BinaryOp.punct_inj {op op' : BinaryOp} (h : op.punct = op'.punct) : op = op' := by
  cases op <;> cases op' <;> first | rfl | cases h

namespace Tree

variable {e x : Tree} {k : Nat} {op : BinaryOp} {t : Token}

theorem kind_of_mem_tokens (ht : t ∈ e.tokens) :
    (∃ n, t.kind = .number n) ∨ ∃ p, t.kind = .punct p := by
  induction e with
  | literal n p =>
    rw [List.mem_singleton.mp ht]
    exact .inl ⟨n, rfl⟩
  | unary op p x ih =>
    rcases List.mem_cons.mp ht with rfl | ht
    · exact .inr ⟨_, rfl⟩
    · exact ih ht
  | binary op p x y ihx ihy =>
    rcases List.mem_append.mp ht with ht | ht
    · exact ihx ht
    rcases List.mem_cons.mp ht with rfl | ht
    · exact .inr ⟨_, rfl⟩
    · exact ihy ht

theorem kind_ne_eof (ht : t ∈ e.tokens) : t.kind ≠ .eof := by
  rcases kind_of_mem_tokens ht with ⟨n, hk⟩ | ⟨p, hk⟩ <;> rw [hk] <;> nofun

theorem exists_start (e : Tree) : ∃ t ∈ e.tokens, t.span.start = e.span.start := by
  induction e with
  | literal n p => exact ⟨_, List.mem_cons_self, rfl⟩
  | unary op p x ih =>
    obtain ⟨t, ht, hs⟩ := ih
    rcases Nat.le_total p.span.start x.span.start with h | h
    · exact ⟨_, List.mem_cons_self, (Nat.min_eq_left h).symm⟩
    · exact ⟨t, List.mem_cons_of_mem _ ht, hs.trans (Nat.min_eq_right h).symm⟩
  | binary op p x y ihx ihy =>
    obtain ⟨t, ht, hs⟩ := ihx
    obtain ⟨u, hu, hs'⟩ := ihy
    rcases Nat.le_total x.span.start y.span.start with h | h
    · exact ⟨t, List.mem_append_left _ ht, hs.trans (Nat.min_eq_left h).symm⟩
    · exact ⟨u, List.mem_append_right _ (List.mem_cons_of_mem _ hu),
        hs'.trans (Nat.min_eq_right h).symm⟩

theorem exists_stop (e : Tree) : ∃ t ∈ e.tokens, t.span.stop = e.span.stop := by
  induction e with
  | literal n p => exact ⟨_, List.mem_cons_self, rfl⟩
  | unary op p x ih =>
    obtain ⟨t, ht, hs⟩ := ih
    rcases Nat.le_total p.span.stop x.span.stop with h | h
    · exact ⟨t, List.mem_cons_of_mem _ ht, hs.trans (Nat.max_eq_right h).symm⟩
    · exact ⟨_, List.mem_cons_self, (Nat.max_eq_left h).symm⟩
  | binary op p x y ihx ihy =>
    obtain ⟨t, ht, hs⟩ := ihx
    obtain ⟨u, hu, hs'⟩ := ihy
    rcases Nat.le_total x.span.stop y.span.stop with h | h
    · exact ⟨u, List.mem_append_right _ (List.mem_cons_of_mem _ hu),
        hs'.trans (Nat.max_eq_right h).symm⟩
    · exact ⟨t, List.mem_append_left _ ht, hs.trans (Nat.max_eq_left h).symm⟩

theorem exists_head (e : Tree) (h : Token.InOrder e.tokens) :
    ∃ (t : Token) (ts : List Token), e.tokens = t :: ts ∧ t.span.start = e.span.start := by
  have first (e : Tree) :
      ∃ (t : Token) (ts : List Token), e.tokens = t :: ts ∧ e.span.start ≤ t.span.start := by
    induction e with
    | literal n p => exact ⟨_, _, rfl, Nat.le_refl _⟩
    | unary op p x ih => exact ⟨_, _, rfl, Nat.min_le_left _ _⟩
    | binary op p x y ihx ihy =>
      obtain ⟨t, ts, ht, hs⟩ := ihx
      refine ⟨t, _, by rw [tokens, ht, List.cons_append], ?_⟩
      exact Nat.le_trans (Nat.min_le_left _ _) hs
  obtain ⟨t, ts, ht, hs⟩ := first e
  obtain ⟨u, hu, hs'⟩ := e.exists_start
  refine ⟨t, ts, ht, ?_⟩
  rw [ht] at h hu
  rcases List.mem_cons.mp hu with rfl | hu
  · exact hs'
  · have hb := (List.pairwise_cons.mp h.behind).1 u hu
    have hn := h.nonempty t List.mem_cons_self
    omega

theorem start_le_stop (h : Token.InOrder e.tokens) : e.span.start ≤ e.span.stop := by
  obtain ⟨t, ts, ht, hts⟩ := e.exists_head h
  obtain ⟨u, hu, hus⟩ := e.exists_stop
  rw [ht] at h hu
  have hn := h.nonempty u hu
  rcases List.mem_cons.mp hu with rfl | hu
  · omega
  · have hb := (List.pairwise_cons.mp h.behind).1 u hu
    have htn := h.nonempty t List.mem_cons_self
    omega

def joints (after : Bool) : List Token → List Token
  -- The tokens that come at once behind a number, where `after` says if the first one does.
  | [] => []
  | t :: ts => (if after then [t] else []) ++ joints t.number?.isSome ts

theorem joints_append (e : Tree) (ts : List Token) :
    joints false (e.tokens ++ ts) = joints false e.tokens ++ joints true ts := by
  induction e generalizing ts with
  | literal n p => rfl
  | unary op p x ih => exact ih ts
  | binary op p x y ihx ihy =>
    rw [tokens, List.append_assoc, ihx, ihx, List.append_assoc]
    refine congrArg (joints false x.tokens ++ ·) ?_
    exact congrArg (p.token (.punct op.punct) :: ·) (ihy ts)

/-- What joins the operands of a tree belongs to the strata that the tree does. -/
theorem stratum_le_of_mem_joints (h : e.InStratum k) (ht : t ∈ joints false e.tokens)
    (hk : t.kind = .punct op.punct) : op.stratum ≤ k := by
  induction h with
  | number n p => cases ht
  | prefixed _ _ _ ih => exact ih ht
  | looser _ ih => exact Nat.le_succ_of_le (ih ht)
  | @joined o p k x y ho _ _ ihx ihy =>
    rw [tokens, joints_append] at ht
    rcases List.mem_append.mp ht with ht | ht
    · exact ihx ht
    rcases List.mem_cons.mp ht with rfl | ht
    · obtain rfl := BinaryOp.punct_inj (Kind.punct.inj hk)
      exact Nat.le_of_eq ho
    · exact Nat.le_succ_of_le (ihy ht)

end Tree

open scoped Stream'

structure Stands (upcoming : Stream' Token) (k : Nat) (e : Tree) : Prop where
  grammar : e.InStratum k
  placed : ∃ (c : Context) (rest : Stream' Token), c.Awaits k ∧
    upcoming = c.tokens ++ₛ (e.tokens ++ₛ rest) ∧
    ∀ op : BinaryOp, rest.head.kind = .punct op.punct → k ≤ op.stratum

inductive Stems (upcoming : Stream' Token) : Diagnostic → Prop where
  -- The record is that of a node of the source, which overflows with the operands that are
  -- written for it.
  | unary {op : UnaryOp} {p : Site} {x : Tree} (stands : Stands upcoming 0 (.unary op p x))
      (covers : (p.span.merge x.span).Covers p.span) (right : p.span.stop ≤ x.span.start)
      (signed : x.isUnsigned = false) (overflows : ¬ InRange (op.denote id x.value)) :
      Stems upcoming (.signedOverflow op.code p.line (p.span.merge x.span))
  | binary {op : BinaryOp} {p : Site} {x y : Tree}
      (stands : Stands upcoming op.stratum (.binary op p x y))
      (covers : (x.span.merge y.span).Covers p.span)
      (left : x.span.stop ≤ p.span.start) (right : p.span.stop ≤ y.span.start)
      (signed : (x.isUnsigned || y.isUnsigned) = false)
      (overflows : ¬ InRange (op.denote id x.value y.value)) :
      Stems upcoming (.signedOverflow op.code p.line (x.span.merge y.span))

namespace Stems

variable {upcoming rest : Stream' Token} {op : UnaryOp} {p : Site} {x y : Tree} {d : Diagnostic}

theorem of_mem_overflow {code : UInt8} {line : Nat} {span : Span} {unsigned : Bool} {n : Int}
    (h : d ∈ Tree.overflow code line span unsigned n) :
    d = .signedOverflow code line span ∧ unsigned = false ∧ ¬ InRange n := by
  unfold Tree.overflow at h
  split at h
  · cases h
  next hn =>
    rw [not_or, Bool.not_eq_true] at hn
    exact ⟨List.mem_singleton.mp h, hn.2, hn.1⟩

theorem of_unary (hs : Stands upcoming 0 (.unary op p x))
    (ho : Token.InOrder (Tree.unary op p x).tokens)
    (h : d ∈ Tree.overflow op.code p.line (Tree.unary op p x).span x.isUnsigned
      (op.denote id x.value)) : Stems upcoming d := by
  obtain ⟨rfl, hu, hn⟩ := of_mem_overflow h
  refine .unary hs ⟨Nat.min_le_left _ _, Nat.le_max_left _ _⟩ ?_ hu hn
  obtain ⟨t, ht, hx⟩ := x.exists_start
  rw [← hx]
  exact (List.pairwise_cons.mp ho.behind).1 t ht

theorem of_binary {op : BinaryOp} (hs : Stands upcoming op.stratum (.binary op p x y))
    (ho : Token.InOrder (Tree.binary op p x y).tokens)
    (h : d ∈ Tree.overflow op.code p.line (Tree.binary op p x y).span
      (x.isUnsigned || y.isUnsigned) (op.denote id x.value y.value)) : Stems upcoming d := by
  obtain ⟨rfl, hu, hn⟩ := of_mem_overflow h
  obtain ⟨-, hr, hl⟩ := List.pairwise_append.mp ho.behind
  obtain ⟨a, ha, hxs⟩ := x.exists_start
  obtain ⟨b, hb, hxe⟩ := x.exists_stop
  obtain ⟨c, hc, hys⟩ := y.exists_start
  obtain ⟨e, he, hye⟩ := y.exists_stop
  have hleft : x.span.stop ≤ p.span.start := hxe ▸ hl b hb _ List.mem_cons_self
  have hright : p.span.stop ≤ y.span.start := hys ▸ (List.pairwise_cons.mp hr).1 c hc
  refine .binary hs ⟨?_, ?_⟩ hleft hright hu hn
  · have hap : a.span.stop ≤ p.span.start := hl a ha _ List.mem_cons_self
    have han := ho.nonempty a (List.mem_append_left _ ha)
    refine Nat.le_trans (Nat.min_le_left _ _) ?_
    omega
  · have hpe : p.span.stop ≤ e.span.start := (List.pairwise_cons.mp hr).1 e he
    have hen := ho.nonempty e (List.mem_append_right _ (List.mem_cons_of_mem _ he))
    refine Nat.le_trans ?_ (Nat.le_max_right _ _)
    omega

end Stems

namespace Tree

variable {upcoming rest : Stream' Token} {e : Tree} {k : Nat} {c : Context} {d : Diagnostic}

theorem stems_of_mem_records (ho : Token.Ordered upcoming) (he : e.InStratum k)
    (hc : c.Awaits k) (hu : upcoming = c.tokens ++ₛ (e.tokens ++ₛ rest))
    (hr : ∀ op : BinaryOp, rest.head.kind = .punct op.punct → k ≤ op.stratum)
    (hd : d ∈ e.records) : Stems upcoming d := by
  have inOrder {e : Tree} {c : Context} {rest : Stream' Token}
      (hu : upcoming = c.tokens ++ₛ (e.tokens ++ₛ rest)) : Token.InOrder e.tokens := by
    rw [hu] at ho
    exact ho.drop.inOrder fun t => kind_ne_eof
  induction he generalizing c rest with
  | number n p => cases hd
  | @prefixed op p x hx ih =>
    rcases List.mem_append.mp hd with hd | hd
    · have hu' : upcoming = Context.tokens (.unary op p :: c) ++ₛ (x.tokens ++ₛ rest) := by
        rw [hu, Context.tokens, Stream'.append_append_stream]
        rfl
      have hc' : Context.Awaits (.unary op p :: c) 0 := ⟨rfl, hc⟩
      exact ih hc' hu' hr hd
    · exact .of_unary ⟨.prefixed op p hx, c, rest, hc, hu, hr⟩ (inOrder hu) hd
  | looser hx ih =>
    exact ih (hc.mono (Nat.le_succ _)) hu (fun op h => Nat.le_of_succ_le (hr op h)) hd
  | @joined op p k x y hk hx hy ihx ihy =>
    rcases List.mem_append.mp hd with hd | hd
    · have hu' : upcoming = c.tokens ++ₛ
          (x.tokens ++ₛ (p.token (.punct op.punct) :: (y.tokens ++ₛ rest))) := by
        rw [hu, tokens, Stream'.append_append_stream]
        rfl
      refine ihx hc hu' ?_ hd
      intro o ho
      obtain rfl := BinaryOp.punct_inj (Kind.punct.inj ho)
      exact Nat.le_of_eq hk.symm
    rcases List.mem_append.mp hd with hd | hd
    · have hu' : upcoming = Context.tokens (.binary op p x :: c) ++ₛ (y.tokens ++ₛ rest) := by
        rw [hu, Context.tokens, Frame.tokens, tokens]
        simp only [Stream'.append_append_stream, Stream'.cons_append_stream,
          Stream'.nil_append_stream]
      have hc' : Context.Awaits (.binary op p x :: c) k :=
        ⟨by omega, by rwa [hk], by rwa [hk]⟩
      exact ihy hc' hu' (fun o h => Nat.le_of_succ_le (hr o h)) hd
    · have hs : Stands upcoming op.stratum (.binary op p x y) := by
        rw [hk]
        exact ⟨.joined op p hk hx hy, c, rest, hc, hu, hr⟩
      exact .of_binary hs (inOrder hu) hd

end Tree

namespace Context

variable {upcoming rest : Stream' Token} {c : Context} {k : Nat} {d : Diagnostic}

theorem stems_of_mem_records (ho : Token.Ordered upcoming) (hc : c.Awaits k)
    (hu : upcoming = c.tokens ++ₛ rest) (hd : d ∈ c.records) : Stems upcoming d := by
  induction c generalizing k rest with
  | nil => cases hd
  | cons f c ih =>
    cases f with
    | unary op p =>
      rw [tokens, Stream'.append_append_stream] at hu
      rw [records, Frame.records, List.append_nil] at hd
      exact ih hc.2 hu hd
    | binary op p x =>
      rw [tokens, Frame.tokens, Stream'.append_append_stream, Stream'.append_append_stream] at hu
      rcases List.mem_append.mp hd with hd | hd
      · exact ih hc.2.2 hu hd
      · refine Tree.stems_of_mem_records ho hc.2.1 hc.2.2 hu ?_ hd
        intro o h
        obtain rfl := BinaryOp.punct_inj (Kind.punct.inj h)
        exact Nat.le_refl _

end Context
end StaticAssert
