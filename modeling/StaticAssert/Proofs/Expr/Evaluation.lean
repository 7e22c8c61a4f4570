import StaticAssert.Proofs.Expr.Frames
import StaticAssert.Proofs.Expr.Roles

/-!
# Reading the tokens of a tree

One turn of reading takes frames and the tokens to come to other frames and the rest of
the tokens. Reading the tokens of a tree, whatever frames stand around it, comes to a
state that unwinds as the tree itself does.
-/

set_option autoImplicit false

namespace StaticAssert

open scoped Stream'

namespace Context

variable {flags : ExprFlags} {line : Nat} {l : Lookahead} {c : Context} {t : Tree} {p : Site}

def reading (c : Context) (line : Nat) (last? : Option Tree) (p : Parser) : Reading :=
  ⟨p, c.onStacks line last?, last?.isSome⟩

theorem length_operators (c : Context) (line : Nat) (last? : Option Tree) :
    (c.onStacks line last?).operators.length = c.length + 1 := by
  simp [onStacks]

theorem step_literal {n : NumberLiteral} (hc : c.Awaits 0)
    (h : l.upcoming.head = p.token (.number n)) (s : Sink) :
    (c.reading line none ⟨l, s⟩).step flags =
      .more (c.reading line (some (.literal n p)) ⟨l.advance.2, s⟩) := by
  have hr : Role.ofKind flags false l.upcoming.head.kind = .operand n := by
    rw [h]
    exact Role.ofKind_number flags n
  have hn : ¬ Unsupported.pendingLimit ≤ (c.onStacks line none).operands.length := by
    have := length_operands_le hc
    simp only [Unsupported.pendingLimit, onStacks, Option.map_none, Option.toList_none,
      List.nil_append]
    omega
  rw [reading, Option.isSome_none, Reading.step_of_operand hr, if_neg hn, h]
  rfl

theorem run_literal {n : NumberLiteral} (hc : c.Awaits 0)
    (h : l.upcoming.head = p.token (.number n)) (s : Sink) :
    (c.reading line none ⟨l, s⟩).run flags line =
      (c.reading line (some (.literal n p)) ⟨l.advance.2, s⟩).run flags line := by
  rw [Reading.run_eq, step_literal hc h]

theorem step_unary {op : UnaryOp} (h : l.upcoming.head = p.token (.punct op.punct)) (s : Sink) :
    (c.reading line none ⟨l, s⟩).step flags =
      if c.length < 31 then .more (reading (.unary op p :: c) line none ⟨l.advance.2, s⟩)
      else .failed (.unsupported .operatorOverflow p.line) ⟨l.advance.2, s⟩ := by
  have hr : Role.ofKind flags false l.upcoming.head.kind = .operator (.unary op) := by
    rw [h]
    exact Role.ofKind_unary flags op
  have hn : Unsupported.pendingLimit ≤ (c.onStacks line none).operators.length ↔
      ¬ c.length < 31 := by
    rw [length_operators, Unsupported.pendingLimit]
    omega
  rw [reading, Option.isSome_none, Reading.step_of_operator hr, reduction_unary, h]
  by_cases hc : c.length < 31
  · simp only [if_neg (mt hn.mp (not_not_intro hc)), if_pos hc]
    rfl
  · simp only [if_pos (hn.mpr hc), if_neg hc]
    rfl

theorem run_unary {op : UnaryOp} (hc : c.length < 31)
    (h : l.upcoming.head = p.token (.punct op.punct)) (s : Sink) :
    (c.reading line none ⟨l, s⟩).run flags line =
      (reading (.unary op p :: c) line none ⟨l.advance.2, s⟩).run flags line := by
  rw [Reading.run_eq, step_unary h, if_pos hc]

theorem run_unary_full {op : UnaryOp} (hc : ¬ c.length < 31)
    (h : l.upcoming.head = p.token (.punct op.punct)) (s : Sink) :
    (c.reading line none ⟨l, s⟩).run flags line =
      ⟨.error (.unsupported .operatorOverflow p.line), ⟨l.advance.2, s⟩⟩ := by
  rw [Reading.run_eq, step_unary h, if_neg hc]

theorem exists_step_binary (flags : ExprFlags) (line : Nat) {op : BinaryOp}
    (hc : (unwind op.stratum c t).1.Awaits op.stratum)
    (h : l.upcoming.head = p.token (.punct op.punct)) :
    ∃ new, c.records ++ t.records ++ new =
        (unwind op.stratum c t).1.records ++ (unwind op.stratum c t).2.records ∧
      (∀ s : Sink, new.length ≤ s.free →
        (c.reading line (some t) ⟨l, s⟩).step flags =
          .more (reading (.binary op p (unwind op.stratum c t).2 :: (unwind op.stratum c t).1)
            line none ⟨l.advance.2, s.append new⟩)) ∧
      ∀ s : Sink, s.free < new.length → ∃ q : Parser,
        (c.reading line (some t) ⟨l, s⟩).step flags = .failed (.sinkFull s.capacity) q ∧
          q.sink = s.append (new.take s.free) := by
  have hr : Role.ofKind flags true l.upcoming.head.kind = .operator (.binary op) := by
    rw [h]
    exact Role.ofKind_binary flags op
  have hn : ¬ Unsupported.pendingLimit ≤ ((unwind op.stratum c t).1.onStacks line
      (some (unwind op.stratum c t).2)).operators.length := by
    have := length_le op.stratum_pos hc
    rw [length_operators, Unsupported.pendingLimit]
    omega
  obtain ⟨new, hw, hd⟩ := exists_describes_reduction (Operator.reaches_binary op) line
    l.advance.2 c t
  refine ⟨new, hw, fun s hs => ?_, fun s hs => ?_⟩
  · rw [reading, Option.isSome_some, Reading.step_of_operator hr, hd.room s hs]
    simp only [if_neg hn]
    rw [h]
    rfl
  · obtain ⟨he, hq⟩ := hd.refused s hs
    refine ⟨_, ?_, hq⟩
    rw [reading, Option.isSome_some, Reading.step_of_operator hr]
    generalize (c.onStacks line (some t)).reduction (.binary op) ⟨l.advance.2, s⟩ = o at he
    obtain ⟨result, q⟩ := o
    subst he
    rfl

theorem exists_leads_binary (flags : ExprFlags) (line : Nat) {op : BinaryOp}
    (hc : (unwind op.stratum c t).1.Awaits op.stratum)
    (h : l.upcoming.head = p.token (.punct op.punct)) :
    ∃ new, c.records ++ t.records ++ new =
        (unwind op.stratum c t).1.records ++ (unwind op.stratum c t).2.records ∧
      Transcript.Leads new (fun s => (c.reading line (some t) ⟨l, s⟩).run flags line)
        fun s => (reading (.binary op p (unwind op.stratum c t).2 ::
          (unwind op.stratum c t).1) line none ⟨l.advance.2, s⟩).run flags line := by
  obtain ⟨new, hw, hroom, hfull⟩ := exists_step_binary flags line hc h
  refine ⟨new, hw, ?_, ?_⟩
  · intro s hs
    rw [Reading.run_eq, hroom s hs]
  · intro s hs
    obtain ⟨q, hq, hsink⟩ := hfull s hs
    rw [Reading.run_eq, hq]
    exact ⟨rfl, hsink⟩

theorem exists_describes_end (flags : ExprFlags) (line : Nat) {e : Tree}
    (hu : unwind 6 c t = ([], e)) (h : flags.ends l.upcoming.head.kind = true) :
    ∃ new, c.records ++ t.records ++ new = e.records ∧
      Transcript.Describes ⟨new, .ok e.operand, l.fill⟩
        fun s => (c.reading line (some t) ⟨l, s⟩).run flags line := by
  have hr : Role.ofKind flags true l.upcoming.head.kind = .terminator :=
    Role.ofKind_eq_terminator_iff.mpr h
  obtain ⟨new, hw, hd⟩ := exists_describes_reduction Operator.reaches_collapse line l.fill c t
  rw [hu] at hw hd
  have hv : Reading.verdict flags line l.upcoming.head
      ((onStacks [] line (some e)).pushOperator (.marker .collapse l.upcoming.head.line)) =
      .ok e.operand := by
    have hs : ((onStacks [] line (some e)).pushOperator
        (.marker .collapse l.upcoming.head.line)).result? = some e.operand := rfl
    simp [Reading.verdict, hs, e.operand_immediate]
  refine ⟨new, hw, ?_⟩
  simp only [reading, Option.isSome_some, Reading.run_of_terminator hr]
  have hj := Transcript.describes_andThen_ok (g := fun stack' p =>
    (⟨Reading.verdict flags line l.upcoming.head
      (stack'.pushOperator (.marker .collapse l.upcoming.head.line)), p⟩ : Outcome Operand))
    hd rfl (Transcript.describes_const _ l.fill)
  rwa [hv, List.append_nil] at hj

/-- Reading the tokens of a tree inside any frames that await it comes to a state that unwinds
as the tree does. -/
theorem exists_describes_tree (flags : ExprFlags) (line : Nat) {k : Nat} {e : Tree}
    (he : e.InStratum k) {c : Context} (hc : c.Awaits k) (hs : e.Shallow c.length)
    {l : Lookahead} {rest : Stream' Token} (hl : l.upcoming = e.tokens ++ₛ rest) :
    ∃ l' c' t' new, l'.upcoming = rest ∧
      c'.records ++ t'.records = c.records ++ new ∧
      (∀ m, k ≤ m → unwind m c' t' = unwind m c e) ∧
      ∀ u : Transcript Operand,
        (u.Describes fun s => (c'.reading line (some t') ⟨l', s⟩).run flags line) →
        Transcript.Describes ⟨new ++ u.records, u.result, u.tokens⟩
          fun s => (c.reading line none ⟨l, s⟩).run flags line := by
  induction he generalizing c l rest with
  | number n p =>
    have hh : l.upcoming.head = p.token (.number n) := by rw [hl]; rfl
    refine ⟨l.advance.2, c, .literal n p, [], ?_, rfl, fun _ _ => rfl, ?_⟩
    · rw [Lookahead.upcoming_advance, hl]
      rfl
    · intro u hu
      simp only [run_literal hc hh]
      exact hu
  | @prefixed op p x _ ih =>
    have hh : l.upcoming.head = p.token (.punct op.punct) := by rw [hl]; rfl
    have hx : l.advance.2.upcoming = x.tokens ++ₛ rest := by
      rw [Lookahead.upcoming_advance, hl]
      rfl
    obtain ⟨l', c', t', new, hr, hn, hu, hd⟩ :=
      ih (c := .unary op p :: c) ⟨rfl, hc⟩ hs.2 hx
    refine ⟨l', c', t', new, hr, ?_, fun m _ => hu m (Nat.zero_le m), ?_⟩
    · rw [hn, records, Frame.records, List.append_nil]
    · intro u hv
      simp only [run_unary hs.1 hh]
      exact hd u hv
  | looser _ ih =>
    obtain ⟨l', c', t', new, hr, hn, hu, hd⟩ := ih (hc.mono (Nat.le_succ _)) hs hl
    exact ⟨l', c', t', new, hr, hn, fun m hm => hu m (Nat.le_of_succ_le hm), hd⟩
  | @joined op p k x y hk hx _ ihx ihy =>
    rw [Tree.tokens, Stream'.append_append_stream] at hl
    obtain ⟨l₁, c₁, t₁, new₁, hr₁, hn₁, hu₁, hd₁⟩ := ihx hc hs.1 hl
    -- The operator finds the left operand unwound, whatever state reading it came to.
    have hw : unwind op.stratum c₁ t₁ = (c, x) := by
      rw [hk, hu₁ _ (Nat.le_refl _), unwind_of_awaits (Nat.succ_pos k) hc]
    have hh : l₁.upcoming.head = p.token (.punct op.punct) := by rw [hr₁]; rfl
    obtain ⟨new₂, hn₂, hd₂⟩ :=
      exists_leads_binary flags line (by rw [hw, hk]; exact hc) hh
    rw [hw] at hn₂ hd₂
    have hy : l₁.advance.2.upcoming = y.tokens ++ₛ rest := by
      rw [Lookahead.upcoming_advance, hr₁]
      rfl
    have hcy : Awaits (.binary op p x :: c) k := by
      refine ⟨?_, ?_, ?_⟩
      · omega
      · rwa [hk]
      · rwa [hk]
    obtain ⟨l', c', t', new₃, hr₃, hn₃, hu₃, hd₃⟩ := ihy hcy hs.2 hy
    refine ⟨l', c', t', new₁ ++ (new₂ ++ new₃), hr₃, ?_, ?_, ?_⟩
    · rw [hn₃, records, Frame.records, ← hn₂, hn₁]
      simp only [List.append_assoc]
    · intro m hm
      rw [hu₃ m (Nat.le_of_succ_le hm), unwind]
      exact if_pos (show op.stratum ≤ m by omega)
    · intro u hv
      have hd := hd₁ _ (hd₂.describes (hd₃ u hv))
      simpa only [List.append_assoc] using hd

end Context
end StaticAssert
