import StaticAssert.Proofs.Expr.Acceptance
import StaticAssert.Proofs.Expr.Dangling

/-!
# Where the overflows of a run come from

As long as every operator finds its operands, a run records nothing but overflows of nodes
that stand in the source, however it ends. If the expression breaks off after an operator,
what waits is applied all the same, and no overflow recorded from there on is that of a node.
So the records of a run are those of nodes and behind them those that stem from none, and
there are some of the second sort only where an expression breaks off.
-/

set_option autoImplicit false

namespace StaticAssert

open scoped Stream'

namespace ExprFlags

structure BreaksOff (flags : ExprFlags) (upcoming : Stream' Token) (c : Context)
    (rest : Stream' Token) : Prop where
  -- Some tokens begin with frames that wait for an operand, and a token that ends an expression
  -- comes first in the rest.
  waits : c ≠ []
  grammar : c.Awaits 0
  tokens : upcoming = c.tokens ++ₛ rest
  ends : flags.ends rest.head.kind = true

structure Accounts (flags : ExprFlags) (upcoming : Stream' Token)
    (written borrowed : List Diagnostic) : Prop where
  -- The overflows among some records stem from the source, those among the records behind them do
  -- not.
  stems : ∀ d ∈ written, d.issue = .signedOverflow → Stems upcoming d
  borrows : ∀ d ∈ borrowed, Borrowed upcoming d
  breaksOff : borrowed ≠ [] → ∃ c rest, flags.BreaksOff upcoming c rest

namespace Accounts

variable {flags : ExprFlags} {upcoming : Stream' Token} {written borrowed : List Diagnostic}

theorem of_stems (h : ∀ d ∈ written, d.issue = .signedOverflow → Stems upcoming d) :
    flags.Accounts upcoming written [] where
  stems := h
  borrows _ hd := absurd hd List.not_mem_nil
  breaksOff h := absurd rfl h

theorem of_borrows {c : Context} {rest : Stream' Token} (h : ∀ d ∈ borrowed, Borrowed upcoming d)
    (hb : flags.BreaksOff upcoming c rest) : flags.Accounts upcoming [] borrowed where
  stems _ hd := absurd hd List.not_mem_nil
  borrows := h
  breaksOff _ := ⟨c, rest, hb⟩

theorem before {new : List Diagnostic} (h : flags.Accounts upcoming written borrowed)
    (hn : ∀ d ∈ new, Stems upcoming d) : flags.Accounts upcoming (new ++ written) borrowed where
  stems := by
    intro d hd ho
    rcases List.mem_append.mp hd with hd | hd
    · exact hn d hd
    · exact h.stems d hd ho
  borrows := h.borrows
  breaksOff := h.breaksOff

theorem take (h : flags.Accounts upcoming written borrowed) (m n : Nat) :
    flags.Accounts upcoming (written.take m) (borrowed.take n) where
  stems d hd := h.stems d (List.mem_of_mem_take hd)
  borrows d hd := h.borrows d (List.mem_of_mem_take hd)
  breaksOff hne := by
    refine h.breaksOff ?_
    rintro rfl
    exact hne List.take_nil

end Accounts
end ExprFlags

namespace Context

variable {flags : ExprFlags} {line : Nat} {upcoming : Stream' Token} {c : Context} {t : Tree}
variable {l : Lookahead} {p : Site}

def Accounted (flags : ExprFlags) (line : Nat) (upcoming : Stream' Token) (c : Context)
    (last? : Option Tree) (l : Lookahead) : Prop :=
  ∃ (u : Transcript Operand) (written borrowed : List Diagnostic),
    (u.Describes fun s => (c.reading line last? ⟨l, s⟩).run flags line) ∧
      u.records = written ++ borrowed ∧ flags.Accounts upcoming written borrowed

theorem accounted_of_binary {op : BinaryOp} (ho : Token.Ordered upcoming) (hc : c.Awaits 0)
    (ht : t.InStratum 0) (h : l.upcoming.head = p.token (.punct op.punct))
    (hu : upcoming = c.tokens ++ Option.elim (some t) [] Tree.tokens ++ₛ l.upcoming)
    (hs : Accounted flags line upcoming
      (.binary op p (unwind op.stratum c t).2 :: (unwind op.stratum c t).1) none l.advance.2) :
    Accounted flags line upcoming c (some t) l := by
  obtain ⟨u, written, borrowed, hd, hr, ha⟩ := hs
  have hw := awaits_unwind ht (Nat.zero_le op.stratum) op.stratum_le hc
  have hv : Awaits (.binary op p (unwind op.stratum c t).2 :: (unwind op.stratum c t).1) 0 :=
    ⟨op.stratum_pos, hw.2, hw.1⟩
  obtain ⟨new, hn, hi⟩ := exists_leads_binary flags line hw.1 h
  refine ⟨_, new ++ written, borrowed, hi.describes hd, ?_, ha.before ?_⟩
  · rw [hr, List.append_assoc]
  · intro d hd
    rw [read_binary h, Option.elim_none, List.append_nil] at hu
    refine stems_of_mem_records ho hv hu ?_
    rw [records, Frame.records, ← hn]
    exact List.mem_append_right _ hd

theorem accounted_of_open (ho : Token.Ordered upcoming) (hc : c.Awaits 0)
    (h : flags.ends l.upcoming.head.kind = true) (hu : upcoming = c.tokens ++ₛ l.upcoming) :
    Accounted flags line upcoming c none l := by
  have hr : Role.ofKind flags false l.upcoming.head.kind = .terminator :=
    Role.ofKind_eq_terminator_iff.mpr h
  simp only [Accounted, reading, Option.isSome_none, Reading.run_of_terminator hr]
  cases c with
  | nil =>
    have hd := Transcript.describes_const (.ok (onStacks [] line none)) l.fill
    exact ⟨_, [], [], Transcript.describes_andThen_const hd _, rfl, .of_stems (by simp)⟩
  | cons f c =>
    obtain ⟨new, result, hn, hd⟩ := borrows_onStacks ho hu hc l.fill line
    have hb : flags.BreaksOff upcoming (f :: c) l.upcoming := ⟨List.cons_ne_nil f c, hc, hu, h⟩
    exact ⟨_, [], new, Transcript.describes_andThen_const hd _, rfl, .of_borrows hn hb⟩

theorem accounted_of_end (ho : Token.Ordered upcoming) (hc : c.Awaits 0) (ht : t.InStratum 0)
    (h : flags.ends l.upcoming.head.kind = true)
    (hu : upcoming = c.tokens ++ Option.elim (some t) [] Tree.tokens ++ₛ l.upcoming) :
    Accounted flags line upcoming c (some t) l := by
  obtain ⟨e, he⟩ := unwind_all c t
  have hg := (awaits_unwind ht (Nat.zero_le 6) (Nat.le_refl 6) hc).2
  have htok := tokens_unwind 6 c t
  rw [he] at hg htok
  obtain ⟨new, hn, hd⟩ := exists_describes_end flags line he h
  refine ⟨_, new, [], hd, (List.append_nil new).symm, .of_stems ?_⟩
  intro d hm _
  have hu' : upcoming = tokens [] ++ₛ (e.tokens ++ₛ l.upcoming) := by
    rw [hu, Option.elim_some, ← htok]
    rfl
  have hb : ∀ op : BinaryOp, l.upcoming.head.kind = .punct op.punct → 6 ≤ op.stratum := by
    intro op hk
    rw [hk, flags.ends_operator] at h
    cases h
  refine Tree.stems_of_mem_records ho hg (c := []) (Nat.le_refl 6) hu' hb ?_
  rw [← hn]
  exact List.mem_append_right _ hm

theorem accounted (flags : ExprFlags) (line : Nat) (ho : Token.Ordered upcoming)
    {last? : Option Tree} (hv : c.Valid last?) (l : Lookahead)
    (hu : upcoming = c.tokens ++ last?.elim [] Tree.tokens ++ₛ l.upcoming) :
    Accounted flags line upcoming c last? l := by
  induction hv, l using run_induction flags with
  | literal hv h hs =>
    simp only [Accounted, run_literal hv.awaits h]
    exact hs (hu.trans (read_literal h))
  | @unary c l op p _ h hs =>
    by_cases hc : c.length < 31
    · simp only [Accounted, run_unary hc h]
      exact hs hc (hu.trans (read_unary h))
    · simp only [Accounted, run_unary_full hc h]
      exact ⟨_, [], [], Transcript.describes_const _ l.advance.2, rfl, .of_stems (by simp)⟩
  | @binary c t l op p hv h hs =>
    exact accounted_of_binary ho hv.awaits (hv.last t rfl).1 h hu (hs (hu.trans (read_binary h)))
  | missing hv h =>
    rw [Option.elim_none, List.append_nil] at hu
    exact accounted_of_open ho hv.awaits h hu
  | @ended c t l hv h => exact accounted_of_end ho hv.awaits (hv.last t rfl).1 h hu
  | @lexical c last? l error hv hr =>
    simp only [Accounted, reading, Reading.run_of_lexical hr]
    refine ⟨_, [_], [], Transcript.describes_stopAt l.fill error _, rfl, .of_stems ?_⟩
    intro d hd hi
    rw [List.mem_singleton.mp hd] at hi
    cases error <;> cases hi
  | @refused c last? l feature hv hr =>
    simp only [Accounted, reading, Reading.run_of_refused hr]
    exact ⟨_, [], [], Transcript.describes_const _ l.fill, rfl, .of_stems (by simp)⟩

end Context

namespace Parser

/-- The overflows that evaluating records are those of nodes that stand in the source, and
behind them, if the expression breaks off after an operator, some that are of none. -/
theorem overflows_of_evaluate (p : Parser) (flags : ExprFlags) {s : Scanner}
    (h : p.upcoming = s.stream) :
    ∃ written borrowed,
      (p.evaluate flags).parser.sink = p.sink.append (written ++ borrowed) ∧
        flags.Accounts p.upcoming written borrowed := by
  obtain ⟨tokens, sink⟩ := p
  have ho : Token.Ordered tokens.upcoming := by
    rw [show tokens.upcoming = s.stream from h]
    exact Token.ordered_stream s
  have hv : Context.Valid [] none := ⟨Nat.zero_le 6, trivial, by rintro _ ⟨⟩⟩
  obtain ⟨u, written, borrowed, hd, hr, ha⟩ := Context.accounted flags
    tokens.upcoming.head.line ho hv tokens.fill (by rw [Lookahead.upcoming_fill]; rfl)
  refine ⟨_, _, ?_, ha.take sink.free (sink.free - written.length)⟩
  have hs := hd.sink_eq sink
  rw [hr, List.take_append] at hs
  rw [evaluate_eq]
  exact hs

/-- The sum overflows, and then the sign takes the sum for its operand. -/
theorem overflows_of_evaluate_sum :
    (ofText "9223372036854775807 + 1 + -" (.empty 2)).upcoming =
        (Scanner.ofText "9223372036854775807 + 1 + -").stream ∧
      ∃ written borrowed,
        written ++ borrowed = [.signedOverflow 7 1 ⟨0, 23⟩, .signedOverflow 1 1 ⟨0, 27⟩] ∧
          ExprFlags.Accounts {} (ofText "9223372036854775807 + 1 + -" (.empty 2)).upcoming
            written borrowed := by
  have h : (ofText "9223372036854775807 + 1 + -" (.empty 2)).upcoming =
      (Scanner.ofText "9223372036854775807 + 1 + -").stream := Lookahead.upcoming_ofScanner _
  have hr : ((ofText "9223372036854775807 + 1 + -" (.empty 2)).evaluate {}).parser.sink =
      Sink.append (.empty 2) [.signedOverflow 7 1 ⟨0, 23⟩, .signedOverflow 1 1 ⟨0, 27⟩] := by
    decide +kernel
  obtain ⟨written, borrowed, hs, ha⟩ := overflows_of_evaluate _ {} h
  exact ⟨h, written, borrowed, Sink.append_inj (hs.symm.trans hr), ha⟩

/-- The sign has nothing to its right. -/
theorem evaluate_dangling_sign :
    ((ofText "9223372036854775808 + -" (.empty 1)).evaluate {}).result =
        .error (.malformed 1 1 1) ∧
      ((ofText "9223372036854775808 + -" (.empty 1)).evaluate {}).parser.sink.records =
        #[.signedOverflow UnaryOp.neg.code 1 ⟨0, 23⟩] ∧
      ¬ Stems (ofText "9223372036854775808 + -" (.empty 1)).upcoming
        (.signedOverflow UnaryOp.neg.code 1 ⟨0, 23⟩) := by
  refine ⟨by decide +kernel, by decide +kernel, ?_⟩
  let x : Tree := .literal ⟨9223372036854775808, false, .g64⟩ ⟨1, ⟨0, 19⟩⟩
  let c : Context := [.binary .add ⟨1, ⟨20, 21⟩⟩ x]
  let s : Scanner := .ofText "9223372036854775808 + -"
  have hc : c.Awaits 0 :=
    ⟨BinaryOp.add.stratum_pos, .looser (.looser (.number _ _)), BinaryOp.add.stratum_le⟩
  have ht : s.stream.take 2 = c.tokens := by decide +kernel
  have hu : s.stream = c.tokens ++ₛ s.stream.drop 2 := by rw [← ht, Stream'.append_take_drop]
  rw [show (ofText "9223372036854775808 + -" (.empty 1)).upcoming = s.stream from
    Lookahead.upcoming_ofScanner s]
  exact Context.not_stems (f := .unary .neg ⟨1, ⟨22, 23⟩⟩) (Token.ordered_stream s) hu hc rfl rfl
    (by decide)

end Parser
end StaticAssert
