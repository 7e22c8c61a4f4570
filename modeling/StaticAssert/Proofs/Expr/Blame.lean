import StaticAssert.Proofs.Expr.Dangling
import StaticAssert.Proofs.Expr.Halting

/-!
# Which operator a malformed expression is blamed on

Where an expression breaks off, the innermost operator that waits is the one without an
operand, but applying what waits only counts operands. So each operator takes the operand of
the next one further out, until the outermost infix operator finds one operand where it
needs two. The last operator that was read is blamed only if all are prefix operators, for
then there is no operand to be taken.
-/

set_option autoImplicit false

namespace StaticAssert

/-- Operands, operators and line in the error for some tokens that break off, where the next
token is not part of the expression. -/
inductive Blamed (w : List Token) (next : Token) : Nat → Nat → Nat → Prop where
  | nothing (empty : w = []) : Blamed w next 0 2 next.line
  /-- The first of the operators that wait is an infix operator. -/
  | outermost {k : Nat} {u : Token} {os : List (Nat × Token)}
      (waits : waiting (operators false w) = (k, u) :: os) (infixed : 0 < k) :
      Blamed w next 1 1 u.line
  /-- There are prefix operators only. -/
  | innermost {ops : List UnaryOp} {init : List Token} {u : Token}
      (prefixes : w.map Token.kind = ops.map fun op => .punct op.punct)
      (last : w = init ++ [u]) : Blamed w next 0 w.length u.line

theorem Frame.exists_fold?_of_length (f : Frame) {xs : List Operand} {n : Nat}
    (h : xs.length = f.operands.length + n + 1) :
    ∃ folded ys, f.pending.fold? xs = some (folded, ys) ∧ ys.length = n := by
  cases f with
  | unary o p =>
    rw [Frame.operands, List.length_nil, Nat.zero_add] at h
    obtain ⟨y, ys, rfl⟩ := List.exists_cons_of_length_eq_add_one h
    exact ⟨_, ys, rfl, Nat.succ.inj h⟩
  | binary op p x =>
    rw [Frame.operands, List.length_singleton, Nat.add_comm 1 n] at h
    obtain ⟨y₂, ys, rfl⟩ := List.exists_cons_of_length_eq_add_one h
    obtain ⟨y₁, ys, rfl⟩ := List.exists_cons_of_length_eq_add_one (Nat.succ.inj h)
    exact ⟨_, ys, rfl, Nat.succ.inj (Nat.succ.inj h)⟩

namespace Context

variable {c inner : Context} {k line : Nat} {flags : ExprFlags} {l : Lookahead}
variable {op : BinaryOp} {o : UnaryOp} {p : Site} {x : Tree}

theorem awaits_of_append {outer : Context} (h : Awaits (inner ++ outer) k) :
    ∃ j, Awaits outer j := by
  induction inner generalizing k with
  | nil => exact ⟨k, h⟩
  | cons f inner ih =>
    cases f with
    | unary o q => exact ih h.2
    | binary o q y => exact ih h.2.2

theorem stratum_eq_zero_of_mem (h : Awaits (inner ++ [.unary o p]) k) {f : Frame}
    (hf : f ∈ inner) : f.stratum = 0 := by
  obtain ⟨before, after, rfl⟩ := List.append_of_mem hf
  cases f with
  | unary op p => rfl
  | binary op q y =>
    rw [List.append_assoc] at h
    obtain ⟨j, hj⟩ := awaits_of_append h
    exact absurd (stratum_lt_of_awaits op.stratum_pos hj.2.2
      (List.mem_append_right after List.mem_cons_self)) (Nat.not_lt_zero _)

/-- All that waits is applied from the inside out, and there is one operand for the outermost
infix operator. -/
theorem exists_describes_outermost (op : BinaryOp) (p : Site) (x : Tree) {xs : List Operand}
    (hx : xs.length = (inner.flatMap Frame.operands).length + 1) (l : Lookahead) (line : Nat) :
    ∃ new, Transcript.Describes ⟨new, .error (.malformed 1 1 p.line), l⟩
      fun s => Stacks.reduction ⟨xs, inner.map Frame.pending ++
        [(Frame.binary op p x).pending, .marker .bottom line]⟩ .collapse ⟨l, s⟩ := by
  induction inner generalizing xs with
  | nil =>
    obtain ⟨y, rfl⟩ := List.length_eq_one_iff.mp hx
    have hn : (Frame.binary op p x).pending.fold? [y] = none := rfl
    refine ⟨[], ?_⟩
    simp only [List.map_nil, List.nil_append,
      Stacks.reduction_of_unfoldable (Frame.yieldsTo_collapse _) hn]
    exact Transcript.describes_const _ l
  | cons f inner ih =>
    rw [List.flatMap_cons, List.length_append] at hx
    obtain ⟨folded, ys, hf, hy⟩ := f.exists_fold?_of_length hx
    -- An operand is put back for those that are taken, so as many are left as `ih` asks for.
    have hy' : (folded.operand :: ys).length = (inner.flatMap Frame.operands).length + 1 :=
      congrArg (· + 1) hy
    obtain ⟨new, hd⟩ := ih hy'
    refine ⟨f.pending.records folded ++ new, ?_⟩
    simp only [List.map_cons, List.cons_append,
      Stacks.reduction_of_yields f.yieldsTo_collapse hf]
    exact Transcript.describes_andThen_ok (u := ⟨new, _, l⟩)
      (f.pending.describes_recording folded l) rfl hd

theorem exists_prefixes (h : ∀ f ∈ c, f.stratum = 0) :
    ∃ ops : List UnaryOp, c.tokens.map Token.kind = ops.map (fun op => .punct op.punct) ∧
      ops.length = c.length := by
  induction c with
  | nil => exact ⟨[], rfl, rfl⟩
  | cons f c ih =>
    obtain ⟨hf, hc⟩ := List.forall_mem_cons.mp h
    obtain ⟨ops, ht, hl⟩ := ih hc
    cases f with
    | unary o p =>
      refine ⟨ops ++ [o], ?_, ?_⟩
      · rw [tokens, List.map_append, List.map_append, ht]
        rfl
      · rw [List.length_append, hl]
        rfl
    | binary op p x => exact absurd hf (Nat.ne_of_gt op.stratum_pos)

theorem blamed_of_prefixes (h : ∀ f ∈ c, f.stratum = 0) (next : Token) (line : Nat) (q : Parser) :
    Blamed (tokens (.unary o p :: c)) next 0 (c.length + 1) p.line ∧
      (onStacks (.unary o p :: c) line none).reduction .collapse q =
        ⟨.error (.malformed 0 (c.length + 1) p.line), q⟩ := by
  constructor
  · obtain ⟨ops, ht, hl⟩ := exists_prefixes (List.forall_mem_cons.mpr
      ⟨show (Frame.unary o p).stratum = 0 from rfl, h⟩)
    have hn : (tokens (.unary o p :: c)).length = c.length + 1 := by
      rw [← List.length_map, ht, List.length_map, hl, List.length_cons]
    rw [← hn]
    exact .innermost (u := p.token (.punct o.punct)) ht rfl
  · have ho : c.flatMap Frame.operands = [] := by
      refine List.flatMap_eq_nil_iff.mpr fun f hf => ?_
      cases f with
      | unary o q => rfl
      | binary op q y => exact absurd (h _ hf) (Nat.ne_of_gt op.stratum_pos)
    have hr : Stacks.reduction ⟨[], (Frame.unary o p).pending ::
        (c.map Frame.pending ++ [.marker .bottom line])⟩ .collapse q = _ :=
      Stacks.reduction_of_unfoldable (Frame.unary o p).yieldsTo_collapse rfl q
    rw [List.length_append, List.length_map] at hr
    rw [onStacks, List.flatMap_cons, ho]
    exact hr

/-- What waits where an expression breaks off cannot all be applied. -/
theorem exists_blamed_reduction (hc : c.Awaits k) (hne : c ≠ []) (next : Token) (l : Lookahead)
    (line : Nat) :
    ∃ new a b n, Blamed c.tokens next a b n ∧
      Transcript.Describes ⟨new, .error (.malformed a b n), l⟩
        fun s => (c.onStacks line none).reduction .collapse ⟨l, s⟩ := by
  obtain ⟨inner, f, rfl⟩ : ∃ inner f, c = inner ++ [f] :=
    ⟨_, _, (List.dropLast_concat_getLast hne).symm⟩
  cases f with
  | binary op p x =>
    have hx : ((inner ++ [Frame.binary op p x]).flatMap Frame.operands).length =
        (inner.flatMap Frame.operands).length + 1 := by
      rw [List.flatMap_append, List.length_append]
      rfl
    obtain ⟨new, hd⟩ := exists_describes_outermost op p x hx l line
    refine ⟨new, 1, 1, p.line, ?_, ?_⟩
    · have hw := waiting_eq hc
      rw [List.map_append, List.reverse_append] at hw
      exact .outermost (u := p.token (.punct op.punct)) hw op.stratum_pos
    · rw [onStacks, List.map_append, List.append_assoc]
      exact hd
  | unary o p =>
    have hz : ∀ f ∈ inner ++ [Frame.unary o p], f.stratum = 0 := by
      refine List.forall_mem_append.mpr ⟨fun f => stratum_eq_zero_of_mem hc, ?_⟩
      exact List.forall_mem_singleton.mpr rfl
    obtain ⟨g, c, hg⟩ := List.exists_cons_of_ne_nil hne
    rw [hg] at hz ⊢
    obtain ⟨hz, hzs⟩ := List.forall_mem_cons.mp hz
    cases g with
    | binary op q y => exact absurd hz (Nat.ne_of_gt op.stratum_pos)
    | unary o q =>
      have hb := @blamed_of_prefixes c o q hzs next line
      refine ⟨[], _, _, _, (hb ⟨l, .empty 0⟩).1, ?_⟩
      simp only [fun s => (hb ⟨l, s⟩).2]
      exact Transcript.describes_const _ l

theorem exists_blamed (hc : c.Awaits 0) (he : flags.ends l.upcoming.head.kind = true)
    (line : Nat) :
    ∃ new a b n, Blamed c.tokens l.upcoming.head a b n ∧
      Transcript.Describes ⟨new, .error (.malformed a b n), l.fill⟩
        fun s => (c.reading line none ⟨l, s⟩).run flags line := by
  have hr : Role.ofKind flags false l.upcoming.head.kind = .terminator :=
    Role.ofKind_eq_terminator_iff.mpr he
  simp only [reading, Option.isSome_none, Reading.run_of_terminator hr]
  by_cases hne : c = []
  · subst hne
    refine ⟨[], 0, 2, l.upcoming.head.line, .nothing rfl, ?_⟩
    exact Transcript.describes_const _ l.fill
  · obtain ⟨new, a, b, n, hb, hd⟩ := exists_blamed_reduction hc hne l.upcoming.head l.fill line
    exact ⟨new, a, b, n, hb, Transcript.describes_andThen_error hd rfl⟩

theorem Halts.blamed {last? : Option Tree} {s : Sink} {a b n : Nat} (h : Halts flags c last? l)
    (hv : c.Valid last?)
    (he : ((c.reading line last? ⟨l, s⟩).run flags line).result = .error (.malformed a b n)) :
    endsInNumber (c.read last?) = false ∧ flags.ends l.upcoming.head.kind = true ∧
      Blamed (c.read last?) l.upcoming.head a b n := by
  rw [endsInNumber_read]
  cases h with
  | ended ends =>
    cases last? with
    | none =>
      obtain ⟨new, a', b', n', hb, hd⟩ := exists_blamed hv.awaits ends line
      rw [hd.leads.eq_of_error he (by rintro _ ⟨⟩)] at he
      cases he
      rw [read, Option.elim_none, List.append_nil]
      exact ⟨rfl, ends, hb⟩
    | some t =>
      obtain ⟨e, hu⟩ := unwind_all c t
      obtain ⟨new, -, hd⟩ := exists_describes_end flags line hu ends
      rw [hd.leads.eq_of_error he (by rintro _ ⟨⟩)] at he
      cases he
  | @lexical error kind =>
    have hd := Transcript.describes_stopAt (α := Operand) l.fill error l.upcoming.head
    rw [reading, Reading.run_of_lexical (Role.ofKind_eq_lexical_iff.mpr kind)] at he
    rw [hd.leads.eq_of_error he (by rintro _ ⟨⟩)] at he
    cases error <;> cases he
  | refused refusal =>
    rw [reading, Reading.run_of_refused (Role.ofKind_eq_refused_iff.mpr refusal)] at he
    cases he

end Context

namespace Parser

/-- A malformed expression breaks off after an operator or before its first token, and the
error has the line of the operator that is blamed. -/
theorem blamed_of_evaluate {p : Parser} {flags : ExprFlags} {a b n : Nat}
    (h : (p.evaluate flags).result = .error (.malformed a b n)) :
    ∃ w, Longest p.upcoming w (p.evaluate flags).parser.upcoming ∧ endsInNumber w = false ∧
      flags.ends (p.evaluate flags).parser.upcoming.head.kind = true ∧
      Blamed w (p.evaluate flags).parser.upcoming.head a b n := by
  obtain ⟨tokens, sink⟩ := p
  obtain ⟨c, last?, l, early, hv, ht, hl, hh⟩ := exists_arrives flags tokens
  have he := hl.eq_of_error h (by rintro _ ⟨⟩)
  rw [he] at h ⊢
  rcases hh with hh | ⟨rfl, hc, op, hk⟩
  · obtain ⟨hn, hends, hb⟩ := hh.blamed hv h
    have hw := hh.longest
    rw [← ht] at hw
    rw [hh.upcoming_run]
    exact ⟨c.read last?, hw, hn, hends, hb⟩
  · rw [Context.run_unary_full hc (Token.token_site hk).symm] at h
    cases h

theorem blamed_of_evaluate_signs :
    ((ofText "-!\n~" (.empty 0)).evaluate {}).result = .error (.malformed 0 3 2) ∧
      ∃ w, Longest (ofText "-!\n~" (.empty 0)).upcoming w
          ((ofText "-!\n~" (.empty 0)).evaluate {}).parser.upcoming ∧
        endsInNumber w = false ∧
        Blamed w ((ofText "-!\n~" (.empty 0)).evaluate {}).parser.upcoming.head 0 3 2 := by
  have h : ((ofText "-!\n~" (.empty 0)).evaluate {}).result = .error (.malformed 0 3 2) := by
    decide +kernel
  obtain ⟨w, hw, hn, -, hb⟩ := blamed_of_evaluate h
  exact ⟨h, w, hw, hn, hb⟩

/-- The sign on the second line lacks its operand, and the sum on the first is blamed. -/
theorem evaluate_sign_on_next_line :
    ((ofText "1 +\n-" (.empty 0)).evaluate {}).result = .error (.malformed 1 1 1) ∧
      ∃ before sign,
        (ofText "1 +\n-" (.empty 0)).upcoming = before ++ [sign] ++ₛ
            ((ofText "1 +\n-" (.empty 0)).evaluate {}).parser.upcoming ∧
          sign.kind = .punct .minus ∧ sign.line = 2 ∧
          ((ofText "1 +\n-" (.empty 0)).evaluate {}).parser.upcoming.head.kind = .eof := by
  let s : Scanner := .ofText "1 +\n-"
  let sign := s.next.2.next.2.next
  let stop := sign.2.next
  have hu : (ofText "1 +\n-" (.empty 0)).upcoming = s.stream := Lookahead.upcoming_ofScanner s
  have hw : ((ofText "1 +\n-" (.empty 0)).evaluate {}).parser.tokens.waiting = [stop.1] := by
    decide +kernel
  have hs : ((ofText "1 +\n-" (.empty 0)).evaluate {}).parser.tokens.scanner = stop.2 := by
    decide +kernel
  have hr : ((ofText "1 +\n-" (.empty 0)).evaluate {}).parser.upcoming =
      [stop.1] ++ₛ stop.2.stream := by
    rw [upcoming, Lookahead.upcoming, hw, hs]
  rw [hr, hu]
  refine ⟨by decide +kernel, [s.next.1, s.next.2.next.1], sign.1, ?_, by decide +kernel,
    by decide +kernel, by decide +kernel⟩
  rw [s.stream_eq, Scanner.stream_eq, Scanner.stream_eq, Scanner.stream_eq]
  rfl

end Parser
end StaticAssert
