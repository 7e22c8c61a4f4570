import StaticAssert.Proofs.Expr.Evaluation

/-!
# What is accepted as an expression

Whatever has been read, if the run succeeds it has read a tree of the grammar. An
expression that breaks off has operands missing, and counting them shows that it never
yields a value. Together with the reading of trees this says which tokens are accepted,
and what comes of them.
-/

set_option autoImplicit false

namespace StaticAssert

open scoped Stream'

namespace Stacks

def Spares (s : Stacks) (n : Nat) : Prop :=
  s.operands.length = (s.operators.map fun p => p.operator.operation.arity - 1).sum + n

theorem spares_fold? {top : Pending} {xs rest : List Operand} {folded : Folded}
    {below : List Pending} {n : Nat} (hf : top.fold? xs = some (folded, rest))
    (h : Spares ⟨xs, top :: below⟩ n) : Spares ⟨folded.operand :: rest, below⟩ n := by
  obtain ⟨⟨precedence, right, operation⟩, span, line⟩ := top
  unfold Spares at h ⊢
  cases operation with
  | unary op =>
    cases xs with
    | nil => cases hf
    | cons x xs =>
      cases hf
      simpa [Operation.arity] using h
  | binary op =>
    rcases xs with _ | ⟨y, _ | ⟨x, xs⟩⟩
    · cases hf
    · cases hf
    · cases hf
      simp only [List.map_cons, List.sum_cons, Operation.arity, List.length_cons] at h ⊢
      omega
  | assign | call | openParen | bottom | collapse => cases hf

theorem spares_reduction {incoming : Operator} {s s' : Stacks} {p : Parser} {n : Nat}
    (hr : (s.reduction incoming p).result = .ok s') (h : s.Spares n) : s'.Spares n := by
  obtain ⟨xs, ps⟩ := s
  induction ps generalizing xs p with
  | nil =>
    cases hr
    exact h
  | cons top below ih =>
    cases hy : top.operator.yieldsTo incoming with
    | false =>
      rw [reduction_of_not_yields hy] at hr
      cases hr
      exact h
    | true =>
      cases hf : top.fold? xs with
      | none =>
        rw [reduction_of_unfoldable hy hf] at hr
        cases hr
      | some folding =>
        obtain ⟨folded, rest⟩ := folding
        rw [reduction_of_yields hy hf] at hr
        obtain ⟨_, -, ha⟩ := Outcome.ok_of_andThen hr
        rw [ha] at hr
        exact ih _ hr (spares_fold? hf h)

theorem spares_of_result? {s : Stacks} {x : Operand} (h : s.result? = some x) : s.Spares 1 := by
  obtain ⟨xs, ps⟩ := s
  unfold result? at h
  split at h
  next top bottom y =>
    split at h
    next ho => simp_all [Spares, Operation.arity]
    next => cases h
  next => cases h

theorem spares_unique {s : Stacks} {m n : Nat} (hm : s.Spares m) (hn : s.Spares n) : m = n :=
  Nat.add_left_cancel (hm.symm.trans hn)

end Stacks

namespace Context

variable {flags : ExprFlags} {line : Nat} {c : Context} {t e : Tree} {l : Lookahead}

theorem spares_onStacks (c : Context) (line : Nat) : (c.onStacks line none).Spares 0 := by
  induction c with
  | nil => rfl
  | cons f c ih =>
    simp only [Stacks.Spares, onStacks, Option.map_none, Option.toList_none, List.nil_append,
      List.flatMap_cons, List.map_cons, List.cons_append, List.sum_cons,
      List.length_append] at ih ⊢
    cases f with
    | unary op p => simpa [Frame.operands, Frame.pending, Operator.unary, Operation.arity] using ih
    | binary op p x =>
      have hl : (Frame.binary op p x).operands.length = 1 := rfl
      have ha : (Frame.binary op p x).pending.operator.operation.arity = 2 := rfl
      omega

theorem result_run_ne_ok_of_open (c : Context) (line : Nat)
    (hr : Role.ofKind flags false l.upcoming.head.kind = .terminator) (s : Sink) (x : Operand) :
    ((c.reading line none ⟨l, s⟩).run flags line).result ≠ .ok x := by
  rw [reading, Option.isSome_none, Reading.run_of_terminator hr]
  intro hx
  obtain ⟨s', hs, ha⟩ := Outcome.ok_of_andThen hx
  rw [ha, Reading.verdict] at hx
  split at hx
  next => cases hx
  next y hy =>
    have h₀ : s'.Spares 0 := Stacks.spares_reduction hs (c.spares_onStacks line)
    have h₁ := Stacks.spares_of_result? hy
    have hp : (s'.pushOperator (.marker .collapse l.upcoming.head.line)).Spares 0 := by
      simpa [Stacks.Spares, Stacks.pushOperator, Pending.marker, Operator.collapse,
        Operation.arity] using h₀
    exact absurd (Stacks.spares_unique hp h₁) Nat.zero_ne_one

theorem unwind_all (c : Context) (t : Tree) : ∃ e, unwind 6 c t = ([], e) := by
  induction c generalizing t with
  | nil => exact ⟨t, rfl⟩
  | cons f c ih =>
    rw [unwind, if_pos f.stratum_le]
    exact ih (f.plug t)

structure Valid (c : Context) (last? : Option Tree) : Prop where
  awaits : c.Awaits 0
  shallow : c.Shallow
  last : ∀ t ∈ last?, t.InStratum 0 ∧ t.Shallow c.length

theorem valid_nil : Valid [] none where
  awaits := Nat.zero_le 6
  shallow := trivial
  last := by rintro _ ⟨⟩

theorem Valid.literal (hv : c.Valid none) (n : NumberLiteral) (p : Site) :
    c.Valid (some (.literal n p)) where
  awaits := hv.awaits
  shallow := hv.shallow
  last := by
    intro t ht
    cases ht
    exact ⟨.number n p, trivial⟩

theorem Valid.unary (hv : c.Valid none) (hc : c.length < 31) (op : UnaryOp) (p : Site) :
    Valid (.unary op p :: c) none where
  awaits := ⟨rfl, hv.awaits⟩
  shallow := ⟨hc, hv.shallow⟩
  last := by
    intro t ht
    cases ht

theorem Valid.binary (hv : c.Valid (some t)) (op : BinaryOp) (p : Site) :
    Valid (.binary op p (unwind op.stratum c t).2 :: (unwind op.stratum c t).1) none := by
  obtain ⟨ht, hs⟩ := hv.last t rfl
  have ha := awaits_unwind ht (Nat.zero_le op.stratum) op.stratum_le hv.awaits
  have hw := shallow_unwind op.stratum hv.shallow hs
  constructor
  · exact ⟨op.stratum_pos, ha.2, ha.1⟩
  · exact ⟨hw.2, hw.1⟩
  · intro t' ht'
    cases ht'

/-- What each turn of a run carries over from the turns behind it holds of all runs. -/
@[elab_as_elim]
theorem run_induction (flags : ExprFlags)
    {motive : ∀ (c : Context) (last? : Option Tree), c.Valid last? → Lookahead → Prop}
    (literal : ∀ {c l n p} (hv : Valid c none), l.upcoming.head = p.token (.number n) →
      motive c (some (.literal n p)) (hv.literal n p) l.advance.2 → motive c none hv l)
    (unary : ∀ {c l op p} (hv : Valid c none), l.upcoming.head = p.token (.punct op.punct) →
      (∀ hc : c.length < 31, motive (.unary op p :: c) none (hv.unary hc op p) l.advance.2) →
      motive c none hv l)
    (binary : ∀ {c t l op p} (hv : Valid c (some t)),
      l.upcoming.head = p.token (.punct op.punct) →
      motive (.binary op p (unwind op.stratum c t).2 :: (unwind op.stratum c t).1) none
        (hv.binary op p) l.advance.2 →
      motive c (some t) hv l)
    (missing : ∀ {c l} (hv : Valid c none), flags.ends l.upcoming.head.kind = true →
      motive c none hv l)
    (ended : ∀ {c t l} (hv : Valid c (some t)), flags.ends l.upcoming.head.kind = true →
      motive c (some t) hv l)
    (lexical : ∀ {c last? l error} (hv : Valid c last?),
      Role.ofKind flags last?.isSome l.upcoming.head.kind = .lexical error → motive c last? hv l)
    (refused : ∀ {c last? l feature} (hv : Valid c last?),
      Role.ofKind flags last?.isSome l.upcoming.head.kind = .refused feature →
      motive c last? hv l)
    {c : Context} {last? : Option Tree} (hv : c.Valid last?) (l : Lookahead) :
    motive c last? hv l := by
  induction hn : l.remaining using Nat.strong_induction_on generalizing l c last? with
  | _ n ih =>
  subst hn
  have next (h : Role.ofKind flags last?.isSome l.upcoming.head.kind ≠ .terminator)
      {c' : Context} {last?' : Option Tree} (hv' : c'.Valid last?') :
      motive c' last?' hv' l.advance.2 :=
    ih _ (Lookahead.remaining_advance_lt_of_kind (Reading.kind_ne_eof_of_role h)) hv' _ rfl
  cases hr : Role.ofKind flags last?.isSome l.upcoming.head.kind with
  | operand n =>
    replace next := @next (by rw [hr]; simp)
    obtain ⟨ha, hk⟩ := Role.ofKind_eq_operand hr
    obtain rfl : last? = none := by simpa using ha
    exact literal hv (Token.token_site hk).symm (next _)
  | operator operator =>
    replace next := @next (by rw [hr]; simp)
    rcases Role.ofKind_eq_operator hr with ⟨ha, op, rfl, hk⟩ | ⟨ha, op, rfl, hk⟩
    · obtain rfl : last? = none := by simpa using ha
      exact unary hv (Token.token_site hk).symm fun hc => next _
    · obtain ⟨t, rfl⟩ := Option.isSome_iff_exists.mp ha
      exact binary hv (Token.token_site hk).symm (next _)
  | terminator =>
    have he := Role.ofKind_eq_terminator_iff.mp hr
    cases last? with
    | none => exact missing hv he
    | some t => exact ended hv he
  | lexical error => exact lexical hv hr
  | refused feature => exact refused hv hr

structure Reads (flags : ExprFlags) (c : Context) (last? : Option Tree) (l : Lookahead)
    (u : Transcript Operand) (e : Tree) : Prop where
  grammar : e.InStratum 6
  shallow : e.Shallow 0
  tokens : c.tokens ++ last?.elim [] Tree.tokens ++ₛ l.upcoming = e.tokens ++ₛ u.tokens.upcoming
  ends : flags.ends u.tokens.upcoming.head.kind = true
  records : c.records ++ last?.elim [] Tree.records ++ u.records = e.records

def Sound (flags : ExprFlags) (line : Nat) (c : Context) (last? : Option Tree)
    (l : Lookahead) : Prop :=
  ∃ u : Transcript Operand,
    (u.Describes fun s => (c.reading line last? ⟨l, s⟩).run flags line) ∧
    ∀ x, u.result = .ok x → ∃ e, Reads flags c last? l u e

theorem Reads.before {c c' : Context} {last? last?' : Option Tree} {l l' : Lookahead}
    {d : List Diagnostic} {u : Transcript Operand} {e : Tree}
    (h : Reads flags c' last?' l' u e)
    (ht : c.tokens ++ last?.elim [] Tree.tokens ++ₛ l.upcoming =
      c'.tokens ++ last?'.elim [] Tree.tokens ++ₛ l'.upcoming)
    (hr : c.records ++ last?.elim [] Tree.records ++ d =
      c'.records ++ last?'.elim [] Tree.records) :
    Reads flags c last? l ⟨d ++ u.records, u.result, u.tokens⟩ e where
  grammar := h.grammar
  shallow := h.shallow
  tokens := ht.trans h.tokens
  ends := h.ends
  records := by rw [← List.append_assoc, hr, h.records]

variable {p : Site}

theorem read_literal {n : NumberLiteral} (h : l.upcoming.head = p.token (.number n)) :
    c.tokens ++ Option.elim none [] Tree.tokens ++ₛ l.upcoming =
      c.tokens ++ Option.elim (some (.literal n p)) [] Tree.tokens ++ₛ l.advance.2.upcoming := by
  rw [Lookahead.upcoming_of_head h, ← Stream'.append_append_stream, Option.elim_none,
    List.append_nil]
  rfl

theorem read_unary {op : UnaryOp} (h : l.upcoming.head = p.token (.punct op.punct)) :
    c.tokens ++ Option.elim none [] Tree.tokens ++ₛ l.upcoming =
      tokens (.unary op p :: c) ++ Option.elim none [] Tree.tokens ++ₛ
        l.advance.2.upcoming := by
  rw [Lookahead.upcoming_of_head h, ← Stream'.append_append_stream]
  simp [tokens, Frame.tokens]

theorem read_binary {op : BinaryOp} (h : l.upcoming.head = p.token (.punct op.punct)) :
    c.tokens ++ Option.elim (some t) [] Tree.tokens ++ₛ l.upcoming =
      tokens (.binary op p (unwind op.stratum c t).2 :: (unwind op.stratum c t).1) ++
        Option.elim none [] Tree.tokens ++ₛ l.advance.2.upcoming := by
  rw [Lookahead.upcoming_of_head h, ← Stream'.append_append_stream, Option.elim_some,
    ← tokens_unwind op.stratum]
  simp [tokens, Frame.tokens]

theorem sound_of_literal {n : NumberLiteral} (hc : c.Awaits 0)
    (h : l.upcoming.head = p.token (.number n))
    (hs : Sound flags line c (some (.literal n p)) l.advance.2) :
    Sound flags line c none l := by
  obtain ⟨u, hd, hu⟩ := hs
  simp only [Sound, run_literal hc h]
  refine ⟨u, hd, ?_⟩
  intro x hx
  obtain ⟨e, he⟩ := hu x hx
  exact ⟨e, he.before (d := []) (read_literal h) (List.append_nil _)⟩

theorem sound_of_unary {op : UnaryOp} (h : l.upcoming.head = p.token (.punct op.punct))
    (hs : c.length < 31 → Sound flags line (.unary op p :: c) none l.advance.2) :
    Sound flags line c none l := by
  by_cases hc : c.length < 31
  · obtain ⟨u, hd, hu⟩ := hs hc
    simp only [Sound, run_unary hc h]
    refine ⟨u, hd, ?_⟩
    intro x hx
    obtain ⟨e, he⟩ := hu x hx
    refine ⟨e, he.before (d := []) (read_unary h) ?_⟩
    simp [records, Frame.records]
  · simp only [Sound, run_unary_full hc h]
    refine ⟨_, Transcript.describes_const _ l.advance.2, ?_⟩
    intro x hx
    cases hx

theorem sound_of_binary {op : BinaryOp} (hc : c.Awaits 0) (ht : t.InStratum 0)
    (h : l.upcoming.head = p.token (.punct op.punct))
    (hs : Sound flags line (.binary op p (unwind op.stratum c t).2 :: (unwind op.stratum c t).1)
      none l.advance.2) :
    Sound flags line c (some t) l := by
  obtain ⟨u, hd, hu⟩ := hs
  have hw := (awaits_unwind ht (Nat.zero_le op.stratum) op.stratum_le hc).1
  obtain ⟨new, hn, hi⟩ := exists_leads_binary flags line hw h
  refine ⟨_, hi.describes hd, ?_⟩
  intro x hx
  obtain ⟨e, he⟩ := hu x hx
  refine ⟨e, he.before (read_binary h) ?_⟩
  rw [Option.elim_some, hn]
  simp [records, Frame.records]

theorem sound_of_open (h : flags.ends l.upcoming.head.kind = true) :
    Sound flags line c none l := by
  have hr : Role.ofKind flags false l.upcoming.head.kind = .terminator :=
    Role.ofKind_eq_terminator_iff.mpr h
  obtain ⟨u, hd, -⟩ := Reading.exists_describes_run flags line l (c.onStacks line none) false
  refine ⟨u, hd, ?_⟩
  intro x hx
  have hne := result_run_ne_ok_of_open c line hr (.empty u.records.length) x
  rw [reading, Option.isSome_none, hd.room (.empty u.records.length) (Nat.le_refl _)] at hne
  exact absurd hx hne

theorem sound_of_end (hv : c.Valid (some t))
    (h : flags.ends l.upcoming.head.kind = true) : Sound flags line c (some t) l := by
  obtain ⟨ht, hs⟩ := hv.last t rfl
  obtain ⟨e, he⟩ := unwind_all c t
  have hg := (awaits_unwind ht (Nat.zero_le 6) (Nat.le_refl 6) hv.awaits).2
  have hw := (shallow_unwind 6 hv.shallow hs).2
  have htok := tokens_unwind 6 c t
  rw [he] at hg hw htok
  obtain ⟨new, hn, hd⟩ := exists_describes_end flags line he h
  refine ⟨_, hd, ?_⟩
  intro x _
  exists e
  refine
    { grammar := hg
      shallow := hw
      tokens := ?_
      ends := ?_
      records := hn }
  · rw [Option.elim_some, ← htok, Lookahead.upcoming_fill]
    rfl
  · rw [Lookahead.upcoming_fill]
    exact h

theorem sound (flags : ExprFlags) (line : Nat) {c : Context} {last? : Option Tree}
    (hv : c.Valid last?) (l : Lookahead) : Sound flags line c last? l := by
  induction hv, l using run_induction flags with
  | literal hv h hs => exact sound_of_literal hv.awaits h hs
  | unary _ h hs => exact sound_of_unary h hs
  | @binary c t l op p hv h hs => exact sound_of_binary hv.awaits (hv.last t rfl).1 h hs
  | missing _ h => exact sound_of_open h
  | ended hv h => exact sound_of_end hv h
  | @lexical c last? l error hv hr =>
    simp only [Sound, reading, Reading.run_of_lexical hr]
    refine ⟨_, Transcript.describes_stopAt l.fill error _, ?_⟩
    intro x hx
    cases hx
  | @refused c last? l feature hv hr =>
    simp only [Sound, reading, Reading.run_of_refused hr]
    refine ⟨_, Transcript.describes_const _ l.fill, ?_⟩
    intro x hx
    cases hx

end Context

/-- Some tokens begin with an expression of the grammar, and a token that ends it comes first
in the rest. -/
structure ExprFlags.Offers (flags : ExprFlags) (upcoming : Stream' Token) (e : Tree)
    (rest : Stream' Token) : Prop where
  grammar : e.InStratum 6
  shallow : e.Shallow 0
  tokens : upcoming = e.tokens ++ₛ rest
  ends : flags.ends rest.head.kind = true

theorem ExprFlags.offers_of_take {flags : ExprFlags} {upcoming : Stream' Token} {e : Tree}
    {n : Nat} (hg : e.InStratum 6) (hs : e.Shallow 0) (ht : upcoming.take n = e.tokens)
    (he : flags.ends (upcoming.drop n).head.kind = true) :
    flags.Offers upcoming e (upcoming.drop n) where
  grammar := hg
  shallow := hs
  tokens := by rw [← ht, Stream'.append_take_drop]
  ends := he

namespace Parser

variable {flags : ExprFlags} {tokens : Lookahead} {e : Tree} {rest : Stream' Token}

theorem exists_describes_evaluate_of_offers (h : flags.Offers tokens.upcoming e rest) :
    ∃ tokens' : Lookahead, tokens'.upcoming = rest ∧
      Transcript.Describes ⟨e.records, .ok e.operand, tokens'⟩
        fun s => evaluate ⟨tokens, s⟩ flags := by
  have hc : Context.Awaits [] 6 := Nat.le_refl 6
  have hl : tokens.fill.upcoming = e.tokens ++ₛ rest := by
    rw [Lookahead.upcoming_fill, h.tokens]
  obtain ⟨l, c, t, new, hr, hn, hu, hd⟩ :=
    Context.exists_describes_tree flags tokens.upcoming.head.line h.grammar hc h.shallow hl
  have hends : flags.ends l.upcoming.head.kind = true := by
    rw [hr]
    exact h.ends
  obtain ⟨new', hn', hd'⟩ := Context.exists_describes_end flags
    tokens.upcoming.head.line (hu 6 (Nat.le_refl 6)) hends
  have he : new ++ new' = e.records := by
    rw [← hn', hn]
    rfl
  refine ⟨l.fill, by rw [Lookahead.upcoming_fill, hr], ?_⟩
  simp only [evaluate_eq]
  rw [← he]
  exact hd _ hd'

theorem exists_offers_of_evaluate {sink : Sink} {x : Operand}
    (h : (evaluate ⟨tokens, sink⟩ flags).result = .ok x) :
    ∃ e rest, flags.Offers tokens.upcoming e rest ∧ e.records.length ≤ sink.free := by
  obtain ⟨u, hd, hu⟩ := Context.sound flags tokens.upcoming.head.line Context.valid_nil tokens.fill
  rw [evaluate_eq] at h
  obtain ⟨hx, hs⟩ := hd.result_eq_ok_iff.mp h
  obtain ⟨e, he⟩ := hu x hx
  have ht : tokens.fill.upcoming = e.tokens ++ₛ u.tokens.upcoming := he.tokens
  have hr : u.records = e.records := he.records
  rw [Lookahead.upcoming_fill] at ht
  exact ⟨e, u.tokens.upcoming, ⟨he.grammar, he.shallow, ht, he.ends⟩, hr ▸ hs⟩

/-- What is computed, recorded and left if an offered expression is evaluated. -/
theorem evaluate_of_offers {sink : Sink} {x : Operand} (he : flags.Offers tokens.upcoming e rest)
    (h : (evaluate ⟨tokens, sink⟩ flags).result = .ok x) :
    x = e.operand ∧ e.records.length ≤ sink.free ∧
      (evaluate ⟨tokens, sink⟩ flags).parser.upcoming = rest ∧
      (evaluate ⟨tokens, sink⟩ flags).parser.sink = sink.append e.records := by
  obtain ⟨tokens', ht, hd⟩ := exists_describes_evaluate_of_offers he
  obtain ⟨hx, hs⟩ := hd.result_eq_ok_iff.mp h
  cases hx
  have hr := hd.room sink hs
  rw [hr]
  exact ⟨rfl, hs, ht, rfl⟩

theorem offers_of_evaluate {sink : Sink} {x : Operand}
    (h : (evaluate ⟨tokens, sink⟩ flags).result = .ok x) :
    ∃ e, x = e.operand ∧
      flags.Offers tokens.upcoming e (evaluate ⟨tokens, sink⟩ flags).parser.upcoming := by
  obtain ⟨e, rest, he, -⟩ := exists_offers_of_evaluate h
  obtain ⟨hx, -, hrest, -⟩ := evaluate_of_offers he h
  rw [hrest]
  exact ⟨e, hx, he⟩

/-- What is accepted as an expression, and what is then computed, recorded and left. -/
theorem evaluate_agrees_with_grammar (p : Parser) (flags : ExprFlags) :
    ((∃ x, (p.evaluate flags).result = .ok x) ↔
      ∃ e rest, flags.Offers p.upcoming e rest ∧ e.records.length ≤ p.sink.free) ∧
    ∀ e rest, flags.Offers p.upcoming e rest → e.records.length ≤ p.sink.free →
      ∃ x, (p.evaluate flags).result = .ok x ∧ x.value.toInt = e.value ∧
        (p.evaluate flags).parser.upcoming = rest ∧
        (p.evaluate flags).parser.sink = p.sink.append e.records := by
  obtain ⟨tokens, sink⟩ := p
  have accepted : ∀ e rest, flags.Offers tokens.upcoming e rest → e.records.length ≤ sink.free →
      ∃ x, (evaluate ⟨tokens, sink⟩ flags).result = .ok x ∧ x.value.toInt = e.value ∧
        (evaluate ⟨tokens, sink⟩ flags).parser.upcoming = rest ∧
        (evaluate ⟨tokens, sink⟩ flags).parser.sink = sink.append e.records := by
    intro e rest he hs
    obtain ⟨tokens', ht, hd⟩ := exists_describes_evaluate_of_offers he
    have hr := hd.room sink hs
    simp only [hr]
    exact ⟨e.operand, rfl, e.operand_value, ht, trivial⟩
  refine ⟨⟨?_, ?_⟩, accepted⟩
  · rintro ⟨x, hx⟩
    exact exists_offers_of_evaluate hx
  · rintro ⟨e, rest, he, hs⟩
    obtain ⟨x, hx, -⟩ := accepted e rest he hs
    exact ⟨x, hx⟩

theorem evaluate_agrees_with_grammar_wraps :
    ∃ e rest,
      ExprFlags.Offers {} (upcoming ⟨.ofScanner (.start
        ((Buffer.ofText "-1+2*9223372036854775807;").cursorAt 0)), .empty 1⟩) e rest ∧
      e.records.length ≤ 1 ∧
      ∃ x, (evaluate ⟨.ofScanner (.start
          ((Buffer.ofText "-1+2*9223372036854775807;").cursorAt 0)), .empty 1⟩
          {}).result = .ok x ∧
        x.value.toInt = -3 ∧ e.records = [.signedOverflow 9 1 ⟨3, 24⟩] := by
  let e : Tree := .binary .add ⟨1, ⟨2, 3⟩⟩
    (.unary .neg ⟨1, ⟨0, 1⟩⟩ (.literal ⟨1, false, .g32⟩ ⟨1, ⟨1, 2⟩⟩))
    (.binary .mul ⟨1, ⟨4, 5⟩⟩ (.literal ⟨2, false, .g32⟩ ⟨1, ⟨3, 4⟩⟩)
      (.literal ⟨9223372036854775807, false, .g64⟩ ⟨1, ⟨5, 24⟩⟩))
  have hg : e.InStratum 6 := by
    refine .looser (.looser (.looser (.looser (.joined .add _ rfl ?_ ?_))))
    · exact .looser (.looser (.prefixed .neg _ (.number _ _)))
    · exact .joined .mul _ rfl (.looser (.number _ _)) (.number _ _)
  have hs : e.Shallow 0 := ⟨⟨by decide, trivial⟩, trivial, trivial⟩
  have ho : ExprFlags.Offers {} (upcoming ⟨.ofScanner (.start
      ((Buffer.ofText "-1+2*9223372036854775807;").cursorAt 0)), .empty 1⟩) e _ :=
    ExprFlags.offers_of_take (n := 6) hg hs (by decide +kernel) (by decide +kernel)
  have hr : e.records = [.signedOverflow 9 1 ⟨3, 24⟩] := by decide +kernel
  have hl : e.records.length ≤ 1 := by
    rw [hr]
    exact Nat.le_refl 1
  obtain ⟨x, hx, hv, -⟩ := (evaluate_agrees_with_grammar _ {}).2 e _ ho hl
  exact ⟨e, _, ho, hl, x, hx, hv.trans (by decide +kernel), hr⟩

end Parser
end StaticAssert
