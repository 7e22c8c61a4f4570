import StaticAssert.Proofs.Compile.Statements

/-!
# What a verdict can be trusted with

Values are computed in words. If the literals of an expression are signed and fit, an
overflow is recorded at the first node where a word and the exact value part; so
if nothing is recorded, the value is the exact one, and a unit that records nothing has
asserted what is true of integers of any size.
-/

set_option autoImplicit false

namespace StaticAssert

def Token.isPlain (t : Token) : Bool :=
  match t.kind with
  | .number n => !n.unsigned && decide (n.raw.toNat < 2 ^ 63)
  | _ => true

namespace Tree

variable {e : Tree}

theorem isUnsigned_of_plain (h : ∀ t ∈ e.tokens, t.isPlain = true) : e.isUnsigned = false := by
  induction e with
  | literal n p =>
    have hn := h _ List.mem_cons_self
    simp only [Token.isPlain, Site.token, Bool.and_eq_true, Bool.not_eq_true'] at hn
    exact hn.1
  | unary op p x ih =>
    have hx := ih fun t ht => h t (List.mem_cons_of_mem _ ht)
    rw [isUnsigned, hx, Bool.and_false]
  | binary op p x y ihx ihy =>
    have hx := ihx fun t ht => h t (List.mem_append_left _ ht)
    have hy := ihy fun t ht => h t (List.mem_append_right _ (List.mem_cons_of_mem _ ht))
    rw [isUnsigned, hx, hy, Bool.or_false, Bool.and_false]

theorem value_eq_unbounded (h : ∀ t ∈ e.tokens, t.isPlain = true) (hr : e.records = []) :
    e.value = e.unbounded := by
  induction e with
  | literal n p =>
    have hn := h _ List.mem_cons_self
    simp only [Token.isPlain, Site.token, Bool.and_eq_true, decide_eq_true_eq] at hn
    have hin : InRange (n.raw.toNat : Int) := by
      unfold InRange
      omega
    rw [value, unbounded, eval, eval, wrap_of_inRange hin, id]
  | unary op p x ih =>
    have hx : ∀ t ∈ x.tokens, t.isPlain = true := fun t ht => h t (List.mem_cons_of_mem _ ht)
    obtain ⟨hrx, ho⟩ := List.append_eq_nil_iff.mp hr
    rw [isUnsigned_of_plain hx] at ho
    have hin : InRange (op.denote id x.value) := (overflow_eq_nil_iff.mp ho).resolve_right Bool.false_ne_true
    calc (unary op p x).value = op.denote wrap x.value := rfl
      _ = op.denote id x.value := UnaryOp.denote_wrap_of_inRange hin
      _ = op.denote id x.unbounded := by rw [ih hx hrx]
  | binary op p x y ihx ihy =>
    have hx : ∀ t ∈ x.tokens, t.isPlain = true := fun t ht => h t (List.mem_append_left _ ht)
    have hy : ∀ t ∈ y.tokens, t.isPlain = true :=
      fun t ht => h t (List.mem_append_right _ (List.mem_cons_of_mem _ ht))
    obtain ⟨hrx, hr⟩ := List.append_eq_nil_iff.mp hr
    obtain ⟨hry, ho⟩ := List.append_eq_nil_iff.mp hr
    rw [isUnsigned_of_plain hx, isUnsigned_of_plain hy] at ho
    have hin : InRange (op.denote id x.value y.value) := (overflow_eq_nil_iff.mp ho).resolve_right Bool.false_ne_true
    calc (binary op p x y).value = op.denote wrap x.value y.value := rfl
      _ = op.denote id x.value y.value := BinaryOp.denote_wrap_of_inRange hin
      _ = op.denote id x.unbounded y.unbounded := by rw [ihx hx hrx, ihy hy hry]

theorem issue_of_mem_records {d : Diagnostic} (h : d ∈ e.records) : d.issue = .signedOverflow := by
  have overflow_issue {code : UInt8} {line : Nat} {span : Span} {unsigned : Bool} {n : Int}
      (hd : d ∈ overflow code line span unsigned n) : d.issue = .signedOverflow := by
    unfold overflow at hd
    split at hd
    · cases hd
    · rw [List.mem_singleton.mp hd]
      rfl
  induction e with
  | literal n p => cases h
  | unary op p x ih =>
    rcases List.mem_append.mp h with h | h
    · exact ih h
    · exact overflow_issue h
  | binary op p x y ihx ihy =>
    rcases List.mem_append.mp h with h | h
    · exact ihx h
    rcases List.mem_append.mp h with h | h
    · exact ihy h
    · exact overflow_issue h

theorem records_eq_nil (h : ∀ d ∈ e.records, d.issue ≠ .signedOverflow) : e.records = [] := by
  cases hr : e.records with
  | nil => rfl
  | cons d ds =>
    have hd : d ∈ e.records := by
      rw [hr]
      exact List.mem_cons_self
    exact absurd (issue_of_mem_records hd) (h d hd)

end Tree

theorem evaluate_exact {p : Parser} {flags : ExprFlags} {x : Operand} {ds : List Diagnostic}
    (hx : (p.evaluate flags).result = .ok x)
    (hs : (p.evaluate flags).parser.sink = p.sink.append ds)
    (hd : ∀ d ∈ ds, d.issue ≠ .signedOverflow) {e : Tree} {rest : Stream' Token}
    (he : flags.Offers p.upcoming e rest) (hp : ∀ t ∈ e.tokens, t.isPlain = true) :
    x.value.toInt = e.unbounded := by
  obtain ⟨tokens, sink⟩ := p
  obtain ⟨tokens', -, ht⟩ := Parser.exists_describes_evaluate_of_offers he
  have hr := ht.room sink (ht.result_eq_ok_iff.mp hx).2
  rw [hr] at hx hs
  obtain rfl : e.records = ds := Sink.append_inj hs
  obtain rfl : e.operand = x := by
    cases hx
    rfl
  rw [e.operand_value, Tree.value_eq_unbounded hp (Tree.records_eq_nil hd)]

theorem assertions_exact {text : String} {sink : Sink} (h : compile text sink = (.ok (), sink))
    {statements : List Statement} (ha : Asserts text statements) {s : Statement}
    (hs : s ∈ statements) (hp : ∀ t ∈ s.value.tokens, t.isPlain = true) :
    s.value.unbounded ≠ 0 := by
  have hr : s.records text = [] := List.flatMap_eq_nil_iff.mp (ha.unitRecords_eq_nil h) s hs
  obtain ⟨hv, hz⟩ := List.append_eq_nil_iff.mp hr
  rw [← Tree.value_eq_unbounded hp hv]
  intro hz'
  rw [if_pos hz'] at hz
  cases hz

/-- Where no overflow is recorded, plain expressions have their exact values; and where nothing
is recorded, what a unit asserts of them holds of integers of any size. -/
theorem exact_of_no_overflow :
    (∀ (p : Parser) (flags : ExprFlags) (x : Operand) (ds : List Diagnostic),
      (p.evaluate flags).result = .ok x →
      (p.evaluate flags).parser.sink = p.sink.append ds →
      (∀ d ∈ ds, d.issue ≠ .signedOverflow) →
        (∃ e rest, flags.Offers p.upcoming e rest) ∧
        ∀ e rest, flags.Offers p.upcoming e rest → (∀ t ∈ e.tokens, t.isPlain = true) →
          x.value.toInt = e.unbounded) ∧
    (∀ (text : String) (sink : Sink), compile text sink = (.ok (), sink) →
        (∃ statements, Asserts text statements) ∧
        ∀ statements, Asserts text statements → ∀ s ∈ statements,
          (∀ t ∈ s.value.tokens, t.isPlain = true) → s.value.unbounded ≠ 0) := by
  constructor
  · intro p flags x ds hx hs hd
    obtain ⟨e, -, he⟩ := Parser.offers_of_evaluate hx
    exact ⟨⟨e, _, he⟩, fun e' rest he' hp => evaluate_exact hx hs hd he' hp⟩
  · intro text sink h
    have hr : (compilation text sink).result = .ok () := by
      rw [compile_eq, Prod.mk.injEq] at h
      exact h.1
    exact ⟨exists_asserts_of_compilation hr, fun statements ha s hs hp =>
      assertions_exact h ha hs hp⟩

theorem exact_of_no_overflow_sum :
    ∃ (s : Statement) (x : Operand),
      Asserts "void main()\x7bstatic_assert(-1+2*3);\x7d" [s] ∧
      (∀ t ∈ s.value.tokens, t.isPlain = true) ∧
      (Parser.evaluate ⟨.ofScanner (.start ((Buffer.ofText
        "void main()\x7bstatic_assert(-1+2*3);\x7d").cursorAt 26)), .empty 0⟩
        { constant := true }).result = .ok x ∧
      x.value.toInt = s.value.unbounded ∧ s.value.unbounded ≠ 0 := by
  let e : Tree := .binary .add ⟨1, ⟨28, 29⟩⟩
    (.unary .neg ⟨1, ⟨26, 27⟩⟩ (.literal ⟨1, false, .g32⟩ ⟨1, ⟨27, 28⟩⟩))
    (.binary .mul ⟨1, ⟨30, 31⟩⟩ (.literal ⟨2, false, .g32⟩ ⟨1, ⟨29, 30⟩⟩)
      (.literal ⟨3, false, .g32⟩ ⟨1, ⟨31, 32⟩⟩))
  have hg : e.InStratum 6 := by
    refine .looser (.looser (.looser (.looser (.joined .add _ rfl ?_ ?_))))
    · exact .looser (.looser (.prefixed .neg _ (.number _ _)))
    · exact .joined .mul _ rfl (.looser (.number _ _)) (.number _ _)
  have hs : e.Shallow 0 := ⟨⟨by decide, trivial⟩, trivial, trivial⟩
  have hp : ∀ t ∈ e.tokens, t.isPlain = true := by decide +kernel
  let s : Statement := ⟨⟨1, ⟨12, 25⟩⟩, ⟨1, ⟨25, 26⟩⟩, e, ⟨1, ⟨32, 33⟩⟩, ⟨1, ⟨33, 34⟩⟩⟩
  have ha : Asserts "void main()\x7bstatic_assert(-1+2*3);\x7d" [s] := by
    refine Asserts.of_take (n := 10) (by decide +kernel) (by decide +kernel) ?_
      (by decide +kernel) (by decide +kernel)
    intro s' hs'
    rw [List.mem_singleton.mp hs']
    exact ⟨hg, hs⟩
  have ho : ExprFlags.Offers { constant := true } (Parser.upcoming ⟨.ofScanner (.start
      ((Buffer.ofText "void main()\x7bstatic_assert(-1+2*3);\x7d").cursorAt 26)), .empty 0⟩) e _ :=
    ExprFlags.offers_of_take (n := 6) hg hs (by decide +kernel) (by decide +kernel)
  have hn : e.records = [] := by decide +kernel
  obtain ⟨tokens, -, hd⟩ := Parser.exists_describes_evaluate_of_offers ho
  rw [hn] at hd
  have hr := hd.room (.empty 0) (Nat.zero_le 0)
  have hc : compile "void main()\x7bstatic_assert(-1+2*3);\x7d" (.empty 0) =
      (.ok (), .empty 0) := by
    decide +kernel
  refine ⟨s, e.operand, ha, hp, by rw [hr], ?_, ?_⟩
  · exact (exact_of_no_overflow.1 _ _ e.operand [] (by rw [hr]) (by rw [hr])
      (by simp)).2 e _ ho hp
  · exact (exact_of_no_overflow.2 _ _ hc).2 [s] ha s List.mem_cons_self hp

end StaticAssert
