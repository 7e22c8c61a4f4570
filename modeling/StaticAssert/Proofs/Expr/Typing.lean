import StaticAssert.Proofs.Expr.Acceptance
import StaticAssert.Proofs.Token.Tiling

/-!
# Types of expressions

The types of expressions by rules that name no order of operands: literals are as wide as
their values ask for and unsigned where they are written so, prefix operators keep the type
unless they negate, comparisons give truth values, and other infix operators give a kind of
one operand that is no narrower than that of either. There are only three kinds, of three
widths, so the rules give one type to each tree, and it is the one computed.
-/

set_option autoImplicit false

namespace StaticAssert

namespace Builtin

def isConstant : Builtin → Bool
  | .bool | .g32 | .g64 => true
  | _ => false

theorem eq_of_bits {a b : Builtin} (ha : a.isConstant = true) (hb : b.isConstant = true)
    (h : a.bits = b.bits) : a = b := by
  revert ha hb h
  cases a <;> cases b <;> decide

theorem eq_of_isConstant {b : Builtin} (h : b.isConstant = true) :
    b = .bool ∨ b = .g32 ∨ b = .g64 := by
  revert h
  cases b <;> decide

theorem wider_eq (a b : Builtin) : a.wider b = a ∨ a.wider b = b := by
  unfold wider
  split
  · exact .inl rfl
  · exact .inr rfl

theorem bits_le_wider (a b : Builtin) :
    a.bits ≤ (a.wider b).bits ∧ b.bits ≤ (a.wider b).bits := by
  unfold wider
  split <;> omega

/-- A tie of different kinds would be broken to the left, but constants have none. -/
theorem wider_comm {a b : Builtin} (ha : a.isConstant = true) (hb : b.isConstant = true) :
    a.wider b = b.wider a := by
  revert ha hb
  cases a <;> cases b <;> decide

end Builtin

def Span.isMarked (s : Span) (bytes : List UInt8) : Bool :=
  (s.slice bytes).getLast?.any (Byte.isLetterOf 'U')

/-- The types that expressions written in some bytes have, kind and signedness. -/
inductive HasType (bytes : List UInt8) : Tree → Builtin → Bool → Prop where
  | literal (n : NumberLiteral) (p : Site) :
      HasType bytes (.literal n p) (if n.raw.toNat < 2 ^ 32 then .g32 else .g64)
        (p.span.isMarked bytes)
  | kept {op : UnaryOp} {x : Tree} {b : Builtin} {u : Bool} (ho : op ≠ .not) (p : Site)
      (hx : HasType bytes x b u) : HasType bytes (.unary op p x) b u
  | negated (p : Site) (x : Tree) : HasType bytes (.unary .not p x) .bool false
  | compared {op : BinaryOp} (ho : op.isComparison = true) (p : Site) (x y : Tree) :
      HasType bytes (.binary op p x y) .bool false
  | joined {op : BinaryOp} {x y : Tree} {b b' w : Builtin} {u u' : Bool}
      (ho : op.isComparison = false) (p : Site)
      (hx : HasType bytes x b u) (hy : HasType bytes y b' u') (hw : w = b ∨ w = b')
      (hb : b.bits ≤ w.bits) (hb' : b'.bits ≤ w.bits) :
      HasType bytes (.binary op p x y) w (u || u')

structure NumberLiteral.WrittenAt (n : NumberLiteral) (span : Span) (bytes : List UInt8) :
    Prop where
  builtin : n.builtin = if n.raw.toNat < 2 ^ 32 then .g32 else .g64
  unsigned : n.unsigned = span.isMarked bytes

structure Leaf.IsConstant (t : Leaf) : Prop where
  builtin : t.builtin.isConstant = true
  notReference : t.qualifiers.reference = false
  notReadonly : t.qualifiers.readonly = false

theorem Leaf.isConstant_integer {b : Builtin} (h : b.isConstant = true) (u : Bool) :
    (integer b u).IsConstant := ⟨h, rfl, rfl⟩

theorem Byte.isLetterOf_eq_false_of_isDigit {b : UInt8} (h : isDigit b = true) :
    isLetterOf 'U' b = false := by
  refine Bool.eq_false_iff.mpr fun hu => ?_
  rcases eq_of_isLetterOf hu with rfl | rfl <;> cases h

theorem IsLiteral.isMarked {digits suffix after : List UInt8} {unsigned : Bool}
    (h : IsLiteral digits unsigned suffix after) :
    (digits ++ suffix).getLast?.any (Byte.isLetterOf 'U') = unsigned := by
  obtain ⟨hd, hs, -⟩ := h
  cases hs with
  | unsigned hb =>
    rw [List.getLast?_concat]
    exact hb
  | none =>
    rw [List.append_nil]
    rcases List.eq_nil_or_concat digits with rfl | ⟨init, b, rfl⟩
    · rfl
    · rw [List.concat_eq_append] at hd ⊢
      have hb := Lexeme.isDigit_of_mem_digits hd b (List.mem_append_right _ List.mem_cons_self)
      rw [List.getLast?_concat]
      exact Byte.isLetterOf_eq_false_of_isDigit hb

namespace HasType

variable {bytes : List UInt8} {e : Tree} {b b' : Builtin} {u u' : Bool}

theorem isConstant (h : HasType bytes e b u) : b.isConstant = true := by
  induction h with
  | literal n p => split <;> rfl
  | kept _ _ _ ih => exact ih
  | negated | compared => rfl
  | joined _ _ _ _ hw _ _ ihx ihy =>
    rcases hw with rfl | rfl
    · exact ihx
    · exact ihy

theorem unique (h : HasType bytes e b u) (h' : HasType bytes e b' u') : b = b' ∧ u = u' := by
  induction h generalizing b' u' with
  | literal n p =>
    cases h'
    exact ⟨rfl, rfl⟩
  | kept ho p _ ih =>
    cases h' with
    | kept _ _ hx => exact ih hx
    | negated => exact absurd rfl ho
  | negated p x =>
    cases h' with
    | kept ho => exact absurd rfl ho
    | negated => exact ⟨rfl, rfl⟩
  | compared ho p x y =>
    cases h' with
    | compared => exact ⟨rfl, rfl⟩
    | joined hn => cases ho.symm.trans hn
  | @joined op x y b c w v v' hn p hx hy hw hb hc ihx ihy =>
    have hj := joined hn p hx hy hw hb hc
    cases h' with
    | compared ho => cases ho.symm.trans hn
    | joined _ _ hx' hy' hw' hb' hc' =>
      have hj' := joined hn p hx' hy' hw' hb' hc'
      obtain ⟨rfl, rfl⟩ := ihx hx'
      obtain ⟨rfl, rfl⟩ := ihy hy'
      refine ⟨Builtin.eq_of_bits hj.isConstant hj'.isConstant ?_, rfl⟩
      -- Either of the two is no narrower than both operands, and is the kind of one of them.
      rcases hw with rfl | rfl <;> rcases hw' with rfl | rfl <;> omega

end HasType

namespace Tree

variable {bytes : List UInt8} {e : Tree}

def facts : Tree → Facts
  | .literal _ _ => { immediate := true, truthLike := true }
  | .binary .eq _ _ _ | .binary .notEq _ _ _ => { immediate := true, comparison := true }
  | _ => { immediate := true }

theorem operand_facts (e : Tree) : e.operand.facts = e.facts := by
  cases e with
  | literal n p => rfl
  | unary op p x => rfl
  | binary op p x y => cases op <;> rfl

def Written (bytes : List UInt8) : Tree → Prop
  | .literal n p => n.WrittenAt p.span bytes
  | .unary _ _ x => x.Written bytes
  | .binary _ _ x y => x.Written bytes ∧ y.Written bytes

theorem isConstant_operand (h : e.Written bytes) : e.operand.type.IsConstant := by
  induction e with
  | literal n p =>
    refine Leaf.isConstant_integer ?_ n.unsigned
    rw [h.builtin]
    split <;> rfl
  | unary op p x ih =>
    have hx := ih h
    cases op with
    | not => exact Leaf.isConstant_integer rfl false
    | plus | neg | bitNot => exact hx
  | binary op p x y ihx ihy =>
    have hx := (ihx h.1).builtin
    have hy := (ihy h.2).builtin
    show Leaf.IsConstant (if op.isComparison then Leaf.truth else _)
    split
    · exact Leaf.isConstant_integer rfl false
    · refine Leaf.isConstant_integer ?_ _
      rcases x.operand.type.builtin.wider_eq y.operand.type.builtin with hw | hw <;> rwa [hw]

/-- The computed type is one that the rules allow. -/
theorem hasType_operand (h : e.Written bytes) :
    HasType bytes e e.operand.type.builtin e.operand.type.isUnsigned := by
  induction e with
  | literal n p =>
    have ht : HasType bytes (.literal n p) _ _ := .literal n p
    rw [← h.builtin, ← h.unsigned] at ht
    exact ht
  | unary op p x ih =>
    by_cases ho : op = .not
    · subst ho
      exact .negated p x
    · have ht : (unary op p x).operand.type = x.operand.type := if_neg ho
      rw [ht]
      exact .kept ho p (ih h)
  | binary op p x y ihx ihy =>
    have hx := ihx h.1
    have hy := ihy h.2
    have hw := x.operand.type.builtin.wider_eq y.operand.type.builtin
    have hb := x.operand.type.builtin.bits_le_wider y.operand.type.builtin
    cases op with
    | eq | notEq => exact .compared rfl p x y
    | bitAnd | bitOr | bitXor | add | sub | mul => exact .joined rfl p hx hy hw hb.1 hb.2

theorem hasType_iff (h : e.Written bytes) (b : Builtin) (u : Bool) :
    HasType bytes e b u ↔ b = e.operand.type.builtin ∧ u = e.operand.type.isUnsigned := by
  constructor
  · intro ht
    exact ht.unique (hasType_operand h)
  · rintro ⟨rfl, rfl⟩
    exact hasType_operand h

theorem written_of_tokens {s : Scanner} (h : ∀ t ∈ e.tokens, t ∈ s.stream) :
    e.Written s.cursor.buffer.bytes := by
  induction e with
  | literal n p =>
    have ht := h _ List.mem_cons_self
    have hi := Scanner.inSource_of_mem_stream ht (show (Kind.number n) ≠ .eof from nofun)
    have hl := Scanner.isLexeme_of_mem_stream hi ht
    rw [Site.token] at hl
    generalize hx : p.span.slice s.cursor.buffer.bytes = text at hl
    cases hl with
    | number hd hv hb =>
      constructor
      · rw [hb, hv]
      · rw [Span.isMarked, hx]
        exact hd.isMarked.symm
  | unary op p x ih => exact ih fun t ht => h t (List.mem_cons_of_mem _ ht)
  | binary op p x y ihx ihy =>
    constructor
    · exact ihx fun t ht => h t (List.mem_append_left _ ht)
    · exact ihy fun t ht => h t (List.mem_append_right _ (List.mem_cons_of_mem _ ht))

end Tree

theorem Folded.type_binary_comm (op : BinaryOp) {x y : Operand} (hx : x.type.IsConstant)
    (hy : y.type.IsConstant) :
    (binary op x y).operand.type = (binary op y x).operand.type := by
  show (if op.isComparison then Leaf.truth else Leaf.integer _ _) =
    if op.isComparison then Leaf.truth else Leaf.integer _ _
  rw [Builtin.wider_comm hx.builtin hy.builtin, Bool.or_comm]

namespace Parser

/-- An accepted expression has the type that its tree and its text give it, and facts that
tell of its root. -/
theorem type_of_evaluate {p : Parser} {flags : ExprFlags} {s : Scanner} {x : Operand}
    (hs : p.upcoming = s.stream) (h : (p.evaluate flags).result = .ok x) :
    (∃ e rest, flags.Offers p.upcoming e rest) ∧
      (∀ e rest, flags.Offers p.upcoming e rest →
        (∀ b u, HasType s.cursor.buffer.bytes e b u ↔
          b = x.type.builtin ∧ u = x.type.isUnsigned) ∧
        x.facts = e.facts) ∧
      (x.type.builtin = .bool ∨ x.type.builtin = .g32 ∨ x.type.builtin = .g64) ∧
      x.type.qualifiers.reference = false ∧ x.type.qualifiers.readonly = false ∧
      ∀ (op : BinaryOp) (y : Operand), y.type.IsConstant →
        (Folded.binary op x y).operand.type = (Folded.binary op y x).operand.type := by
  obtain ⟨tokens, sink⟩ := p
  have typed {e : Tree} {rest : Stream' Token} (he : flags.Offers tokens.upcoming e rest) :
      x = e.operand ∧ e.Written s.cursor.buffer.bytes := by
    refine ⟨(evaluate_of_offers he h).1, Tree.written_of_tokens fun t ht => ?_⟩
    rw [← show tokens.upcoming = s.stream from hs, he.tokens]
    exact Stream'.mem_append_stream_left rest ht
  obtain ⟨e, rest, he, -⟩ := exists_offers_of_evaluate h
  obtain ⟨rfl, hw⟩ := typed he
  have hc := Tree.isConstant_operand hw
  refine ⟨⟨e, rest, he⟩, ?_, ?_, hc.notReference, hc.notReadonly, ?_⟩
  · intro e' rest' he'
    obtain ⟨ho, hw'⟩ := typed he'
    rw [ho]
    exact ⟨Tree.hasType_iff hw', e'.operand_facts⟩
  · exact Builtin.eq_of_isConstant hc.builtin
  · intro op y hy
    exact Folded.type_binary_comm op hc hy

theorem type_of_evaluate_sum :
    ∃ (x : Operand) (e : Tree),
      ((ofText "~7U+4294967296" (.empty 0)).evaluate {}).result = .ok x ∧
        HasType (Byte.ofText "~7U+4294967296") e .g64 true ∧ x.facts = { immediate := true } := by
  have hs : (ofText "~7U+4294967296" (.empty 0)).upcoming =
      (Scanner.ofText "~7U+4294967296").stream := Lookahead.upcoming_ofScanner _
  have hx : ((ofText "~7U+4294967296" (.empty 0)).evaluate {}).result =
      .ok ⟨.integer .g64 true, { immediate := true }, 4294967288, ⟨0, 14⟩⟩ := by
    decide +kernel
  obtain ⟨⟨e, rest, he⟩, ht, -⟩ := type_of_evaluate hs hx
  exact ⟨_, e, hx, ((ht e rest he).1 .g64 true).mpr ⟨rfl, rfl⟩, rfl⟩

end Parser
end StaticAssert
