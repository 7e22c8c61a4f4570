import Mathlib.Data.List.Induction
import StaticAssert.Proofs.Expr.Nodes

/-!
# Operands and operators in turn

An alternation is a sequence of operands with infix operators between them, where an
operand is a number behind any number of prefix operators. What is to come of it depends
on one thing only: whether a number comes just before. So some tokens begin an
alternation if each of them may follow the ones before it, and a longest such stretch
ends before the first token that may not.
-/

set_option autoImplicit false

namespace StaticAssert

open scoped Stream'

/-- Operands and infix operators in turn. -/
inductive Alternates : List Kind → Prop where
  | operand (ops : List UnaryOp) (n : NumberLiteral) :
      Alternates (ops.map (fun op => .punct op.punct) ++ [.number n])
  | joined {xs ys : List Kind} (op : BinaryOp) (hx : Alternates xs) (hy : Alternates ys) :
      Alternates (xs ++ .punct op.punct :: ys)

def Begins (ts : List Token) : Prop := ∃ more, Alternates (ts.map Token.kind ++ more)

def endsInNumber (ts : List Token) : Bool := ts.getLast?.any (·.number?.isSome)

/-- A longest stretch of the tokens to come that begins an alternation, with the rest. -/
structure Longest (upcoming : Stream' Token) (w : List Token) (rest : Stream' Token) : Prop where
  tokens : upcoming = w ++ₛ rest
  begins : Begins w
  longest : ∀ w' rest', upcoming = w' ++ₛ rest' → Begins w' → w'.length ≤ w.length

inductive Follows : Bool → Kind → Bool → Prop where
  | number (n : NumberLiteral) : Follows false (.number n) true
  | unary (op : UnaryOp) : Follows false (.punct op.punct) false
  | binary (op : BinaryOp) : Follows true (.punct op.punct) false

inductive Trace : List Kind → Bool → Prop where
  | nil : Trace [] false
  | snoc {ks : List Kind} {k : Kind} {b b' : Bool} (h : Trace ks b) (hk : Follows b k b') :
      Trace (ks ++ [k]) b'

namespace Trace

variable {xs ys : List Kind} {k : Kind} {b b' : Bool}

theorem singleton (h : Follows false k b) : Trace [k] b := .snoc .nil h

theorem append (hx : Trace xs false) (hy : Trace ys b) : Trace (xs ++ ys) b := by
  induction hy with
  | nil =>
    rw [List.append_nil]
    exact hx
  | snoc _ hk ih =>
    rw [← List.append_assoc]
    exact .snoc ih hk

theorem exists_of_snoc (h : Trace (xs ++ [k]) b') : ∃ b, Trace xs b ∧ Follows b k b' := by
  generalize he : xs ++ [k] = ks at h
  cases h with
  | nil => exact absurd he (by simp)
  | snoc h hk =>
    obtain ⟨rfl, hs⟩ := List.append_inj' he rfl
    cases hs
    exact ⟨_, h, hk⟩

theorem exists_of_append (h : Trace (xs ++ ys) b') : ∃ b, Trace xs b := by
  induction ys using List.reverseRecOn generalizing b' with
  | nil =>
    rw [List.append_nil] at h
    exact ⟨b', h⟩
  | append_singleton ys k ih =>
    rw [← List.append_assoc] at h
    obtain ⟨b, hb, -⟩ := h.exists_of_snoc
    exact ih hb

theorem prefixes (ops : List UnaryOp) : Trace (ops.map fun op => .punct op.punct) false := by
  induction ops with
  | nil => exact .nil
  | cons op ops ih => exact (singleton (.unary op)).append ih

theorem endsInNumber_eq {ts : List Token} (h : Trace (ts.map Token.kind) b) :
    endsInNumber ts = b := by
  generalize hk : ts.map Token.kind = ks at h
  cases h with
  | nil =>
    rw [List.map_eq_nil_iff.mp hk]
    rfl
  | snoc h hf =>
    obtain ⟨ts', last, rfl, -, hl⟩ := List.map_eq_append_iff.mp hk
    obtain ⟨t, rfl, hkind⟩ := List.map_eq_singleton_iff.mp hl
    rw [endsInNumber, List.getLast?_concat, Option.any_some, Token.number?]
    cases hf <;> rw [hkind] <;> rfl

theorem unique {ts : List Token} (h : Trace (ts.map Token.kind) b)
    (h' : Trace (ts.map Token.kind) b') : b = b' :=
  h.endsInNumber_eq.symm.trans h'.endsInNumber_eq

end Trace

theorem Alternates.trace {ks : List Kind} (h : Alternates ks) : Trace ks true := by
  induction h with
  | operand ops n => exact .snoc (Trace.prefixes ops) (.number n)
  | @joined xs ys op hx hy ihx ihy =>
    have hj := (Trace.snoc ihx (.binary op)).append ihy
    rwa [List.append_assoc] at hj

/-- Behind a number a trace is an alternation; elsewhere an operand completes it. -/
theorem Trace.completes {ks : List Kind} {b : Bool} (h : Trace ks b) :
    if b then Alternates ks
    else ∀ (ops : List UnaryOp) (n : NumberLiteral),
      Alternates (ks ++ (ops.map (fun op => .punct op.punct) ++ [.number n])) := by
  induction h with
  | nil => exact Alternates.operand
  | snoc h hk ih =>
    cases hk with
    | number n => exact ih [] n
    | unary op =>
      intro ops n
      rw [List.append_assoc]
      exact ih (op :: ops) n
    | binary op =>
      intro ops n
      rw [List.append_assoc]
      exact .joined op ih (.operand ops n)

theorem begins_iff {ts : List Token} : Begins ts ↔ ∃ b, Trace (ts.map Token.kind) b := by
  constructor
  · rintro ⟨more, hm⟩
    exact hm.trace.exists_of_append
  · rintro ⟨b, hb⟩
    have hc := hb.completes
    cases b with
    | true =>
      refine ⟨[], ?_⟩
      rw [List.append_nil]
      exact hc
    | false => exact ⟨_, hc [] ⟨0, false, .g32⟩⟩

theorem Begins.of_append {xs ys : List Token} (h : Begins (xs ++ ys)) : Begins xs := by
  obtain ⟨more, hm⟩ := h
  refine ⟨ys.map Token.kind ++ more, ?_⟩
  rwa [← List.append_assoc, ← List.map_append]

theorem begins_snoc_iff {ts : List Token} {t : Token} {b : Bool}
    (h : Trace (ts.map Token.kind) b) : Begins (ts ++ [t]) ↔ ∃ b', Follows b t.kind b' := by
  rw [begins_iff, List.map_append, List.map_singleton]
  constructor
  · rintro ⟨b', hb'⟩
    obtain ⟨b₁, h₁, hk⟩ := hb'.exists_of_snoc
    rw [h.unique h₁]
    exact ⟨b', hk⟩
  · rintro ⟨b', hk⟩
    exact ⟨b', .snoc h hk⟩

namespace Longest

variable {upcoming rest rest' : Stream' Token} {w w' : List Token}

theorem of_stops (ht : upcoming = w ++ₛ rest) (hb : Begins w)
    (hs : ¬ Begins (w ++ [rest.head])) : Longest upcoming w rest where
  tokens := ht
  begins := hb
  longest := by
    intro w' rest' ht' hb'
    rcases Token.prefix_or_prefix (ht'.symm.trans ht) with hp | ⟨more, rfl⟩
    · exact hp.length_le
    cases more with
    | nil => rw [List.append_nil]
    | cons t more =>
      rw [ht, Stream'.append_append_stream, Stream'.append_right_inj] at ht'
      have hh : rest.head = t := congrArg Stream'.head ht'
      rw [← List.singleton_append, ← List.append_assoc, ← hh] at hb'
      exact absurd hb'.of_append hs

/-- Every other stretch that begins an alternation is a part of it. -/
theorem prefix_of_begins (h : Longest upcoming w rest) (ht : upcoming = w' ++ₛ rest')
    (hb : Begins w') : w' <+: w := by
  rcases Token.prefix_or_prefix (ht.symm.trans h.tokens) with hp | hp
  · exact hp
  · exact (hp.eq_of_length_le (h.longest w' rest' ht hb)) ▸ List.prefix_refl _

theorem unique (h : Longest upcoming w rest) (h' : Longest upcoming w' rest') :
    w = w' ∧ rest = rest' := by
  have hp := h'.prefix_of_begins h.tokens h.begins
  obtain rfl := hp.eq_of_length_le (h.longest w' rest' h'.tokens h'.begins)
  exact ⟨rfl, (Stream'.append_right_inj _ _ _).mp (h.tokens.symm.trans h'.tokens)⟩

end Longest

/-- The end of input may follow nothing, so there is a longest stretch. -/
theorem exists_longest (l : Lookahead) : ∃ w rest, Longest l.upcoming w rest := by
  have goOn (ts : List Token) {b : Bool} (hb : Trace (ts.map Token.kind) b) :
      ∃ more rest, l.upcoming = more ++ₛ rest ∧ Begins (ts ++ more) ∧
        ¬ Begins (ts ++ more ++ [rest.head]) := by
    induction hn : l.remaining using Nat.strong_induction_on generalizing l ts b with
    | _ n ih =>
    subst hn
    by_cases hf : ∃ b', Follows b l.upcoming.head.kind b'
    · obtain ⟨b', hf⟩ := hf
      have hk : l.upcoming.head.kind ≠ .eof := by
        intro he
        rw [he] at hf
        cases hf
      have hb' : Trace ((ts ++ [l.upcoming.head]).map Token.kind) b' := by
        rw [List.map_append]
        exact .snoc hb hf
      obtain ⟨more, rest, hm, hbm, hs⟩ :=
        ih _ (Lookahead.remaining_advance_lt_of_kind hk) _ _ hb' rfl
      have ha : ts ++ [l.upcoming.head] ++ more = ts ++ l.upcoming.head :: more := by
        rw [List.append_assoc, List.singleton_append]
      rw [ha] at hbm hs
      refine ⟨l.upcoming.head :: more, rest, ?_, hbm, hs⟩
      rw [Stream'.cons_append_stream, ← hm]
      exact Lookahead.upcoming_of_head rfl
    · refine ⟨[], l.upcoming, rfl, ?_, ?_⟩
      · rw [List.append_nil]
        exact begins_iff.mpr ⟨b, hb⟩
      · rw [List.append_nil, begins_snoc_iff hb]
        exact hf
  obtain ⟨w, rest, ht, hb, hs⟩ := goOn [] .nil
  exact ⟨w, rest, .of_stops ht hb hs⟩

end StaticAssert
