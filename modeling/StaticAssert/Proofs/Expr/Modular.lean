import Mathlib.Data.Int.ModEq
import StaticAssert.Proofs.Expr.Acceptance

/-!
# Wrapping at every step and wrapping once

Sums, differences, products and negations commute with wrapping because wrapping keeps the
remainder. Bitwise operations do because a wrapped number has the last bits of the number,
the highest of them repeated for ever, and they work on each bit alone. So an expression
without comparisons and logical negations has the value that comes of computing in
integers of any size and wrapping at the end. Which overflows are recorded is no part of it.
-/

set_option autoImplicit false

namespace StaticAssert

theorem inRange_wrap (n : Int) : InRange (wrap n) := by
  have hl := Int.le_bmod (x := n) (m := 2 ^ 64) (by decide)
  have hu := Int.bmod_lt (x := n) (m := 2 ^ 64) (by decide)
  unfold InRange wrap
  omega

theorem wrap_modEq (n : Int) : wrap n ≡ n [ZMOD 2 ^ 64] := Int.bmod_emod

/-- The bits of the last word, and its highest bit for ever. -/
theorem testBit_wrap (n : Int) (k : Nat) : (wrap n).testBit k = n.testBit (min k 63) := by
  have hbit (i : Nat) (hi : i < 64) : (BitVec.ofInt 64 n).getLsbD i = n.testBit i := by
    cases n with
    | ofNat m =>
      show (BitVec.ofInt 64 (m : Int)).getLsbD i = m.testBit i
      rw [BitVec.ofInt_natCast, BitVec.getLsbD_ofNat, decide_eq_true hi, Bool.true_and]
    | negSucc m =>
      show (BitVec.ofInt 64 (Int.negSucc m)).getLsbD i = !m.testBit i
      rw [BitVec.ofInt_negSucc_eq_not_ofNat, BitVec.getLsbD_not, BitVec.getLsbD_ofNat,
        decide_eq_true hi, Bool.true_and, Bool.true_and]
  rw [wrap, ← BitVec.toInt_ofInt, testBit_toInt]
  by_cases hk : k < 64
  · rw [if_pos hk, hbit k hk, Nat.min_eq_left (by omega)]
  · rw [if_neg hk, BitVec.msb_eq_getLsbD_last, hbit 63 (by decide), Nat.min_eq_right (by omega)]

/-- What works on each bit alone commutes with wrapping. -/
theorem wrap_bitwise {f : Int → Int → Int} {g : Bool → Bool → Bool}
    (hf : ∀ m n k, (f m n).testBit k = g (m.testBit k) (n.testBit k)) (m n : Int) :
    f (wrap m) (wrap n) = wrap (f m n) := by
  apply eq_of_testBit_eq
  intro k
  rw [hf, testBit_wrap, testBit_wrap, testBit_wrap, hf]

theorem wrap_lnot (n : Int) : (wrap n).lnot = wrap n.lnot := by
  apply eq_of_testBit_eq
  intro k
  simp only [Int.testBit_lnot, testBit_wrap]

theorem UnaryOp.denote_wrap {op : UnaryOp} (h : op ≠ .not) (n : Int) :
    op.denote wrap (wrap n) = wrap (op.denote id n) := by
  cases op with
  | plus => rfl
  | neg => exact Int.bmod_neg_bmod
  | not => exact absurd rfl h
  | bitNot => exact wrap_lnot n

theorem BinaryOp.denote_wrap {op : BinaryOp} (h : op.isComparison = false) (m n : Int) :
    op.denote wrap (wrap m) (wrap n) = wrap (op.denote id m n) := by
  cases op with
  | bitAnd => exact wrap_bitwise Int.testBit_land m n
  | bitOr => exact wrap_bitwise Int.testBit_lor m n
  | bitXor => exact wrap_bitwise Int.testBit_lxor m n
  | add => exact (Int.add_bmod m n _).symm
  | sub => exact (Int.sub_bmod m n _).symm
  | mul => exact (Int.mul_bmod m n _).symm
  | eq | notEq => cases h

namespace Tree

def isArithmetic : Tree → Bool
  | .literal _ _ => true
  | .unary op _ x => op ≠ .not && x.isArithmetic
  | .binary op _ x y => !op.isComparison && (x.isArithmetic && y.isArithmetic)

theorem value_eq_wrap {e : Tree} (h : e.isArithmetic = true) : e.value = wrap e.unbounded := by
  unfold value unbounded
  induction e with
  | literal n p => rfl
  | unary op p x ih =>
    obtain ⟨ho, hx⟩ := Bool.and_eq_true_iff.mp h
    rw [eval, ih hx]
    exact op.denote_wrap (of_decide_eq_true ho) _
  | binary op p x y ihx ihy =>
    obtain ⟨ho, hxy⟩ := Bool.and_eq_true_iff.mp h
    obtain ⟨hx, hy⟩ := Bool.and_eq_true_iff.mp hxy
    rw [eval, ihx hx, ihy hy]
    exact op.denote_wrap (by simpa using ho) _ _

end Tree

namespace Parser

/-- An expression without comparisons and logical negations has the remainder of its
unbounded value in the range of words, whatever is recorded. -/
theorem evaluate_wraps_once {p : Parser} {flags : ExprFlags} {x : Operand}
    (h : (p.evaluate flags).result = .ok x) :
    (∃ e rest, flags.Offers p.upcoming e rest) ∧
      ∀ e rest, flags.Offers p.upcoming e rest → e.isArithmetic = true →
        x.value.toInt ≡ e.unbounded [ZMOD 2 ^ 64] ∧ InRange x.value.toInt ∧
          ∀ sink : Sink, e.records.length ≤ sink.free →
            ∃ y, (evaluate ⟨p.tokens, sink⟩ flags).result = .ok y ∧ y.value = x.value ∧
              (evaluate ⟨p.tokens, sink⟩ flags).parser.sink = sink.append e.records := by
  obtain ⟨tokens, sink⟩ := p
  constructor
  · obtain ⟨e, rest, he, -⟩ := exists_offers_of_evaluate h
    exact ⟨e, rest, he⟩
  intro e rest he ha
  obtain ⟨rfl, -⟩ := evaluate_of_offers he h
  have hv : e.operand.value.toInt = wrap e.unbounded :=
    e.operand_value.trans (Tree.value_eq_wrap ha)
  rw [hv]
  refine ⟨wrap_modEq _, inRange_wrap _, ?_⟩
  intro sink' hs
  obtain ⟨tokens', -, hd⟩ := exists_describes_evaluate_of_offers he
  have hr := hd.room sink' hs
  rw [hr]
  exact ⟨e.operand, rfl, rfl, rfl⟩

/-- The complement leaves the range when it is multiplied, and the last literal is above it. -/
theorem evaluate_wraps_once_xor :
    ∃ (x : Operand) (e : Tree),
      ((ofText "~9223372036854775807*5^18446744073709551615u" (.empty 1)).evaluate {}).result =
        .ok x ∧
      e.unbounded = -46116860184273879041 ∧
      x.value.toInt ≡ e.unbounded [ZMOD 2 ^ 64] ∧ InRange x.value.toInt := by
  let p := ofText "~9223372036854775807*5^18446744073709551615u" (.empty 1)
  let e : Tree := .binary .bitXor ⟨1, ⟨22, 23⟩⟩
    (.binary .mul ⟨1, ⟨20, 21⟩⟩
      (.unary .bitNot ⟨1, ⟨0, 1⟩⟩ (.literal ⟨9223372036854775807, false, .g64⟩ ⟨1, ⟨1, 20⟩⟩))
      (.literal ⟨5, false, .g32⟩ ⟨1, ⟨21, 22⟩⟩))
    (.literal ⟨18446744073709551615, true, .g64⟩ ⟨1, ⟨23, 44⟩⟩)
  have hg : e.InStratum 6 := by
    refine .looser (.joined .bitXor _ rfl ?_ ?_)
    · exact .mono (j := 1) (.joined .mul _ rfl (.looser (.prefixed .bitNot _ (.number _ _)))
        (.number _ _)) (by decide)
    · exact .mono (.number _ _) (Nat.zero_le 4)
  have hs : e.Shallow 0 := ⟨⟨⟨by decide, trivial⟩, trivial⟩, trivial⟩
  have ho : ExprFlags.Offers {} p.upcoming e _ :=
    ExprFlags.offers_of_take (n := 6) hg hs (by decide +kernel) (by decide +kernel)
  have hx : (p.evaluate {}).result = .ok e.operand := by decide +kernel
  have ha : e.isArithmetic = true := by decide
  obtain ⟨hm, hr, -⟩ := (evaluate_wraps_once hx).2 e _ ho ha
  exact ⟨e.operand, e, hx, by decide +kernel, hm, hr⟩

end Parser
end StaticAssert
