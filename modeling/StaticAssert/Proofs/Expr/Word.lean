import Mathlib.Data.Int.Bitwise
import StaticAssert.Expr.Fold

/-!
# Words as integers

A signed word is an integer of its range, and operations on words are operations on
these integers: arithmetic wraps around, and bitwise operations are those of infinite
two's complement, which never leave the range. Two integers are told apart by their
bits, since beyond the highest one there are only those of the sign.
-/

set_option autoImplicit false

namespace StaticAssert

/-- The integer of the signed range with the same last 64 bits. -/
def wrap (n : Int) : Int := n.bmod (2 ^ 64)

def truthInt (b : Bool) : Int := if b then 1 else 0

theorem wrap_of_inRange {n : Int} (h : InRange n) : wrap n = n := by
  unfold InRange at h
  apply Int.bmod_eq_of_le <;> omega

theorem inRange_toInt (x : Int64) : InRange x.toInt := ⟨x.le_toInt, x.toInt_lt⟩

theorem inRange_truthInt (b : Bool) : InRange (truthInt b) := by
  cases b <;> decide

theorem toInt_truthValue (b : Bool) : (truthValue b).toInt = truthInt b := by
  cases b <;> rfl

theorem eq_of_testBit_eq {m n : Int} (h : ∀ k, m.testBit k = n.testBit k) : m = n := by
  -- Beyond its highest bit a number has the bits of its sign, so signs agree as well.
  have apart (a b : Nat) : ∃ k, (Int.ofNat a).testBit k ≠ (Int.negSucc b).testBit k := by
    refine ⟨a + b, ?_⟩
    have ha : a.testBit (a + b) = false :=
      Nat.testBit_lt_two_pow (Nat.lt_of_le_of_lt (Nat.le_add_right a b) Nat.lt_two_pow_self)
    have hb : b.testBit (a + b) = false :=
      Nat.testBit_lt_two_pow (Nat.lt_of_le_of_lt (Nat.le_add_left b a) Nat.lt_two_pow_self)
    simp [Int.testBit, ha, hb]
  cases m with
  | ofNat a =>
    cases n with
    | ofNat b => exact congrArg Int.ofNat (Nat.eq_of_testBit_eq h)
    | negSucc b =>
      obtain ⟨k, hk⟩ := apart a b
      exact absurd (h k) hk
  | negSucc a =>
    cases n with
    | ofNat b =>
      obtain ⟨k, hk⟩ := apart b a
      exact absurd (h k).symm hk
    | negSucc b =>
      exact congrArg Int.negSucc (Nat.eq_of_testBit_eq fun k => Bool.not_inj (h k))

/-- The bits of a word, followed by its sign for ever. -/
theorem testBit_toInt {w : Nat} (x : BitVec w) (k : Nat) :
    x.toInt.testBit k = if k < w then x.getLsbD k else x.msb := by
  have hx := x.isLt
  rw [BitVec.toInt_eq_msb_cond]
  cases hm : x.msb with
  | false =>
    have hn : ((x.toNat : Nat) : Int).testBit k = x.getLsbD k := BitVec.testBit_toNat x
    by_cases hk : k < w
    · rw [if_neg Bool.false_ne_true, if_pos hk, hn]
    · rw [if_neg Bool.false_ne_true, if_neg hk, hn]
      exact BitVec.getLsbD_of_ge x k (Nat.le_of_not_lt hk)
  | true =>
    have hn : (x.toNat : Int) - ((2 ^ w : Nat) : Int) = Int.negSucc (~~~x).toNat := by
      rw [BitVec.toNat_not]
      omega
    by_cases hk : k < w
    · simp only [if_true, hk, hn, Int.testBit, BitVec.testBit_toNat]
      simp [hk]
    · have hz : (~~~x).getLsbD k = false := BitVec.getLsbD_of_ge _ k (Nat.le_of_not_lt hk)
      simp only [if_true, hk, hn, Int.testBit, BitVec.testBit_toNat, hz]
      rfl

theorem toInt_and (x y : Int64) : (x &&& y).toInt = x.toInt.land y.toInt := by
  apply eq_of_testBit_eq
  intro k
  rw [Int.testBit_land]
  simp only [Int64.toInt, Int64.toBitVec_and, testBit_toInt]
  split <;> simp

theorem toInt_or (x y : Int64) : (x ||| y).toInt = x.toInt.lor y.toInt := by
  apply eq_of_testBit_eq
  intro k
  rw [Int.testBit_lor]
  simp only [Int64.toInt, Int64.toBitVec_or, testBit_toInt]
  split <;> simp

theorem toInt_xor (x y : Int64) : (x ^^^ y).toInt = x.toInt.xor y.toInt := by
  apply eq_of_testBit_eq
  intro k
  rw [Int.testBit_lxor]
  simp only [Int64.toInt, Int64.toBitVec_xor, testBit_toInt]
  split <;> simp

theorem lnot_eq (n : Int) : n.lnot = -n - 1 := by
  cases n with
  | ofNat m =>
    show Int.negSucc m = -(m : Int) - 1
    omega
  | negSucc m =>
    show (m : Int) = -Int.negSucc m - 1
    omega

theorem toInt_complement (x : Int64) : (~~~x).toInt = x.toInt.lnot := by
  have h := inRange_toInt x
  rw [Int64.toInt_not, lnot_eq]
  apply wrap_of_inRange
  unfold InRange at *
  omega

end StaticAssert
