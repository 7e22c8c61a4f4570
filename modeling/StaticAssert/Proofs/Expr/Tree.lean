import StaticAssert.Diagnostic.Basic
import StaticAssert.Proofs.Expr.Denote
import StaticAssert.Token.Basic

/-!
# Expressions as trees

The grammar of constant expressions, with the tree of each expression, the tokens it
is written in and its value. Nothing here is read from the table of precedences or
from the way expressions are evaluated. Six strata of operators that group to the left
stand above the prefix operators, each built from operands of the stratum below it;
a stratum contains the ones below. Values are wrapped at every node or nowhere.
-/

set_option autoImplicit false

namespace StaticAssert

structure Site where
  line : Nat
  span : Span
  deriving DecidableEq

namespace Site

def token (p : Site) (kind : Kind) : Token := ⟨kind, p.line, p.span⟩

end Site

namespace Token

def site (t : Token) : Site := ⟨t.line, t.span⟩

theorem token_site {t : Token} {kind : Kind} (h : t.kind = kind) : t.site.token kind = t := by
  subst h
  rfl

end Token

inductive Tree where
  | literal (value : NumberLiteral) (site : Site)
  | unary (op : UnaryOp) (site : Site) (x : Tree)
  | binary (op : BinaryOp) (site : Site) (x y : Tree)
  deriving DecidableEq

namespace BinaryOp

def stratum : BinaryOp → Nat
  | .mul => 1
  | .add | .sub => 2
  | .eq | .notEq => 3
  | .bitAnd => 4
  | .bitXor => 5
  | .bitOr => 6

theorem stratum_pos (op : BinaryOp) : 0 < op.stratum := by
  cases op <;> decide

theorem stratum_le (op : BinaryOp) : op.stratum ≤ 6 := by
  cases op <;> decide

end BinaryOp

namespace Tree

def tokens : Tree → List Token
  | .literal n p => [p.token (.number n)]
  | .unary op p x => p.token (.punct op.punct) :: x.tokens
  | .binary op p x y => x.tokens ++ p.token (.punct op.punct) :: y.tokens

/-- Numbers behind prefix operators are stratum 0; an operator of the next stratum joins
what belongs to its own stratum on the left with what belongs to the one below. -/
inductive InStratum : Nat → Tree → Prop where
  | number (n : NumberLiteral) (p : Site) : InStratum 0 (.literal n p)
  | prefixed (op : UnaryOp) (p : Site) {x : Tree} (hx : InStratum 0 x) :
      InStratum 0 (.unary op p x)
  | looser {k : Nat} {x : Tree} (hx : InStratum k x) : InStratum (k + 1) x
  | joined (op : BinaryOp) (p : Site) {k : Nat} {x y : Tree} (hk : op.stratum = k + 1)
      (hx : InStratum (k + 1) x) (hy : InStratum k y) : InStratum (k + 1) (.binary op p x y)

/-- No prefix operator stands where 31 operators wait: those whose right operand it belongs
to, and the prefix operators of its run before it. The number says how many wait already. -/
def Shallow : Nat → Tree → Prop
  | _, .literal _ _ => True
  | waiting, .unary _ _ x => waiting < 31 ∧ Shallow (waiting + 1) x
  | waiting, .binary _ _ x y => Shallow waiting x ∧ Shallow (waiting + 1) y

def eval (fit : Int → Int) : Tree → Int
  -- The value, where `fit` says what becomes of a number that can be too large for a word.
  | .literal n _ => fit n.raw.toNat
  | .unary op _ x => op.denote fit (x.eval fit)
  | .binary op _ x y => op.denote fit (x.eval fit) (y.eval fit)

def value (e : Tree) : Int := e.eval wrap

def unbounded (e : Tree) : Int := e.eval id

def isUnsigned : Tree → Bool
  | .literal n _ => n.unsigned
  | .unary op _ x => op != .not && x.isUnsigned
  | .binary op _ x y => !op.isComparison && (x.isUnsigned || y.isUnsigned)

def span : Tree → Span
  | .literal _ p => p.span
  | .unary _ p x => p.span.merge x.span
  | .binary _ _ x y => x.span.merge y.span

def overflow (code : UInt8) (line : Nat) (span : Span) (unsigned : Bool) (n : Int) :
    List Diagnostic :=
  if InRange n ∨ unsigned then [] else [.signedOverflow code line span]

theorem overflow_eq_nil_iff {code : UInt8} {line : Nat} {span : Span} {unsigned : Bool} {n : Int} :
    overflow code line span unsigned n = [] ↔ InRange n ∨ unsigned = true := by
  unfold overflow
  split
  next h => exact iff_of_true rfl h
  next h => exact iff_of_false nofun h

theorem length_overflow (code : UInt8) (line : Nat) (span : Span) (unsigned : Bool) (n : Int) :
    (overflow code line span unsigned n).length = if InRange n ∨ unsigned = true then 0 else 1 := by
  unfold overflow
  split <;> rfl

def records : Tree → List Diagnostic
  | .literal _ _ => []
  | .unary op p x =>
    x.records ++
      overflow op.code p.line (unary op p x).span x.isUnsigned (op.denote id x.value)
  | .binary op p x y =>
    x.records ++ (y.records ++
      overflow op.code p.line (binary op p x y).span (x.isUnsigned || y.isUnsigned)
        (op.denote id x.value y.value))

def operand : Tree → Operand
  | .literal n p => .literal n p.span
  | .unary op p x => (Folded.unary op x.operand p.span).operand
  | .binary op _ x y => (Folded.binary op x.operand y.operand).operand

theorem InStratum.mono {j k : Nat} {e : Tree} (h : e.InStratum j) (hk : j ≤ k) :
    e.InStratum k := by
  induction hk with
  | refl => exact h
  | step _ ih => exact ih.looser

theorem toInt_toInt64 (raw : UInt64) : raw.toInt64.toInt = wrap raw.toNat :=
  BitVec.toInt_eq_toNat_bmod raw.toBitVec

theorem operand_value (e : Tree) : e.operand.value.toInt = e.value := by
  unfold value
  induction e with
  | literal n p => exact toInt_toInt64 n.raw
  | unary op p x ih =>
    rw [eval, ← ih]
    exact op.toInt_apply x.operand.value
  | binary op p x y ihx ihy =>
    rw [eval, ← ihx, ← ihy]
    exact op.toInt_apply x.operand.value y.operand.value

theorem operand_span (e : Tree) : e.operand.span = e.span := by
  induction e with
  | literal n p => rfl
  | unary op p x ih =>
    rw [span, ← ih]
    rfl
  | binary op p x y ihx ihy =>
    rw [span, ← ihx, ← ihy]
    rfl

theorem operand_isUnsigned (e : Tree) : e.operand.isUnsigned = e.isUnsigned := by
  induction e with
  | literal n p => rfl
  | unary op p x ih =>
    rw [isUnsigned, ← ih]
    cases op <;> rfl
  | binary op p x y ihx ihy =>
    rw [isUnsigned, ← ihx, ← ihy]
    cases op <;> rfl

theorem operand_immediate (e : Tree) : e.operand.facts.immediate = true := by
  cases e <;> rfl

theorem operand_isTrue (e : Tree) : e.operand.isTrue = (e.value != 0) := by
  have h : (e.operand.value == 0) = (e.value == 0) := by
    rw [BinaryOp.beq_toInt, operand_value]
    rfl
  rw [Operand.isTrue, bne, bne, h]

end Tree
end StaticAssert
