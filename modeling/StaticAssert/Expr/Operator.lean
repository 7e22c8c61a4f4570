import StaticAssert.Token.Kind

/-!
# Operators

The operator a token stands for depends on its place: after an operand it can join two
operands, elsewhere it can only precede one. Each operator has a precedence, where a
higher one binds tighter. Two markers bound a stack of pending operators: the bottom
marker is weaker than everything, and the collapsing marker is weaker than every
operator but stronger than the bottom.
-/

set_option autoImplicit false

namespace StaticAssert

inductive UnaryOp where
  | plus
  | neg
  | not
  | bitNot
  deriving DecidableEq

inductive BinaryOp where
  | bitAnd
  | bitOr
  | bitXor
  | add
  | sub
  | mul
  | eq
  | notEq
  deriving DecidableEq

namespace UnaryOp

def code : UnaryOp → UInt8
  | .plus => 0
  | .neg => 1
  | .not => 2
  | .bitNot => 3

end UnaryOp

namespace BinaryOp

def code : BinaryOp → UInt8
  | .bitAnd => 4
  | .bitOr => 5
  | .bitXor => 6
  | .add => 7
  | .sub => 8
  | .mul => 9
  | .eq => 10
  | .notEq => 11

def isComparison (op : BinaryOp) : Bool := op = .eq || op = .notEq

def precedence : BinaryOp → Nat
  | .mul => 26
  | .add | .sub => 25
  | .eq | .notEq => 21
  | .bitAnd => 20
  | .bitXor => 19
  | .bitOr => 18

end BinaryOp

inductive Operation where
  | unary (op : UnaryOp)
  | binary (op : BinaryOp)
  | assign
  | call
  | openParen
  | bottom
  | collapse
  deriving DecidableEq

namespace Operation

def code : Operation → UInt8
  | .unary op => op.code
  | .binary op => op.code
  | .assign => 12
  | .call => 13
  | .openParen => 14
  | .bottom | .collapse => 255

def arity : Operation → Nat
  | .unary _ | .call => 1
  | .binary _ | .assign => 2
  | .openParen | .bottom | .collapse => 0

def isFoldable : Operation → Bool
  | .unary _ | .binary _ => true
  | .assign | .call | .openParen | .bottom | .collapse => false

end Operation

structure Operator where
  precedence : Nat
  rightAssociative : Bool
  operation : Operation
  deriving DecidableEq

namespace Operator

def unary (op : UnaryOp) : Operator := ⟨28, true, .unary op⟩

def binary (op : BinaryOp) : Operator := ⟨op.precedence, false, .binary op⟩

def assign : Operator := ⟨15, true, .assign⟩

def call : Operator := ⟨29, false, .call⟩

def openParen : Operator := ⟨13, false, .openParen⟩

def bottom : Operator := ⟨0, false, .bottom⟩

def collapse : Operator := ⟨1, false, .collapse⟩

def afterOperand? : Kind → Option Operator
  | .punct .leftParen => some call
  | .punct .star => some (binary .mul)
  | .punct .plus => some (binary .add)
  | .punct .minus => some (binary .sub)
  | .punct .equal => some (binary .eq)
  | .punct .notEqual => some (binary .notEq)
  | .punct .amp => some (binary .bitAnd)
  | .punct .caret => some (binary .bitXor)
  | .punct .pipe => some (binary .bitOr)
  | .punct .assign => some assign
  | _ => none

def beforeOperand? : Kind → Option Operator
  | .punct .plus => some (unary .plus)
  | .punct .minus => some (unary .neg)
  | .punct .bang => some (unary .not)
  | .punct .tilde => some (unary .bitNot)
  | .punct .leftParen => some openParen
  | _ => none

def yieldsTo (pending incoming : Operator) : Bool :=
  -- Whether a pending operator is applied before the incoming one is stacked: if it binds
  -- tighter, or as tightly and the incoming one groups to the left.
  incoming.precedence < pending.precedence ||
    (pending.precedence == incoming.precedence && !incoming.rightAssociative)

end Operator
end StaticAssert
