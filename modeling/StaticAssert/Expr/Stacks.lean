import StaticAssert.Compile.Error
import StaticAssert.Expr.Fold

/-!
# Pending operands and operators

While an expression is read, operands and operators whose turn has not come wait on two
stack, the last one first. Reducing applies the waiting operators that yield to the
incoming one, each to the operands on top, and reports those that overflow. Nothing of a
tree is kept.
-/

set_option autoImplicit false

namespace StaticAssert

structure Pending where
  operator : Operator
  span : Span
  line : Nat
  deriving DecidableEq

structure Stacks where
  operands : List Operand
  operators : List Pending
  deriving DecidableEq

namespace Pending

def marker (operator : Operator) (line : Nat) : Pending := ⟨operator, .unplaced, line⟩

def fold? (p : Pending) (operands : List Operand) : Option (Folded × List Operand) :=
  match p.operator.operation, operands with
  | .unary op, x :: rest => some (.unary op x p.span, rest)
  | .binary op, y :: x :: rest => some (.binary op x y, rest)
  | _, _ => none

def record (p : Pending) (folded : Folded) (sink : Sink) : Except SinkFull Sink :=
  if folded.wrapped then
    sink.push (.signedOverflow p.operator.operation.code p.line folded.operand.span)
  else .ok sink

end Pending

namespace Stacks

def start (line : Nat) : Stacks := ⟨[], [.marker .bottom line]⟩

def reduceFrom (incoming : Operator) :
    List Pending → List Operand → Sink → Except CompileError Stacks × Sink
  | [], operands, sink => (.ok ⟨operands, []⟩, sink)
  | top :: below, operands, sink =>
    if top.operator.yieldsTo incoming then
      match top.fold? operands with
      | none => (.error (.malformed operands.length below.length top.line), sink)
      | some (folded, rest) =>
        match top.record folded sink with
        | .ok sink => reduceFrom incoming below (folded.operand :: rest) sink
        | .error full => (.error (.ofSinkFull full), sink)
    else (.ok ⟨operands, top :: below⟩, sink)

def reduce (s : Stacks) (incoming : Operator) (sink : Sink) : Except CompileError Stacks × Sink :=
  reduceFrom incoming s.operators s.operands sink

def pushOperand (s : Stacks) (x : Operand) : Stacks := { s with operands := x :: s.operands }

def pushOperator (s : Stacks) (p : Pending) : Stacks := { s with operators := p :: s.operators }

def result? (s : Stacks) : Option Operand :=
  match s.operators, s.operands with
  | [top, bottom], [x] =>
    if bottom.operator.operation = .bottom ∧ top.operator.operation = .collapse then some x
    else none
  | _, _ => none

end Stacks
end StaticAssert
