import StaticAssert.Diagnostic.Sink
import StaticAssert.Token.Kind

/-!
# Why compilation stops

A compilation stops at the first construct it has no meaning for, at the first lexical
error in its way, or when a diagnostic finds no room. The wording of each cause is
fixed here.
-/

set_option autoImplicit false

namespace StaticAssert

inductive Unsupported where
  | literal (what : RejectedLiteral)
  /-- A parenthesis where an operand should begin. -/
  | parenthesized
  /-- A parenthesis after an operand. -/
  | call
  | comma
  | namedValue
  | operator (kind : Kind)
  | statement
  | operandOverflow
  | operatorOverflow
  | adjacentOperands
  | missingLeftOperand
  | prefixAfterOperand
  | nonConstant
  deriving DecidableEq

namespace Unsupported

def pendingLimit : Nat := 32

def message : Unsupported → String
  | .literal what => what.description
  | .parenthesized => "parenthesized sub-expressions"
  | .call => "function calls"
  | .comma => "comma expressions"
  | .namedValue => "named values"
  | .operator kind => "the " ++ kind.text ++ " operator in constant expressions"
  | .statement => "statements other than `static_assert`"
  | .operandOverflow =>
    "expressions with more than " ++ Nat.repr pendingLimit ++ " pending operands"
  | .operatorOverflow =>
    "expressions with more than " ++ Nat.repr (pendingLimit - 1) ++ " pending operators"
  | .adjacentOperands => "two operands without an operator between them"
  | .missingLeftOperand => "a binary operator without a left operand"
  | .prefixAfterOperand => "a prefix operator directly after an operand"
  | .nonConstant => "non-constant expressions"

end Unsupported

inductive CompileError where
  | missingPrelude
  | lexical (error : LexError) (line : Nat)
  | unsupported (feature : Unsupported) (line : Nat)
  | unexpected (expected found : Kind) (line : Nat)
  /-- Operators are left without operands, or operands without operators. -/
  | malformed (operands operators line : Nat)
  | sinkFull (capacity : Nat)
  deriving DecidableEq

namespace CompileError

def ofSinkFull (full : SinkFull) : CompileError := .sinkFull full.capacity

def ofLexError (error : LexError) (line : Nat) : CompileError :=
  match error with
  | .rejected what => .unsupported (.literal what) line
  | _ => .lexical error line

def line? : CompileError → Option Nat
  | .lexical _ line | .unsupported _ line | .unexpected _ _ line | .malformed _ _ line =>
    some line
  | .missingPrelude | .sinkFull _ => none

def cause : CompileError → String
  | .missingPrelude =>
    "source must start with `void main()\x7b` and be at least 20 bytes long"
  | .lexical error _ => error.message
  | .unsupported feature _ => "not supported yet: " ++ feature.message
  | .unexpected expected found _ => "expected " ++ expected.text ++ ", found " ++ found.text
  | .malformed operands operators _ =>
    "malformed expression (" ++ Nat.repr operands ++ " operands, " ++ Nat.repr operators ++
      " operators left)"
  | .sinkFull capacity => "too many diagnostics (capacity " ++ Nat.repr capacity ++ ")"

def message (e : CompileError) : String :=
  (e.line?.elim "" fun line => "line " ++ Nat.repr line ++ ": ") ++ e.cause

end CompileError
end StaticAssert
