import StaticAssert.Compile.Error
import StaticAssert.Expr.Operator

/-!
# What a token means to an expression

The next token of an expression is an operand, an operator, the end of the expression,
or a reason to stop. Which of these it is depends on its kind, on whether an operand
stands before it, and on whether a comma may continue the expression.
-/

set_option autoImplicit false

namespace StaticAssert

structure ExprFlags where
  /-- The value has to be known. -/
  constant : Bool := false
  /-- A comma does not end the expression. -/
  commaContinues : Bool := false
  deriving DecidableEq

inductive Role where
  | operand (literal : NumberLiteral)
  | operator (operator : Operator)
  | terminator
  | lexical (error : LexError)
  | refused (feature : Unsupported)
  deriving DecidableEq

namespace Role

def isForeign : Kind → Bool
  | .punct .plusPlus | .punct .minusMinus | .punct .ampAmp | .punct .pipePipe
  | .punct .less | .punct .greater | .punct .shiftLeft | .punct .shiftRight => true
  | _ => false

def ofOperator (kind : Kind) (operator : Operator) : Role :=
  match operator.operation with
  | .unary _ | .binary _ => .operator operator
  | .call => .refused .call
  | .openParen => .refused .parenthesized
  | .assign | .bottom | .collapse => .refused (.operator kind)

def ofOther (afterOperand : Bool) (kind : Kind) : Role :=
  if afterOperand && (Operator.beforeOperand? kind).isSome then .refused .prefixAfterOperand
  else if !afterOperand && (Operator.afterOperand? kind).isSome then .refused .missingLeftOperand
  else if isForeign kind then .refused (.operator kind)
  else .terminator

def ofSymbol (afterOperand : Bool) (kind : Kind) : Role :=
  match if afterOperand then Operator.afterOperand? kind else Operator.beforeOperand? kind with
  | some entry => ofOperator kind entry
  | none => ofOther afterOperand kind

def ofKind (flags : ExprFlags) (afterOperand : Bool) : Kind → Role
  | .number literal => if afterOperand then .refused .adjacentOperands else .operand literal
  | .lexError error => .lexical error
  | .name => .refused .namedValue
  | .punct .comma => if flags.commaContinues then .refused .comma else .terminator
  | kind => ofSymbol afterOperand kind

theorem ofKind_eof (flags : ExprFlags) (afterOperand : Bool) :
    ofKind flags afterOperand .eof = .terminator := by
  cases afterOperand <;> rfl

end Role
end StaticAssert
