import StaticAssert.Expr.Role
import StaticAssert.Proofs.Expr.Denote

/-!
# The roles of tokens

A number is an operand, and a punctuator is the operator it is written for, where one
can stand; nothing else continues an expression. Only a fixed set of tokens ends it,
after an operand and where one is missing alike.
-/

set_option autoImplicit false

namespace StaticAssert

def ExprFlags.ends (flags : ExprFlags) : Kind → Bool
  | .eof | .keyword _ => true
  | .punct .rightParen | .punct .semicolon | .punct .leftBrace | .punct .rightBrace => true
  | .punct .comma => !flags.commaContinues
  | _ => false

def ExprFlags.refusal? (flags : ExprFlags) (afterOperand : Bool) : Kind → Option Unsupported
  | .number _ => if afterOperand then some .adjacentOperands else none
  | .name => some .namedValue
  | .punct .comma => if flags.commaContinues then some .comma else none
  | .punct .leftParen => some (if afterOperand then .call else .parenthesized)
  | .punct .bang | .punct .tilde => if afterOperand then some .prefixAfterOperand else none
  | .punct .star | .punct .amp | .punct .caret | .punct .pipe | .punct .equal
  | .punct .notEqual => if afterOperand then none else some .missingLeftOperand
  | .punct .assign =>
    some (if afterOperand then .operator (.punct .assign) else .missingLeftOperand)
  | kind => if Role.isForeign kind then some (.operator kind) else none

theorem ExprFlags.ends_operator (flags : ExprFlags) (op : BinaryOp) :
    flags.ends (.punct op.punct) = false := by
  cases op <;> rfl

namespace Role

variable (flags : ExprFlags)

theorem ofKind_number (n : NumberLiteral) : ofKind flags false (.number n) = .operand n := rfl

theorem ofKind_unary (op : UnaryOp) :
    ofKind flags false (.punct op.punct) = .operator (.unary op) := by
  cases op <;> rfl

theorem ofKind_binary (op : BinaryOp) :
    ofKind flags true (.punct op.punct) = .operator (.binary op) := by
  cases op <;> rfl

variable {flags} {after : Bool} {kind : Kind}

theorem ofKind_eq_operand {n : NumberLiteral} (h : ofKind flags after kind = .operand n) :
    after = false ∧ kind = .number n := by
  obtain ⟨constant, commaContinues⟩ := flags
  cases kind with
  | number literal =>
    cases after with
    | false =>
      cases h
      exact ⟨rfl, rfl⟩
    | true => cases h
  | punct p => cases p <;> cases after <;> cases commaContinues <;> cases h
  | eof | lexError | name | keyword => cases after <;> cases h

theorem ofKind_eq_operator {operator : Operator}
    (h : ofKind flags after kind = .operator operator) :
    (after = false ∧ ∃ op : UnaryOp, operator = .unary op ∧ kind = .punct op.punct) ∨
      (after = true ∧ ∃ op : BinaryOp, operator = .binary op ∧ kind = .punct op.punct) := by
  obtain ⟨constant, commaContinues⟩ := flags
  cases kind with
  | punct p =>
    cases after with
    | false =>
      refine Or.inl ⟨rfl, ?_⟩
      cases p <;> cases commaContinues <;> cases h <;> exact ⟨_, rfl, rfl⟩
    | true =>
      refine Or.inr ⟨rfl, ?_⟩
      cases p <;> cases commaContinues <;> cases h <;> exact ⟨_, rfl, rfl⟩
  | eof | lexError | name | number | keyword => cases after <;> cases h

theorem ofKind_eq_lexical_iff {error : LexError} :
    ofKind flags after kind = .lexical error ↔ kind = .lexError error := by
  constructor
  · intro h
    obtain ⟨constant, commaContinues⟩ := flags
    cases kind with
    | lexError e =>
      cases h
      rfl
    | punct p => cases p <;> cases after <;> cases commaContinues <;> cases h
    | eof | keyword | name | number => cases after <;> cases h
  · rintro rfl
    rfl

theorem ofKind_eq_refused_iff {feature : Unsupported} :
    ofKind flags after kind = .refused feature ↔ flags.refusal? after kind = some feature := by
  obtain ⟨constant, commaContinues⟩ := flags
  cases kind with
  | punct p =>
    cases p <;> cases after <;> cases commaContinues <;>
      simp [ofKind, ofSymbol, ofOperator, ofOther, isForeign, ExprFlags.refusal?,
        Operator.afterOperand?, Operator.beforeOperand?, Operator.call, Operator.openParen,
        Operator.assign, Operator.unary, Operator.binary]
  | name | number => cases after <;> simp [ofKind, ExprFlags.refusal?]
  | eof | lexError | keyword =>
    cases after <;>
      simp [ofKind, ofSymbol, ofOther, isForeign, ExprFlags.refusal?, Operator.afterOperand?,
        Operator.beforeOperand?]

theorem ofKind_eq_terminator_iff :
    ofKind flags after kind = .terminator ↔ flags.ends kind = true := by
  obtain ⟨constant, commaContinues⟩ := flags
  cases kind with
  | punct p => cases p <;> cases after <;> cases commaContinues <;> cases constant <;> decide
  | eof | keyword => cases after <;> exact ⟨fun _ => rfl, fun _ => rfl⟩
  | lexError | name | number => cases after <;> simp [ofKind, ExprFlags.ends]

end Role
end StaticAssert
