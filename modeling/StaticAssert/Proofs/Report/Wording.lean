import StaticAssert.Compile.Error
import StaticAssert.Proofs.Text.Visible
import StaticAssert.Token.Kind

/-!
# Wordings

Every wording is visible: the message of each error, the heading of a diagnostic, the label
of each kind of token. Where a byte or a number gets into one it is named or written in
digits, so nothing of the source shows through.
-/

set_option autoImplicit false

namespace StaticAssert

open Text (Visible)

section Messages

theorem RejectedLiteral.visible_description (r : RejectedLiteral) : Visible r.description := by
  cases r <;> exact Text.visible_ofList rfl

theorem Punct.visible_spelling (p : Punct) : Visible p.spelling := by
  cases p <;> exact Text.visible_ofList rfl

theorem Keyword.visible_spelling (k : Keyword) : Visible k.spelling := by
  cases k <;> exact Text.visible_ofList rfl

theorem LexError.visible_of_descriptionOf? {code : UInt8} {text : String}
    (h : descriptionOf? code = some text) : Visible text := by
  have hd : ∀ t ∈ descriptions, Visible t := by decide
  exact hd text (List.mem_of_getElem? h)

theorem LexError.visible_message (e : LexError) : Visible e.message := by
  cases e with
  | invalidByte b => exact Text.visible_append.mpr ⟨by decide, Text.visible_shown b⟩
  | rejected what =>
    exact Text.visible_append.mpr ⟨what.visible_description, by decide⟩
  | literalTooLarge | nameTooLong | commentNotClosed | commentNotOpened => decide

theorem Kind.visible_text (k : Kind) : Visible k.text := by
  cases k with
  | punct p => exact Text.visible_framed (by decide) p.visible_spelling (by decide)
  | keyword k => exact Text.visible_framed (by decide) k.visible_spelling (by decide)
  | eof | lexError _ | name | number _ => exact Text.visible_ofList rfl

theorem Unsupported.visible_message (u : Unsupported) : Visible u.message := by
  cases u with
  | literal what => exact what.visible_description
  | operator kind => exact Text.visible_framed (by decide) kind.visible_text (by decide)
  | operandOverflow | operatorOverflow =>
    exact Text.visible_framed (by decide) (Text.visible_repr _) (by decide)
  | _ => exact Text.visible_ofList rfl

theorem CompileError.visible_cause (e : CompileError) : Visible e.cause := by
  cases e with
  | missingPrelude => exact Text.visible_ofList rfl
  | lexical error _ => exact error.visible_message
  | unsupported feature _ => exact Text.visible_append.mpr ⟨by decide, feature.visible_message⟩
  | unexpected expected found _ =>
    apply Text.visible_append.mpr
    exact ⟨Text.visible_framed (by decide) expected.visible_text (by decide), found.visible_text⟩
  | malformed operands operators _ =>
    apply Text.visible_framed _ (Text.visible_repr operators) (by decide)
    exact Text.visible_framed (by decide) (Text.visible_repr operands) (by decide)
  | sinkFull capacity =>
    exact Text.visible_framed (by decide) (Text.visible_repr capacity) (by decide)

theorem CompileError.visible_message (e : CompileError) : Visible e.message := by
  rw [message, Text.visible_append]
  refine ⟨?_, e.visible_cause⟩
  cases e.line? with
  | none => decide
  | some line => exact Text.visible_framed (by decide) (Text.visible_repr line) (by decide)

end Messages

section Headings

theorem Diagnostic.visible_shown {d : Diagnostic} {detail : Detail}
    (h : d.detail? = some detail) : Visible detail.shown := by
  unfold detail? at h
  split at h
  · cases h
    cases hd : LexError.descriptionOf? d.misc with
    | none => exact (by decide : Visible "unknown lexical error")
    | some text => exact LexError.visible_of_descriptionOf? hd
  · cases h
    exact Text.visible_shown d.misc
  all_goals cases h

theorem Diagnostic.visible_heading (d : Diagnostic) : Visible d.heading := by
  rw [heading, Text.visible_append]
  constructor
  · cases d.issue <;> decide
  · cases hd : d.detail? with
    | none => decide
    | some detail => exact Text.visible_append.mpr ⟨by decide, visible_shown hd⟩

theorem Issue.visible_code (i : Issue) : Visible ("[" ++ i.code ++ "]") := by
  cases i <;> decide

theorem visible_count (n : Nat) :
    Visible ("aborting due to " ++ Nat.repr n ++ " previous errors") :=
  Text.visible_framed (by decide) (Text.visible_repr n) (by decide)

end Headings

section Labels

theorem Punct.visible_label (p : Punct) : Visible p.label := by
  cases p <;> exact Text.visible_ofList rfl

theorem Keyword.visible_label (k : Keyword) : Visible k.label := by
  cases k <;> exact Text.visible_ofList rfl

theorem LexError.visible_label (e : LexError) : Visible e.label := by
  cases e with
  | invalidByte b => exact Text.visible_framed (by decide) (Text.visible_repr _) (by decide)
  | rejected what => cases what <;> decide
  | literalTooLarge | nameTooLong | commentNotClosed | commentNotOpened =>
    exact Text.visible_ofList rfl

theorem NumberLiteral.visible_label (n : NumberLiteral) : Visible n.label := by
  have hu : Visible (if n.unsigned then "true" else "false") := by
    cases n.unsigned <;> decide
  have hb : Visible n.builtin.label := by
    cases n.builtin <;> exact Text.visible_ofList rfl
  have hr := Text.visible_framed (by decide : Visible "NumberLiteral \x7b raw: ")
    (Text.visible_repr n.raw.toNat) (by decide : Visible ", unsigned: ")
  exact Text.visible_framed (Text.visible_framed hr hu (by decide)) hb (by decide)

theorem Kind.visible_label (k : Kind) : Visible k.label := by
  cases k with
  | eof => decide
  | name => decide
  | lexError e => exact Text.visible_framed (by decide) e.visible_label (by decide)
  | number n => exact Text.visible_framed (by decide) n.visible_label (by decide)
  | punct p => exact p.visible_label
  | keyword k => exact k.visible_label

theorem NumberLiteral.visible_spelling (n : NumberLiteral) : Visible n.spelling := by
  have hs : Visible n.suffix := by
    unfold suffix
    split <;> decide
  exact Text.visible_append.mpr ⟨Text.visible_repr _, hs⟩

theorem Span.visible_text (s : Span) : Visible s.text :=
  Text.visible_append.mpr
    ⟨Text.visible_append.mpr ⟨Text.visible_repr _, by decide⟩, Text.visible_repr _⟩

end Labels

end StaticAssert
