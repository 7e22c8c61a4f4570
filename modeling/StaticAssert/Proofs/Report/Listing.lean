import StaticAssert.Proofs.Report.Writing
import StaticAssert.Proofs.Report.Wording
import StaticAssert.Proofs.Text.Lines
import StaticAssert.Report.TokenList

/-!
# Listed tokens

A listing has a line for each token, in order, and nothing else. What a token covers may
contain anything, but it is quoted, and a quoted text has no newline of its own, nor has
any of the other columns. So the newlines of a listing are those that end its lines.
-/

set_option autoImplicit false

namespace StaticAssert

open Byte (ofText)
open Text (Unbroken Visible unlines)

namespace Quoted

theorem unbroken_escape (c : Char) : Unbroken (escape c) := by
  unfold escape
  split_ifs with _ _ _ hn
  · decide
  · decide
  · decide
  · decide
  · decide
  · decide
  · -- Of the characters that are shown as themselves none is a newline.
    intro h
    rw [String.toList_singleton, List.mem_singleton] at h
    exact hn h.symm
  · exact Text.unbroken_framed (by decide) (Text.visible_lower c.toNat).unbroken (by decide)

theorem unbroken_encode (cs : List Char) : Unbroken (encode cs) := by
  induction cs with
  | nil => decide
  | cons c cs ih => exact Text.unbroken_append.mpr ⟨unbroken_escape c, ih⟩

theorem unbroken_quote (text : String) : Unbroken (quote text) :=
  Text.unbroken_append.mpr ⟨by decide, unbroken_encode text.toList⟩

end Quoted

namespace Column

variable {width : Nat} {text : String}

theorem visible_alignLeft (h : Visible text) : Visible (alignLeft width text) :=
  Text.visible_append.mpr ⟨h, Text.visible_spaces _⟩

theorem visible_alignRight (h : Visible text) : Visible (alignRight width text) :=
  Text.visible_append.mpr ⟨Text.visible_spaces _, h⟩

end Column

namespace Token

def columns (t : Token) (source : String) : String :=
  Column.alignRight 4 (Nat.repr t.line) ++ "  " ++ Column.alignLeft 24 t.kind.label ++ " " ++
  Column.alignLeft 10 t.span.text ++ " " ++
  Quoted.quote ((Text.slice? source t.span).getD "")

def remark (t : Token) : String :=
  match t.kind with
  | .number n => " = " ++ n.spelling ++ " (" ++ n.builtin.name ++ ")"
  | .lexError e => " (" ++ e.message ++ ")"
  | .eof | .name | .punct _ | .keyword _ => ""

def entry (source : String) (t : Token) : String := t.columns source ++ t.remark

theorem unbroken_columns (source : String) (t : Token) : Unbroken (t.columns source) := by
  have hl : Visible (Column.alignRight 4 (Nat.repr t.line)) :=
    Column.visible_alignRight (Text.visible_repr t.line)
  have hk : Visible (Column.alignLeft 24 t.kind.label) :=
    Column.visible_alignLeft t.kind.visible_label
  have hs : Visible (Column.alignLeft 10 t.span.text) :=
    Column.visible_alignLeft t.span.visible_text
  have hv := Text.visible_framed (Text.visible_framed hl (by decide : Visible "  ") hk)
    (by decide : Visible " ") hs
  exact Text.unbroken_framed hv.unbroken (by decide) (Quoted.unbroken_quote _)

theorem visible_remark (t : Token) : Visible t.remark := by
  unfold remark
  split
  next n _ =>
    have hb : Visible n.builtin.name := by
      cases n.builtin <;> decide
    exact Text.visible_framed (Text.visible_framed (by decide : Visible " = ") n.visible_spelling
      (by decide : Visible " (")) hb (by decide)
  next e _ => exact Text.visible_framed (by decide) e.visible_message (by decide)
  all_goals decide

theorem unbroken_entry (source : String) (t : Token) : Unbroken (t.entry source) :=
  Text.unbroken_append.mpr ⟨t.unbroken_columns source, t.visible_remark.unbroken⟩

end Token

namespace Writing

theorem writes_listRemark (t : Token) : Writes (listRemark t) t.remark () := by
  rw [listRemark, Token.remark]
  cases t.kind with
  | number n =>
    apply (writes_writeAll [" = ", n.spelling, " (", n.builtin.name, ")"]).of_eq
    simp [String.append_assoc]
  | lexError e =>
    apply (writes_writeAll [" (", e.message, ")"]).of_eq
    simp [String.append_assoc]
  | eof => exact .pure ()
  | name => exact .pure ()
  | punct p => exact .pure ()
  | keyword k => exact .pure ()

theorem writes_listToken (source : String) (t : Token) :
    Writes (listToken source t) (t.entry source ++ "\n") () := by
  apply ((writes_writeAll _).andThen <| (writes_listRemark t).andThen (writes_writeAll _)).of_eq
  simp [Token.entry, Token.columns, String.append_assoc]

/-- The tokens are counted one by one. -/
theorem writes_listTokens (source : String) :
    Writes (listTokens source) (unlines ((tokenize source).map (Token.entry source)))
      (tokenize source).length := by
  have turn (t : Token) (count : Nat) :
      Writes (do listToken source t; return ForInStep.yield (count + 1))
        (t.entry source ++ "\n") (.yield (count + 1)) := by
    apply ((writes_listToken source t).andThen (.pure _)).of_eq
    exact String.append_empty
  have written := (Writes.forIn turn (tokenize source) 0).bind (.pure _)
  rw [String.append_empty, List.foldl_add_const, Nat.one_mul, Nat.zero_add] at written
  apply written.of_eq
  rw [unlines, List.map_map]
  rfl

end Writing

/-- Tokens are listed line by line: there are as many newlines as tokens, the last of them at the
end, and each line is what is listed of its token, whatever that covers. -/
theorem tokens_listed_by_line (source : String) (stored : Array UInt8) :
    ∃ text, listTokens source ⟨none, stored⟩ =
        (.ok (tokenize source).length, ⟨none, stored ++ ofText text⟩) ∧
      Byte.newlines (ofText text) = (tokenize source).length ∧
      (text ≠ "" → (ofText text).getLast? = some Byte.newline) ∧
      Text.lines text.toList = (tokenize source).map fun t => (t.entry source).toList := by
  have hu : ∀ line ∈ (tokenize source).map (Token.entry source), Unbroken line := by
    intro line hl
    obtain ⟨t, -, rfl⟩ := List.mem_map.mp hl
    exact t.unbroken_entry source
  refine ⟨unlines ((tokenize source).map (Token.entry source)), ?_, ?_, fun hn => ?_, ?_⟩
  · exact (Writing.writes_listTokens source).unlimited stored
  · rw [Text.newlines_unlines hu, List.length_map]
  · refine Text.getLast?_unlines fun hz => hn ?_
    rw [hz]
    rfl
  · rw [Text.lines_unlines hu, List.map_map]
    rfl

/-- A comment that is never closed goes on for two lines and is listed in one. -/
example :
    (tokenize "/*\n\"").map (Token.entry "/*\n\"") =
      ["   1  LexError(BlockCommentNoEnd) 0..4       " ++
        "\"/*\\n\\\"\" (unterminated block comment)"] := by
  decide +kernel

end StaticAssert
