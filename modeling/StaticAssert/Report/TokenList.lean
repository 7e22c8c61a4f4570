import StaticAssert.Report.Writer
import StaticAssert.Text.Quoted
import StaticAssert.Text.Slice
import StaticAssert.Token.Scanner

/-!
# Listing tokens

One line per token: its line number, kind, span and quoted text in columns, then the
value of a number or the message of a lexical error. A span that cuts a character shows
no text.
-/

set_option autoImplicit false

namespace StaticAssert
namespace Writing

def listRemark (t : Token) : Writing Unit :=
  match t.kind with
  | .number n => writeAll [" = ", n.spelling, " (", n.builtin.name, ")"]
  | .lexError e => writeAll [" (", e.message, ")"]
  | .eof | .name | .punct _ | .keyword _ => return

def listToken (source : String) (t : Token) : Writing Unit := do
  writeAll [Column.alignRight 4 (Nat.repr t.line), "  ", Column.alignLeft 24 t.kind.label, " ",
    Column.alignLeft 10 t.span.text, " ", Quoted.quote ((Text.slice? source t.span).getD "")]
  listRemark t
  writeAll ["\n"]

end Writing

def listTokens (source : String) : Writing Nat := do
  let mut count := 0
  for t in tokenize source do
    Writing.listToken source t
    count := count + 1
  return count

end StaticAssert
