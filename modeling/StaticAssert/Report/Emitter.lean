import StaticAssert.Diagnostic.Render
import StaticAssert.Report.Writer

/-!
# Writing diagnostics

A diagnostic takes two lines, and a third that quotes the source if its span selects some.
An error that has no place takes one line, and so does the summary, unless there is nothing
to sum up. Where colours are on, the marks stand between terminal sequences.
-/

set_option autoImplicit false

namespace StaticAssert
namespace Writing

def writeColoured (colours : Bool) (style : Style) (text : String) : Writing Unit :=
  if colours then writeAll [style.sequence, text, Style.reset] else writeAll [text]

def emit (colours : Bool) (source : String) (d : Diagnostic) : Writing Unit := do
  writeColoured colours .error "error"
  writeColoured colours .bold ("[" ++ d.issue.code ++ "]")
  writeAll [": ", d.issue.title]
  d.detail?.forM fun detail => writeAll [": ", detail.shown]
  writeAll ["\n"]
  writeAll ["  "]
  writeColoured colours .secondary "-->"
  writeAll [" line ", Nat.repr d.line, "\n"]
  (d.excerpt? source).forM fun text => writeAll ["   = source: `", text, "`\n"]

def emitAll (colours : Bool) (source : String) (ds : List Diagnostic) : Writing Unit := do
  for d in ds do
    emit colours source d

def emitError (colours : Bool) (message : String) : Writing Unit := do
  writeColoured colours .error "error"
  writeAll [": ", message, "\n"]

def emitSummary (colours : Bool) (count : Nat) : Writing Unit := do
  if count = 0 then
    return
  writeColoured colours .error "error"
  if count = 1 then
    writeAll [": aborting due to previous error\n"]
  else
    writeAll [": aborting due to ", Nat.repr count, " previous errors\n"]

end Writing
end StaticAssert
