import StaticAssert.Text.Column
import StaticAssert.Text.Printable

/-!
# Quoted text

A quoted text stands between double quotes on one line, whatever it contains. The
usual controls have short escapes, the quote and the backslash are escaped by a
backslash, and any other character that cannot be shown is written by its code
point in braces.
-/

set_option autoImplicit false

namespace StaticAssert
namespace Quoted

def escape (c : Char) : String :=
  if c = '\x00' then "\\0"
  else if c = '\t' then "\\t"
  else if c = '\r' then "\\r"
  else if c = '\n' then "\\n"
  else if c = '"' then "\\\""
  else if c = '\\' then "\\\\"
  else if Printable.isShown c then String.singleton c
  else "\\u\x7b" ++ Hex.lower c.toNat ++ "\x7d"

def encode (cs : List Char) : String :=
  cs.foldr (fun c text => escape c ++ text) "\""

def quote (text : String) : String := "\"" ++ encode text.toList

end Quoted

end StaticAssert
