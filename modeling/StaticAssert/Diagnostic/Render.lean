import StaticAssert.Diagnostic.Basic
import StaticAssert.Text.Slice
import StaticAssert.Text.Words

/-!
# How diagnostics look

A style has a terminal sequence that begins it, and all styles have one that ends them.
What a diagnostic quotes of a source is the words under its span, on one line.
-/

set_option autoImplicit false

namespace StaticAssert

inductive Style where
  | error
  | bold
  | secondary
  deriving DecidableEq

namespace Style

def sequence : Style → String
  | .error => "\x1b[1;31m"
  | .bold => "\x1b[1m"
  | .secondary => "\x1b[1;34m"

def reset : String := "\x1b[0m"

end Style

inductive ColourMode where
  | auto
  | always
  | never
  deriving DecidableEq

def ColourMode.colours (mode : ColourMode) (terminal : Bool) : Bool :=
  match mode with
  | .auto => terminal
  | .always => true
  | .never => false

namespace Diagnostic

def excerpt? (d : Diagnostic) (source : String) : Option String :=
  if d.span.isEmpty then none
  else (Text.sliceChars? source.toList d.span).map fun cs => String.ofList (Text.oneLine cs)

end Diagnostic
end StaticAssert
