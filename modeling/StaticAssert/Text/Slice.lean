import StaticAssert.Source.Span

/-!
# Text under a span

Spans count bytes of the UTF-8 form. A span selects text only if it runs forward,
ends inside the text, and both its ends fall between characters; otherwise there is
nothing to select.
-/

set_option autoImplicit false

namespace StaticAssert
namespace Text

def dropBytes? : List Char → Nat → Option (List Char)
  | cs, 0 => some cs
  | [], _ + 1 => none
  | c :: cs, n + 1 => if c.utf8Size ≤ n + 1 then dropBytes? cs (n + 1 - c.utf8Size) else none

def takeBytes? : List Char → Nat → Option (List Char)
  | _, 0 => some []
  | [], _ + 1 => none
  | c :: cs, n + 1 =>
    if c.utf8Size ≤ n + 1 then (takeBytes? cs (n + 1 - c.utf8Size)).map (c :: ·) else none

def sliceChars? (cs : List Char) (span : Span) : Option (List Char) :=
  if span.start ≤ span.stop then
    (dropBytes? cs span.start).bind (takeBytes? · (span.stop - span.start))
  else none

def slice? (text : String) (span : Span) : Option String :=
  (sliceChars? text.toList span).map String.ofList

end Text
end StaticAssert
