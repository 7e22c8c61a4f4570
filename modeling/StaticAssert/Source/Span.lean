/-!
# Byte ranges

A span is a half-open range of byte offsets in a source text. Spans of tokens
are ordered; a span handed in from outside need not be, so nothing here assumes
`start ≤ stop`. Merging covers both ranges and fills the gap between them.
-/

set_option autoImplicit false

namespace StaticAssert

structure Span where
  start : Nat
  stop : Nat
  deriving DecidableEq

namespace Span

def unplaced : Span := ⟨0, 0⟩

def length (s : Span) : Nat := s.stop - s.start

def isEmpty (s : Span) : Bool := s.start == s.stop

def merge (s t : Span) : Span := ⟨min s.start t.start, max s.stop t.stop⟩

def text (s : Span) : String := Nat.repr s.start ++ ".." ++ Nat.repr s.stop

end Span
end StaticAssert
