import StaticAssert.Source.Buffer

/-!
# Reading positions

A cursor is an offset into a padded buffer. Reads and searches are checked: they
give `none` when they would look outside the padding or cut the source at an
impossible place. Moving is never checked, so a cursor may stand past the end of
the source; `rest` is what still lies before it, and every reading law is stated
over it.
-/

set_option autoImplicit false

namespace StaticAssert

structure Cursor where
  buffer : Buffer
  position : Nat
  deriving DecidableEq

structure CommentEnd where
  terminated : Bool
  newlines : Nat
  deriving DecidableEq

namespace Buffer

def cursor (b : Buffer) : Cursor := ⟨b, 0⟩

def cursorAt (b : Buffer) (offset : Nat) : Cursor := ⟨b, min offset b.size⟩

end Buffer

namespace Cursor

def rest (c : Cursor) : List UInt8 := c.buffer.bytes.drop c.position

def remaining (c : Cursor) : Nat := c.buffer.size - c.position

def atEnd (c : Cursor) : Bool := c.buffer.size ≤ c.position

def advance (c : Cursor) (n : Nat) : Cursor := { c with position := c.position + n }

def moveToEnd (c : Cursor) : Cursor := { c with position := c.buffer.size }

def current? (c : Cursor) : Option UInt8 := c.buffer.read? c.position

def peek? (c : Cursor) : Option UInt8 := c.buffer.read? (c.position + 1)

def previous? (c : Cursor) : Option UInt8 :=
  if c.position = 0 then none else c.buffer.read? (c.position - 1)

def slice? (c : Cursor) (start stop : Nat) : Option (List UInt8) :=
  if start ≤ stop ∧ stop ≤ c.buffer.size then
    some ((c.buffer.bytes.drop start).take (stop - start))
  else none

def sliceFrom? (c : Cursor) (start : Nat) : Option (List UInt8) := c.slice? start c.position

def eatWhile? (c : Cursor) (p : UInt8 → Bool) : Option Cursor :=
  let run := ((c.buffer.padded.drop c.position).takeWhile p).length
  if c.position + run < c.buffer.paddedSize then some (c.advance run) else none

def eatLine? (c : Cursor) : Option Cursor :=
  if c.position ≤ c.buffer.size then
    some (c.advance (c.rest.takeWhile (· != Byte.newline)).length)
  else none

def closeComment? (c : Cursor) (newlines : Nat) : Option (CommentEnd × Cursor) :=
  -- Look for the slash that closes a comment, counting newlines on the way. The search stops at
  -- newlines and slashes only; a slash closes if the byte before it is a star.
  match _found : c.rest.findIdx? (fun b => b == Byte.newline || b == Byte.slash) with
  | none => some (⟨false, newlines⟩, c.moveToEnd)
  | some offset =>
    let found := c.advance offset
    match found.current?, found.previous? with
    | some byte, some before =>
      if byte == Byte.newline then (found.advance 1).closeComment? (newlines + 1)
      else if before == Byte.star then some (⟨true, newlines⟩, found.advance 1)
      else (found.advance 1).closeComment? newlines
    | _, _ => none
termination_by c.remaining
decreasing_by
  all_goals
    have ho := (List.findIdx?_eq_some_iff_findIdx_eq.mp _found).1
    simp only [rest, List.length_drop] at ho
    simp only [remaining, advance, Buffer.size]
    omega

def eatBlockComment? (c : Cursor) : Option (CommentEnd × Cursor) :=
  if c.position ≤ c.buffer.size then
    (if c.rest.head? == some Byte.slash then c.advance 1 else c).closeComment? 0
  else none

@[simp] theorem length_rest (c : Cursor) : c.rest.length = c.remaining := by
  simp [rest, remaining, Buffer.size]

@[simp] theorem rest_advance (c : Cursor) (n : Nat) :
    (c.advance n).rest = c.rest.drop n := by
  simp [rest, advance]

theorem remaining_advance (c : Cursor) (n : Nat) :
    (c.advance n).remaining = c.remaining - n := by
  simp [remaining, advance, Nat.sub_sub]

/-- Within the source and at its end, the current byte is the head of the rest, or zero. -/
theorem current?_eq (c : Cursor) (h : c.position ≤ c.buffer.size) :
    c.current? = some (c.rest.head?.getD 0) := by
  have hp := c.buffer.size_lt_paddedSize
  simp only [current?, Buffer.read?, rest, List.head?_drop]
  rw [if_pos (by omega)]

end Cursor
end StaticAssert
