import StaticAssert.Source.Cursor
import StaticAssert.Token.Basic
import StaticAssert.Token.Lexeme

/-!
# Scanning

A scanner is a cursor that knows its line. Taking the next token skips what stands
before it, reads one lexeme and moves past it; lines are counted from the newlines
passed on the way, so a token that spans lines carries the line of its first byte. At
the end of the source the scanner stays where it is and keeps answering with the end of
input. A place can be remembered and returned to, also by a scanner over another source.
Lines are counted in 32 bits, and behind the last of them counting begins again at zero.
-/

set_option autoImplicit false

namespace StaticAssert

def lineAfter (line : UInt32) (bytes : List UInt8) : UInt32 :=
  line + .ofNat (Byte.newlines bytes)

@[simp] theorem lineAfter_nil (line : UInt32) : lineAfter line [] = line := UInt32.add_zero line

theorem lineAfter_append (line : UInt32) (xs ys : List UInt8) :
    lineAfter line (xs ++ ys) = lineAfter (lineAfter line xs) ys := by
  rw [lineAfter, Byte.newlines_append, UInt32.ofNat_add, ← UInt32.add_assoc]
  rfl

theorem lineAfter_of_newlines {bytes : List UInt8} (h : Byte.newlines bytes = 0)
    (line : UInt32) : lineAfter line bytes = line := by
  rw [lineAfter, h]
  exact UInt32.add_zero line

theorem toNat_lineAfter {line : UInt32} {bytes : List UInt8}
    (h : line.toNat + Byte.newlines bytes < 4294967296) :
    (lineAfter line bytes).toNat = line.toNat + Byte.newlines bytes := by
  rw [lineAfter, UInt32.toNat_add, UInt32.toNat_ofNat', Nat.add_mod_mod, Nat.mod_eq_of_lt h]

structure Scanner where
  cursor : Cursor
  line : UInt32
  deriving DecidableEq

structure Snapshot where
  position : Nat
  line : UInt32
  deriving DecidableEq

namespace Scanner

def start (cursor : Cursor) : Scanner := ⟨cursor, 1⟩

def ofBytes (bytes : List UInt8) : Scanner := start (Buffer.ofBytes bytes).cursor

def ofText (text : String) : Scanner := ofBytes (Byte.ofText text)

def position (s : Scanner) : Nat := s.cursor.position

def snapshot (s : Scanner) : Snapshot := ⟨s.cursor.position, s.line⟩

def restore (s : Scanner) (place : Snapshot) : Scanner :=
  ⟨s.cursor.buffer.cursorAt place.position, place.line⟩

def advance (s : Scanner) (n : Nat) : Scanner :=
  ⟨s.cursor.advance n, lineAfter s.line (s.cursor.rest.take n)⟩

def skip (s : Scanner) : Scanner := s.advance (Trivia.length s.cursor.rest)

def lexeme (s : Scanner) : Lexeme := Lexeme.read s.cursor.rest

def next (s : Scanner) : Token × Scanner :=
  let first := s.skip
  let lexeme := first.lexeme
  let last := first.advance lexeme.length
  (⟨lexeme.kind, first.line.toNat, ⟨first.position, last.position⟩⟩, last)

theorem next_fst (s : Scanner) :
    s.next.1 = ⟨s.skip.lexeme.kind, s.skip.line.toNat,
      ⟨s.skip.position, s.skip.position + s.skip.lexeme.length⟩⟩ := rfl

theorem next_snd (s : Scanner) : s.next.2 = s.skip.advance s.skip.lexeme.length := rfl

@[simp] theorem cursor_advance (s : Scanner) (n : Nat) :
    (s.advance n).cursor = s.cursor.advance n := rfl

/-- Only the end of input leaves the scanner with as many bytes as before. -/
theorem remaining_next_lt {s : Scanner} (h : s.next.1.isEof = false) :
    s.next.2.cursor.remaining < s.cursor.remaining := by
  have hk : s.skip.lexeme.kind ≠ .eof := by
    intro hk
    simp [Token.isEof, next_fst, hk] at h
  have hne : s.skip.cursor.rest ≠ [] := fun he => hk (Lexeme.read_kind_eq_eof_iff.mpr he)
  obtain ⟨b, rest, hc⟩ := List.exists_cons_of_ne_nil hne
  have hb := (Lexeme.read_length_bounds b rest).1
  have hr : s.skip.cursor.remaining = rest.length + 1 := by
    rw [← Cursor.length_rest, hc, List.length_cons]
  have hl : s.skip.lexeme.length = (Lexeme.read (b :: rest)).length := by rw [lexeme, hc]
  have hs : s.skip.cursor.remaining = s.cursor.remaining - Trivia.length s.cursor.rest :=
    Cursor.remaining_advance _ _
  rw [next_snd, cursor_advance, Cursor.remaining_advance]
  omega

theorem remaining_next_le (s : Scanner) :
    s.next.2.cursor.remaining ≤ s.cursor.remaining := by
  rw [next_snd, cursor_advance, Cursor.remaining_advance, skip, cursor_advance,
    Cursor.remaining_advance]
  omega

def tokens (s : Scanner) : List Token :=
  if _more : s.next.1.isEof = false then s.next.1 :: s.next.2.tokens else []
termination_by s.cursor.remaining
decreasing_by exact remaining_next_lt _more

def drained (s : Scanner) : Scanner :=
  if _more : s.next.1.isEof = false then s.next.2.drained else s.next.2
termination_by s.cursor.remaining
decreasing_by exact remaining_next_lt _more

end Scanner

def tokenize (text : String) : List Token := (Scanner.ofText text).tokens

end StaticAssert
