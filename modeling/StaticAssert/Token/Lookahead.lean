import StaticAssert.Token.Scanner

/-!
# Looking ahead

Tokens are taken from a scanner one at a time and handed out in order. The next one can
be looked at before it is taken; what is scanned and not yet handed out waits in a ring
of eight slots, of which a look ahead fills at most one.
-/

set_option autoImplicit false

namespace StaticAssert

structure Lookahead where
  scanner : Scanner
  slots : Vector Token 8
  /-- The slot of the next token. -/
  head : Fin 8
  /-- How many scanned tokens wait. -/
  buffered : Nat

namespace Lookahead

def capacity : Nat := 8

def ofScanner (s : Scanner) : Lookahead :=
  ⟨s, Vector.replicate 8 (.unplaced .eof), 0, 0⟩

def slot (l : Lookahead) (offset : Nat) : Fin 8 := l.head + Fin.ofNat 8 offset

def scan (l : Lookahead) : Lookahead :=
  let next := l.scanner.next
  { l with
    scanner := next.2
    slots := l.slots.set (l.slot l.buffered) next.1
    buffered := l.buffered + 1 }

def fill (l : Lookahead) : Lookahead := if l.buffered = 0 then l.scan else l

def peek (l : Lookahead) : Token × Lookahead := (l.fill.slots[l.fill.head], l.fill)

def advance (l : Lookahead) : Token × Lookahead :=
  (l.peek.1, { l.fill with head := l.fill.head + 1, buffered := l.fill.buffered - 1 })

def eat (l : Lookahead) (kind : Kind) : Option Token × Lookahead :=
  if l.peek.1.kind = kind then (some l.advance.1, l.advance.2) else (none, l.fill)

def waiting (l : Lookahead) : List Token :=
  (List.range l.buffered).map fun offset => l.slots[l.slot offset]

def remaining (l : Lookahead) : Nat :=
  l.waiting.countP (!·.isEof) + l.scanner.cursor.remaining

theorem fill_of_empty {l : Lookahead} (h : l.buffered = 0) : l.fill = l.scan := if_pos h

theorem fill_of_buffered {l : Lookahead} (h : l.buffered ≠ 0) : l.fill = l := if_neg h

theorem fill_buffered_pos (l : Lookahead) : 0 < l.fill.buffered := by
  by_cases h : l.buffered = 0
  · simp [fill_of_empty h, scan]
  · rw [fill_of_buffered h]
    omega

@[simp] theorem fill_fill (l : Lookahead) : l.fill.fill = l.fill :=
  fill_of_buffered (Nat.pos_iff_ne_zero.mp l.fill_buffered_pos)

theorem waiting_of_empty {l : Lookahead} (h : l.buffered = 0) : l.waiting = [] := by
  simp [waiting, h]

theorem waiting_fill_of_empty {l : Lookahead} (h : l.buffered = 0) :
    l.fill.waiting = [l.scanner.next.1] := by
  simp [fill_of_empty h, waiting, scan, slot, h]

theorem waiting_fill (l : Lookahead) : l.fill.waiting = l.peek.1 :: l.advance.2.waiting := by
  obtain ⟨n, hn⟩ : ∃ n, l.fill.buffered = n + 1 :=
    ⟨l.fill.buffered - 1, by have := l.fill_buffered_pos; omega⟩
  have hs (offset : Nat) : l.fill.slot (offset + 1) = l.fill.head + 1 + Fin.ofNat 8 offset := by
    ext
    simp only [slot, Fin.val_add, Fin.val_ofNat]
    omega
  simp only [waiting, hn, advance, peek, List.range_succ_eq_map, List.map_cons, List.map_map]
  congr 1
  · simp [slot]
  · apply List.map_congr_left
    intro offset _
    simp only [Function.comp_apply, Nat.succ_eq_add_one, hs]
    rfl

theorem scanner_advance (l : Lookahead) : l.advance.2.scanner = l.fill.scanner := rfl

theorem remaining_fill_le (l : Lookahead) : l.fill.remaining ≤ l.remaining := by
  by_cases h : l.buffered = 0
  · have hs : l.fill.scanner = l.scanner.next.2 := by rw [fill_of_empty h]; rfl
    simp only [remaining, waiting_of_empty h, waiting_fill_of_empty h, hs, List.countP_nil]
    by_cases he : l.scanner.next.1.isEof
    · have := Scanner.remaining_next_le l.scanner
      simp only [List.countP_cons, List.countP_nil, he, Bool.not_true, Bool.false_eq_true,
        ↓reduceIte]
      omega
    · have := Scanner.remaining_next_lt (Bool.eq_false_iff.mpr he)
      simp only [List.countP_cons, List.countP_nil, Bool.eq_false_iff.mpr he, Bool.not_false,
        ↓reduceIte]
      omega
  · exact Nat.le_of_eq (congrArg remaining (fill_of_buffered h))

theorem remaining_advance_le (l : Lookahead) : l.advance.2.remaining ≤ l.remaining := by
  refine Nat.le_trans ?_ l.remaining_fill_le
  simp only [remaining, waiting_fill, List.countP_cons, scanner_advance]
  omega

/-- Taking a token, unless it is the end of input, brings the end nearer. -/
theorem remaining_advance_lt {l : Lookahead} (h : l.peek.1.isEof = false) :
    l.advance.2.remaining < l.remaining := by
  refine Nat.lt_of_lt_of_le ?_ l.remaining_fill_le
  simp only [remaining, waiting_fill, List.countP_cons, scanner_advance, h]
  simp

end Lookahead
end StaticAssert
