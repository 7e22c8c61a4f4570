import Mathlib.Data.Stream.Init
import StaticAssert.Compile.Parser

/-!
# The tokens to come

A scanner never runs dry: after its last token it gives the end of input again and
again, so what it gives is an infinite stream. A lookahead hands the same stream out.
Looking at its head changes nothing and taking it leaves the tail, wherever the
scanned tokens wait in the ring; all that is proved about parsing is said of this
stream. The line of each token counts the newlines before it, from wherever counting
began.
-/

set_option autoImplicit false

namespace StaticAssert

open scoped Stream'

namespace Span

def slice (s : Span) (bytes : List UInt8) : List UInt8 := (bytes.drop s.start).take s.length

theorem slice_append (before text after : List UInt8) :
    slice ⟨before.length, before.length + text.length⟩ (before ++ (text ++ after)) = text := by
  simp [slice, length]

theorem slice_self (n : Nat) (bytes : List UInt8) : slice ⟨n, n⟩ bytes = [] := by
  simp [slice, length]

theorem slice_zero (n : Nat) (bytes : List UInt8) : slice ⟨0, n⟩ bytes = bytes.take n := by
  simp [slice, length]

theorem slice_add {start stop : Nat} (h : start ≤ stop) (n : Nat) (bytes : List UInt8) :
    slice ⟨start, stop + n⟩ bytes = slice ⟨start, stop⟩ bytes ++ (bytes.drop stop).take n := by
  have hn : stop + n - start = stop - start + n := by omega
  simp only [slice, length, hn, List.take_add, List.drop_drop, Nat.add_sub_of_le h]

theorem take_eq_append_slice {start stop : Nat} (h : start ≤ stop) (bytes : List UInt8) :
    bytes.take stop = bytes.take start ++ slice ⟨start, stop⟩ bytes := by
  rw [← List.take_append_drop start (bytes.take stop), List.take_take, Nat.min_eq_left h,
    List.drop_take]
  rfl

theorem slice_sublist (s : Span) (bytes : List UInt8) : (s.slice bytes).Sublist bytes :=
  (List.take_sublist _ _).trans (List.drop_sublist _ _)

end Span

namespace Scanner

def stream (s : Scanner) : Stream' Token := Stream'.corec (·.next.1) (·.next.2) s

theorem stream_eq (s : Scanner) : s.stream = Stream'.cons s.next.1 s.next.2.stream :=
  Stream'.corec_eq _ _ _

/-- What holds of every next token, as long as something of the scanner is kept, holds of all
tokens of the stream. -/
theorem forall_mem_stream {P : Scanner → Prop} {Q : Token → Prop}
    (next : ∀ s, P s → Q s.next.1 ∧ P s.next.2) {s : Scanner} (h : P s) :
    ∀ t ∈ s.stream, Q t := by
  rintro t ⟨n, hn⟩
  change t = s.stream.get n at hn
  induction n generalizing s with
  | zero =>
    rw [stream_eq, Stream'.get_zero_cons] at hn
    rw [hn]
    exact (next s h).1
  | succ n ih =>
    rw [stream_eq, Stream'.get_succ_cons] at hn
    exact ih (next s h).2 hn

structure CountsFrom (place : Snapshot) (s : Scanner) : Prop where
  -- The line has been counted from a place on.
  behind : place.position ≤ s.position
  line : s.line =
    lineAfter place.line (Span.slice ⟨place.position, s.position⟩ s.cursor.buffer.bytes)

variable {s : Scanner} {place : Snapshot}

theorem countsFrom_snapshot (s : Scanner) : CountsFrom s.snapshot s where
  behind := Nat.le_refl _
  line := by
    rw [show (⟨s.snapshot.position, s.position⟩ : Span) = ⟨s.position, s.position⟩ from rfl,
      Span.slice_self, lineAfter_nil]
    rfl

theorem CountsFrom.advance (h : s.CountsFrom place) (n : Nat) : (s.advance n).CountsFrom place where
  behind := Nat.le_trans h.behind (Nat.le_add_right _ _)
  line := by
    show lineAfter s.line (s.cursor.rest.take n) =
      lineAfter place.line (Span.slice ⟨place.position, s.position + n⟩ s.cursor.buffer.bytes)
    rw [Span.slice_add h.behind, lineAfter_append, ← h.line]
    rfl

theorem CountsFrom.next (h : s.CountsFrom place) : s.next.2.CountsFrom place :=
  (h.advance _).advance _

theorem buffer_next (s : Scanner) : s.next.2.cursor.buffer = s.cursor.buffer := rfl

/-- Every token of the stream stands on the line that the bytes before it give. -/
theorem line_of_mem_stream (h : s.CountsFrom place) {t : Token} (ht : t ∈ s.stream) :
    place.position ≤ t.span.start ∧
      t.line = (lineAfter place.line
        (Span.slice ⟨place.position, t.span.start⟩ s.cursor.buffer.bytes)).toNat := by
  refine forall_mem_stream
    (P := fun s' => s'.CountsFrom place ∧ s'.cursor.buffer = s.cursor.buffer)
    (Q := fun t => place.position ≤ t.span.start ∧ t.line = (lineAfter place.line
      (Span.slice ⟨place.position, t.span.start⟩ s.cursor.buffer.bytes)).toNat)
    ?_ ⟨h, rfl⟩ t ht
  rintro s' ⟨h', hb⟩
  have hs : s'.skip.CountsFrom place := h'.advance _
  refine ⟨?_, h'.next, hb⟩
  rw [← hb]
  exact ⟨hs.behind, congrArg UInt32.toNat hs.line⟩

theorem line_of_mem_stream_of_lt (h : s.CountsFrom place)
    (hn : place.line.toNat + Byte.newlines (s.cursor.buffer.bytes.drop place.position) < 4294967296)
    {t : Token} (ht : t ∈ s.stream) :
    t.line = place.line.toNat +
      Byte.newlines (Span.slice ⟨place.position, t.span.start⟩ s.cursor.buffer.bytes) := by
  have hc : Byte.newlines (Span.slice ⟨place.position, t.span.start⟩ s.cursor.buffer.bytes) ≤
      Byte.newlines (s.cursor.buffer.bytes.drop place.position) :=
    (List.take_sublist _ _).count_le _
  rw [(line_of_mem_stream h ht).2, toNat_lineAfter (by omega)]

end Scanner

namespace Lookahead

def upcoming (l : Lookahead) : Stream' Token := l.waiting ++ₛ l.scanner.stream

@[simp] theorem upcoming_ofScanner (s : Scanner) : (ofScanner s).upcoming = s.stream := by
  rw [upcoming, waiting_of_empty rfl]
  rfl

@[simp] theorem upcoming_fill (l : Lookahead) : l.fill.upcoming = l.upcoming := by
  by_cases h : l.buffered = 0
  · have hs : l.fill.scanner = l.scanner.next.2 := by rw [fill_of_empty h]; rfl
    rw [upcoming, upcoming, waiting_fill_of_empty h, waiting_of_empty h, hs,
      Stream'.nil_append_stream, l.scanner.stream_eq]
    rfl
  · rw [fill_of_buffered h]

theorem upcoming_eq (l : Lookahead) :
    l.upcoming = Stream'.cons l.peek.1 l.advance.2.upcoming := by
  rw [← upcoming_fill, upcoming, waiting_fill]
  rfl

theorem peek_fst (l : Lookahead) : l.peek.1 = l.upcoming.head := by
  rw [upcoming_eq]
  rfl

theorem advance_fst (l : Lookahead) : l.advance.1 = l.upcoming.head := l.peek_fst

@[simp] theorem upcoming_advance (l : Lookahead) : l.advance.2.upcoming = l.upcoming.tail := by
  rw [l.upcoming_eq]
  rfl

theorem upcoming_of_head {l : Lookahead} {t : Token} (h : l.upcoming.head = t) :
    l.upcoming = [t] ++ₛ l.advance.2.upcoming := by
  rw [upcoming_advance, ← h]
  exact (Stream'.eta l.upcoming).symm

theorem eat_of_eq {l : Lookahead} {kind : Kind} (h : l.upcoming.head.kind = kind) :
    l.eat kind = (some l.upcoming.head, l.advance.2) := by
  rw [eat, peek_fst, if_pos h, advance_fst]

theorem eat_of_ne {l : Lookahead} {kind : Kind} (h : l.upcoming.head.kind ≠ kind) :
    l.eat kind = (none, l.fill) := by
  rw [eat, peek_fst, if_neg h]

end Lookahead

namespace Parser

def upcoming (p : Parser) : Stream' Token := p.tokens.upcoming

theorem peek_fst (p : Parser) : p.peek.1 = p.upcoming.head := p.tokens.peek_fst

theorem take_fst (p : Parser) : p.take.1 = p.upcoming.head := p.tokens.peek_fst

end Parser
end StaticAssert
