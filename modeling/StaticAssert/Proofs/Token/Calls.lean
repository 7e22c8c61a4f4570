import StaticAssert.Proofs.Token.Turns

/-!
# Calls in a row

What the checked scanner returns when it is called again and again, past the end of its
source too. No call fails, and the calls return what the scanner over the bytes that are
left gives. With few enough newlines no line begins again at zero: the line of a token is
one more than the newlines before its first byte, and that of the scanner one more than
the newlines behind it.
-/

set_option autoImplicit false

namespace StaticAssert
namespace Scanner

variable {s : Scanner} {place : Snapshot} {counting : Counting}

def calls? (counting : Counting) : Nat → Scanner → Option (List Token × Scanner)
  | 0, s => some ([], s)
  | n + 1, s => do
    let next ← s.next? counting
    let more ← calls? counting n next.2
    some (next.1 :: more.1, more.2)

def calls : Nat → Scanner → List Token × Scanner
  | 0, s => ([], s)
  | n + 1, s => (s.next.1 :: (calls n s.next.2).1, (calls n s.next.2).2)

theorem calls?_eq (h : s.InSource) (hroom : Room counting s) (n : Nat) :
    calls? counting n s = some (calls n s) := by
  induction n generalizing s with
  | zero => rfl
  | succ n ih =>
    rw [calls?, next?_eq h hroom, Option.bind_eq_bind, Option.bind_some,
      ih (inSource_next h) hroom.next]
    rfl

theorem inSource_calls (h : s.InSource) (n : Nat) : (calls n s).2.InSource := by
  induction n generalizing s with
  | zero => exact h
  | succ n ih => exact ih (inSource_next h)

theorem buffer_calls (s : Scanner) (n : Nat) :
    (calls n s).2.cursor.buffer = s.cursor.buffer := by
  induction n generalizing s with
  | zero => rfl
  | succ n ih => rw [calls, ih, buffer_next]

theorem length_calls (s : Scanner) (n : Nat) : (calls n s).1.length = n := by
  induction n generalizing s with
  | zero => rfl
  | succ n ih => rw [calls, List.length_cons, ih]

theorem calls_add (s : Scanner) (k n : Nat) :
    calls (k + n) s =
      ((calls k s).1 ++ (calls n (calls k s).2).1, (calls n (calls k s).2).2) := by
  induction k generalizing s with
  | zero => rw [Nat.zero_add]; rfl
  | succ k ih =>
    rw [Nat.succ_add, calls, ih]
    rfl

theorem take_stream (s : Scanner) (n : Nat) : s.stream.take n = (calls n s).1 := by
  induction n generalizing s with
  | zero => rfl
  | succ n ih => rw [stream_eq, Stream'.take_succ_cons, ih, calls]

theorem drop_stream (s : Scanner) (n : Nat) : s.stream.drop n = (calls n s).2.stream := by
  induction n generalizing s with
  | zero => rfl
  | succ n ih => rw [Stream'.drop_succ, stream_eq, Stream'.tail_cons, ih, calls]

theorem CountsFrom.calls (h : s.CountsFrom place) (n : Nat) :
    (calls n s).2.CountsFrom place := by
  induction n generalizing s with
  | zero => exact h
  | succ n ih => exact ih h.next

theorem Room.calls (h : Room counting s) (n : Nat) : Room counting (calls n s).2 := by
  induction n generalizing s with
  | zero => exact h
  | succ n ih => exact ih h.next

theorem mem_stream_of_mem_calls {n : Nat} {t : Token} (ht : t ∈ (calls n s).1) :
    t ∈ s.stream := by
  induction n generalizing s with
  | zero => cases ht
  | succ n ih =>
    rw [stream_eq]
    rcases List.mem_cons.mp ht with rfl | ht
    · exact Stream'.mem_cons _ _
    · exact Stream'.mem_cons_of_mem _ (ih ht)

section Lines

variable {text : String}

theorem room_start (h : counting = .wrapping ∨
    Byte.newlines (Buffer.ofText text).bytes < 2 ^ 32 - 1) (offset : Nat) :
    Room counting (start ((Buffer.ofText text).cursorAt offset)) := by
  refine h.imp_right fun h => ?_
  have hr : Byte.newlines (start ((Buffer.ofText text).cursorAt offset)).cursor.rest ≤
      Byte.newlines (Buffer.ofText text).bytes :=
    (List.drop_sublist _ _).count_le _
  show 1 + Byte.newlines (start ((Buffer.ofText text).cursorAt offset)).cursor.rest < 2 ^ 32
  omega

theorem newlines_ofText_le (text : String) :
    Byte.newlines (Buffer.ofText text).bytes ≤ Byte.newlines (Byte.ofText text) :=
  (Buffer.isPrefix_ofText text).sublist.count_le _

theorem toNat_lineAfter_take (h : Byte.newlines (Byte.ofText text) < 2 ^ 32 - 1) {position : Nat}
    (hp : position ≤ (Buffer.ofText text).size) :
    (lineAfter 1 (Span.slice ⟨0, position⟩ (Buffer.ofText text).bytes)).toNat =
      1 + Byte.newlines ((Byte.ofText text).take position) ∧
    1 + Byte.newlines ((Byte.ofText text).take position) < 2 ^ 32 := by
  have hn : Byte.newlines ((Byte.ofText text).take position) ≤ Byte.newlines (Byte.ofText text) :=
    (List.take_sublist _ _).count_le _
  have hone : (1 : UInt32).toNat = 1 := rfl
  rw [Span.slice_zero, Buffer.take_ofText hp, toNat_lineAfter (by omega), hone]
  exact ⟨rfl, by omega⟩

end Lines

/-- Every call returns a token with the line of its first byte and leaves the scanner on the line
of the byte that comes next. -/
theorem line_of_calls (text : String) (h : Byte.newlines (Byte.ofText text) < 2 ^ 32 - 1)
    (counting : Counting) (n : Nat) :
    ∃ tokens last, calls? counting n (ofText text) = some (tokens, last) ∧ tokens.length = n ∧
      (∀ t ∈ tokens, t.line = 1 + Byte.newlines ((Byte.ofText text).take t.span.start) ∧
        t.line < 2 ^ 32) ∧
      last.snapshot.line.toNat =
        1 + Byte.newlines ((Byte.ofText text).take last.snapshot.position) ∧
      last.snapshot.line.toNat < 2 ^ 32 := by
  have hs : (ofText text).InSource := Nat.zero_le _
  have hroom : Room counting (ofText text) := by
    have hn := newlines_ofText_le text
    exact room_start (.inr (by omega)) 0
  have hc : (ofText text).CountsFrom ⟨0, 1⟩ := countsFrom_snapshot (ofText text)
  refine ⟨_, _, calls?_eq hs hroom n, length_calls _ n, fun t ht => ?_, ?_⟩
  · have hm := mem_stream_of_mem_calls ht
    have hstop := stop_le_of_mem_stream hs hm
    obtain ⟨hl, hlt⟩ := toNat_lineAfter_take h (Nat.le_trans hstop.1 hstop.2)
    have he := (line_of_mem_stream hc hm).2.trans hl
    exact ⟨he, he.trans_lt hlt⟩
  · have hi := inSource_calls hs n
    have hl := (hc.calls n).line
    rw [InSource, buffer_calls] at hi
    rw [buffer_calls] at hl
    obtain ⟨hl', hlt⟩ := toNat_lineAfter_take h hi
    have he := (congrArg UInt32.toNat hl).trans hl'
    exact ⟨he, he.trans_lt hlt⟩

theorem line_of_calls_comment :
    (calls? .checked 3 (ofText "1/*\n\n")).map (fun p => (p.1.map Token.line, p.2.snapshot)) =
      some ([1, 1, 3], ⟨5, 3⟩) ∧
    ∃ tokens last, calls? .checked 3 (ofText "1/*\n\n") = some (tokens, last) ∧
      tokens.length = 3 ∧
      (∀ t ∈ tokens, t.line = 1 + Byte.newlines ((Byte.ofText "1/*\n\n").take t.span.start) ∧
        t.line < 2 ^ 32) ∧
      last.snapshot.line.toNat =
        1 + Byte.newlines ((Byte.ofText "1/*\n\n").take last.snapshot.position) ∧
      last.snapshot.line.toNat < 2 ^ 32 :=
  ⟨by decide +kernel, line_of_calls "1/*\n\n" (by decide +kernel) .checked 3⟩

end Scanner
end StaticAssert
