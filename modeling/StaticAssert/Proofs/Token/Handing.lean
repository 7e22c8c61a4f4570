import StaticAssert.Proofs.Token.Calls

/-!
# Handing out tokens

A lookahead answers like an index into the infinite stream of what its scanner returns:
looking leaves the index, taking moves it on by one, and so does eating what is of the
kind asked for. The head of the ring is the index modulo eight, the scanner is at most
one token ahead of it, and that token waits at the head. All of this is kept by every
request, so it holds after any number of them, beyond the end of input and however often
the ring has gone round.
-/

set_option autoImplicit false

namespace StaticAssert

inductive Ask where
  | peek
  | advance
  | eat (kind : Kind)
  deriving DecidableEq

def Ask.taken : Ask → Option Token → List Token
  | .peek, _ => []
  | .advance, answer | .eat _, answer => answer.toList

def respond {σ : Type} (answer : σ → Ask → Option Token × σ) :
    List Ask → σ → List (Option Token) × σ
  | [], state => ([], state)
  | ask :: asks, state =>
    let (first, state) := answer state ask
    let (more, state) := respond answer asks state
    (first :: more, state)

def Ask.answerAt (tokens : Stream' Token) (index : Nat) : Ask → Option Token × Nat
  | .peek => (some (tokens.get index), index)
  | .advance => (some (tokens.get index), index + 1)
  | .eat kind =>
    if (tokens.get index).kind = kind then (some (tokens.get index), index + 1)
    else (none, index)

namespace Ask

theorem take_append_taken (tokens : Stream' Token) (index : Nat) (ask : Ask) :
    tokens.take index ++ ask.taken (answerAt tokens index ask).1 =
      tokens.take (answerAt tokens index ask).2 := by
  cases ask with
  | peek => exact List.append_nil _
  | advance => exact Stream'.concat_take_get
  | eat kind =>
    rw [answerAt]
    split
    · exact Stream'.concat_take_get
    · exact List.append_nil _

theorem take_append_flatten (tokens : Stream' Token) (index : Nat) (asks : List Ask) :
    tokens.take index ++
        (List.zipWith taken asks (respond (answerAt tokens) asks index).1).flatten =
      tokens.take (respond (answerAt tokens) asks index).2 := by
  induction asks generalizing index with
  | nil => exact List.append_nil _
  | cons ask asks ih =>
    rw [respond, List.zipWith_cons_cons, List.flatten_cons, ← List.append_assoc,
      take_append_taken, ih]

end Ask

namespace Lookahead

variable {s : Scanner} {index : Nat} {l : Lookahead}

def answer (l : Lookahead) : Ask → Option Token × Lookahead
  | .peek => (some l.peek.1, l.peek.2)
  | .advance => (some l.advance.1, l.advance.2)
  | .eat kind => l.eat kind

/-- A lookahead over a scanner that has handed out so many tokens. -/
structure Follows (s : Scanner) (index : Nat) (l : Lookahead) : Prop where
  ahead : l.buffered ≤ 1
  scanned : l.scanner = (Scanner.calls (index + l.buffered) s).2
  waits : l.waiting = (s.stream.drop index).take l.buffered
  head : l.head = Fin.ofNat 8 index

theorem follows_ofScanner (s : Scanner) : Follows s 0 (ofScanner s) :=
  ⟨Nat.zero_le 1, rfl, waiting_of_empty rfl, rfl⟩

theorem head_fill (l : Lookahead) : l.fill.head = l.head := by
  by_cases hb : l.buffered = 0
  · rw [fill_of_empty hb]
    rfl
  · rw [fill_of_buffered hb]

namespace Follows

theorem upcoming (h : Follows s index l) : l.upcoming = s.stream.drop index := by
  rw [Lookahead.upcoming, h.waits, h.scanned, ← Scanner.drop_stream, ← Stream'.drop_drop,
    Stream'.append_take_drop]

theorem head_upcoming (h : Follows s index l) : l.upcoming.head = s.stream.get index := by
  rw [h.upcoming, Stream'.head_drop]

theorem peek_fst (h : Follows s index l) : l.peek.1 = s.stream.get index :=
  l.peek_fst.trans h.head_upcoming

theorem buffered_fill (h : Follows s index l) : l.fill.buffered = 1 := by
  by_cases hb : l.buffered = 0
  · rw [fill_of_empty hb]
    exact congrArg Nat.succ hb
  · rw [fill_of_buffered hb]
    have := h.ahead
    omega

theorem buffered_advance (h : Follows s index l) : l.advance.2.buffered = 0 :=
  congrArg (· - 1) h.buffered_fill

theorem fill (h : Follows s index l) : Follows s index l.fill where
  ahead := Nat.le_of_eq h.buffered_fill
  scanned := by
    by_cases hb : l.buffered = 0
    · have hs : l.fill.scanner = l.scanner.next.2 := by rw [fill_of_empty hb]; rfl
      rw [hs, h.scanned, hb, h.buffered_fill, Scanner.calls_add s index 1]
      rfl
    · rw [fill_of_buffered hb]
      exact h.scanned
  waits := by
    rw [waiting_fill, waiting_of_empty h.buffered_advance, h.peek_fst, h.buffered_fill,
      ← Stream'.head_drop]
    rfl
  head := l.head_fill.trans h.head

theorem advance (h : Follows s index l) : Follows s (index + 1) l.advance.2 where
  ahead := by
    rw [h.buffered_advance]
    exact Nat.zero_le 1
  scanned := by
    rw [scanner_advance, h.fill.scanned, h.buffered_fill, h.buffered_advance]
  waits := by
    rw [waiting_of_empty h.buffered_advance, h.buffered_advance]
    rfl
  head := by
    have hh : l.advance.2.head = l.fill.head + 1 := rfl
    rw [hh, h.fill.head]
    ext
    simp [Fin.val_add]

/-- Every request is answered from the stream and moves the lookahead along with the index. -/
theorem step (h : Follows s index l) (ask : Ask) :
    (l.answer ask).1 = (Ask.answerAt s.stream index ask).1 ∧
      Follows s (Ask.answerAt s.stream index ask).2 (l.answer ask).2 := by
  cases ask with
  | peek => exact ⟨congrArg some h.peek_fst, h.fill⟩
  | advance => exact ⟨congrArg some h.peek_fst, h.advance⟩
  | eat kind =>
    by_cases hk : (s.stream.get index).kind = kind
    · have he : l.upcoming.head.kind = kind := by rw [h.head_upcoming, hk]
      rw [Lookahead.answer, Ask.answerAt, if_pos hk, eat_of_eq he, h.head_upcoming]
      exact ⟨rfl, h.advance⟩
    · have he : l.upcoming.head.kind ≠ kind := by rwa [h.head_upcoming]
      rw [Lookahead.answer, Ask.answerAt, if_neg hk, eat_of_ne he]
      exact ⟨rfl, h.fill⟩

/-- So the answers agree request by request, and after them the lookahead follows still. -/
theorem run (h : Follows s index l) (asks : List Ask) :
    (respond answer asks l).1 = (respond (Ask.answerAt s.stream) asks index).1 ∧
      Follows s (respond (Ask.answerAt s.stream) asks index).2 (respond answer asks l).2 := by
  induction asks generalizing index l with
  | nil => exact ⟨rfl, h⟩
  | cons ask asks ih =>
    obtain ⟨ha, hn⟩ := h.step ask
    obtain ⟨hm, hf⟩ := ih hn
    exact ⟨congrArg₂ List.cons ha hm, hf⟩

end Follows

/-- Whatever a lookahead is asked, it answers as an index into the stream of its scanner does. What
it hands out is the beginning of the stream, each token once, and it follows the index. -/
theorem asks_answered (text : String) (offset : Nat) (asks : List Ask) :
    let s := Scanner.start ((Buffer.ofText text).cursorAt offset)
    let reference := respond (Ask.answerAt s.stream) asks 0
    let served := respond answer asks (ofScanner s)
    (∀ n, Scanner.calls? .wrapping n s = some (s.stream.take n, (Scanner.calls n s).2)) ∧
      served.1 = reference.1 ∧
      (List.zipWith Ask.taken asks served.1).flatten = s.stream.take reference.2 ∧
      Follows s reference.2 served.2 := by
  intro s reference served
  have hs : s.InSource := Scanner.inSource_start _ offset
  obtain ⟨ha, hf⟩ := (follows_ofScanner s).run asks
  refine ⟨fun n => ?_, ha, ?_, hf⟩
  · rw [Scanner.calls?_eq hs (Scanner.room_wrapping s), Scanner.take_stream]
  · have ht := Ask.take_append_flatten s.stream 0 asks
    rw [← ha] at ht
    exact ht

/-- A number is eaten as one of the same value and suffix only. -/
example :
    (respond answer [.eat (.number (.ofRaw 1 true)), .eat (.number (.ofRaw 1 false)), .advance]
      (ofScanner (.ofText "1"))).1 =
    [none, some ⟨.number (.ofRaw 1 false), 1, ⟨0, 1⟩⟩, some ⟨.eof, 1, ⟨1, 1⟩⟩] := by
  decide +kernel

end Lookahead
end StaticAssert
