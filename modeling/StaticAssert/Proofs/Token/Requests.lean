import StaticAssert.Proofs.Token.Order
import StaticAssert.Proofs.Token.Turns

/-!
# Requests to a scanner

A scanner is asked for its next token, for the next element of an iteration, or to return
to some place, which may come from another source. Whatever it is asked, and in whatever
order, it stays within its source, and there every read succeeds. A token takes bytes and
ends where the scanner then stands, and the end of input is given again and again.
-/

set_option autoImplicit false

namespace StaticAssert

namespace Request

end Request

namespace Scanner

variable {s : Scanner}

variable {counting : Counting}

theorem next_snd_of_eof (h : s.next.1.kind = .eof) : s.next.2 = s.skip := by
  have hr : s.skip.cursor.rest = [] := Lexeme.read_kind_eq_eof_iff.mp h
  have hl : s.skip.lexeme.length = 0 := by rw [lexeme, hr]; rfl
  rw [next_snd, hl, advance, List.take_zero, lineAfter_nil]
  rfl

theorem skip_skip (s : Scanner) : s.skip.skip = s.skip := by
  have hn : Trivia.length s.skip.cursor.rest = 0 := by
    refine Trivia.length_of_none ?_
    rw [skip, cursor_advance, Cursor.rest_advance]
    exact Trivia.item?_drop_length _
  rw [skip, hn, advance, List.take_zero, lineAfter_nil]
  rfl

theorem next_of_eof (h : s.next.1.kind = .eof) : s.next.2.next = s.next := by
  rw [next_snd_of_eof h, next, next, skip_skip]

theorem stream_of_eof (h : s.next.1.kind = .eof) : s.stream = Stream'.const s.next.1 := by
  ext n
  induction n generalizing s with
  | zero => rfl
  | succ n ih =>
    have hn : s.next.2.next.1.kind = .eof := by rw [next_of_eof h, h]
    rw [stream_eq, Stream'.get_succ_cons, ih hn, next_of_eof h]
    rfl

open scoped Stream' in
/-- Behind its tokens a scanner gives nothing but the end of input. -/
theorem exists_stream_eq (s : Scanner) :
    ∃ t : Token, t.kind = .eof ∧ s.stream = s.tokens ++ₛ Stream'.const t := by
  fun_induction tokens s with
  | case1 s h ih =>
    obtain ⟨t, ht, hs⟩ := ih
    refine ⟨t, ht, ?_⟩
    rw [s.stream_eq, hs]
    rfl
  | case2 s h =>
    have hk : s.next.1.kind = .eof := (Token.isEof_iff _).mp (by simpa using h)
    exact ⟨s.next.1, hk, stream_of_eof hk⟩

open scoped Stream' in
theorem exists_tokens_eq {ts : List Token} {rest : Stream' Token} (h : s.stream = ts ++ₛ rest)
    (hk : ∀ t ∈ ts, t.kind ≠ .eof) : ∃ more, s.tokens = ts ++ more := by
  obtain ⟨t, ht, hs⟩ := s.exists_stream_eq
  rw [hs] at h
  rcases Token.prefix_or_prefix h with ⟨more, hm⟩ | ⟨more, hm⟩
  · cases more with
    | nil => exact ⟨[], by rw [← hm, List.append_nil, List.append_nil]⟩
    | cons u more =>
      exfalso
      rw [← hm, Stream'.append_append_stream, Stream'.append_right_inj] at h
      have hu : u = t := by
        have hh := congrArg Stream'.head h
        exact hh.symm
      rw [← hm] at hk
      exact hk u (List.mem_append_right _ List.mem_cons_self) (hu ▸ ht)
  · exact ⟨more, hm.symm⟩

end Scanner

end StaticAssert
