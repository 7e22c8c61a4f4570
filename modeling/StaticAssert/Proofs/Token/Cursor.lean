import StaticAssert.Proofs.Token.Separation
import StaticAssert.Source.Cursor

/-!
# Reading within a source

From the first byte of a source to its end every read of a cursor succeeds, and what it
gives can be said of the bytes that are left: the padding shows as a zero behind them.
A run of a class stops at the padding if zero is outside the class. The search for the
end of a comment looks at newlines and slashes only, and comes out where the grammar of
comments ends one.
-/

set_option autoImplicit false

namespace StaticAssert

namespace Trivia

/-- A stretch in which no comment closes, not even with the byte behind it, is passed over. -/
theorem closing?_append {bytes rest : List UInt8} (h : Unclosed (bytes ++ rest.take 1)) :
    closing? (bytes ++ rest) = (closing? rest).map (· + bytes.length) := by
  induction bytes with
  | nil => simp
  | cons b bytes ih =>
    obtain ⟨hb, ht⟩ := unclosed_cons.mp h
    have hn : ¬ (b = Byte.star ∧ (bytes ++ rest).head? = some Byte.slash) := by
      cases bytes with
      | nil =>
        change ¬ (b = Byte.star ∧ (rest.take 1).head? = some Byte.slash) at hb
        rwa [List.head?_take, if_neg Nat.one_ne_zero] at hb
      | cons c bytes => exact hb
    rw [List.cons_append, closing?_cons hn, ih ht, Option.map_map]
    rfl

theorem unclosed_of_not_slash {bytes : List UInt8} (h : ∀ b ∈ bytes, b ≠ Byte.slash) :
    Unclosed bytes :=
  fun hi => h Byte.slash (hi.subset (by simp)) rfl

theorem unclosed_append {bytes rest : List UInt8} (hb : Unclosed bytes) (hr : Unclosed rest)
    (hm : bytes.getLast? = some Byte.star → rest.head? ≠ some Byte.slash) :
    Unclosed (bytes ++ rest) := by
  induction bytes with
  | nil => exact hr
  | cons b bytes ih =>
    obtain ⟨hn, ht⟩ := unclosed_cons.mp hb
    cases bytes with
    | nil =>
      refine unclosed_cons.mpr ⟨?_, hr⟩
      rintro ⟨rfl, hs⟩
      exact hm rfl hs
    | cons c bytes => exact unclosed_cons.mpr ⟨hn, ih ht hm⟩

end Trivia

namespace Cursor

variable {c : Cursor} {b : UInt8} {text after : List UInt8}

def InSource (c : Cursor) : Prop := c.position ≤ c.buffer.size

theorem inSource_advance (hr : c.rest = text ++ after) (h : c.InSource) :
    (c.advance text.length).InSource := by
  have hl : c.remaining = text.length + after.length := by
    rw [← length_rest, hr, List.length_append]
  simp only [InSource, advance, remaining] at *
  omega

theorem inSource_of_rest (hr : c.rest = b :: after) : c.InSource := by
  have hl : c.remaining = after.length + 1 := by
    rw [← length_rest, hr, List.length_cons]
  simp only [InSource, remaining] at *
  omega

theorem advance_advance (c : Cursor) (m n : Nat) :
    (c.advance m).advance n = c.advance (m + n) := by
  simp only [advance, Nat.add_assoc]

theorem rest_of_append (hr : c.rest = text ++ after) : (c.advance text.length).rest = after := by
  rw [rest_advance, hr, List.drop_left]

theorem atEnd_eq (c : Cursor) : c.atEnd = c.rest.isEmpty := by
  rw [Bool.eq_iff_iff, List.isEmpty_iff_length_eq_zero, length_rest, remaining,
    Nat.sub_eq_zero_iff_le, atEnd, decide_eq_true_iff]

theorem current?_of_rest (hr : c.rest = b :: after) : c.current? = some b := by
  rw [c.current?_eq (inSource_of_rest hr), hr]
  rfl

theorem peek?_of_rest (hr : c.rest = b :: after) : c.peek? = some (after.head?.getD 0) := by
  have hr' : c.rest = [b] ++ after := hr
  have ha : (c.advance 1).rest = after := rest_of_append hr'
  rw [← ha]
  exact current?_eq _ (inSource_advance hr' (inSource_of_rest hr))

theorem previous?_of_rest (hr : c.rest = text ++ b :: after) :
    (c.advance (text.length + 1)).previous? = some b :=
  current?_of_rest (rest_of_append hr)

theorem sliceFrom?_advance (hr : c.rest = text ++ after) (h : c.InSource) :
    (c.advance text.length).sliceFrom? c.position = some text := by
  have hs := inSource_advance hr h
  have ht : (c.buffer.bytes.drop c.position).take (c.position + text.length - c.position) =
      text := by
    rw [Nat.add_sub_cancel_left]
    show c.rest.take text.length = text
    rw [hr, List.take_left]
  exact (if_pos ⟨Nat.le_add_right _ _, hs⟩).trans (congrArg some ht)

theorem drop_padded (h : c.InSource) :
    c.buffer.padded.drop c.position = c.rest ++ c.buffer.padding :=
  List.drop_append_of_le_length h

/-- A run of a class without zero ends before the padding or at it. -/
theorem eatWhile?_eq {p : UInt8 → Bool} (h : c.InSource) (hp : p 0 = false) :
    c.eatWhile? p = some (c.advance (c.rest.takeWhile p).length) := by
  obtain ⟨run, after, hr, hw⟩ := Byte.Run.exists_append p c.rest
  have hn := c.buffer.size_lt_paddedSize
  have hpad : Byte.Run p run (after ++ c.buffer.padding) := by
    refine ⟨hw.inside, ?_⟩
    cases after with
    | nil =>
      intro b hb
      have hz := List.eq_of_mem_replicate (List.mem_of_mem_head? hb)
      rwa [hz]
    | cons b after => exact hw.stops
  have hs := inSource_advance hr h
  have ht : ((c.buffer.padded.drop c.position).takeWhile p).length = run.length := by
    rw [drop_padded h, hr, List.append_assoc, hpad.takeWhile_eq]
  have hl : c.position + run.length < c.buffer.paddedSize := Nat.lt_of_le_of_lt hs hn
  simp only [eatWhile?, ht]
  rw [if_pos hl, hr, hw.takeWhile_eq]

theorem eatWhile?_advance {p : UInt8 → Bool} (hr : c.rest = text ++ after) (h : c.InSource)
    (ht : ∀ b ∈ text, p b = true) (hp : p 0 = false) :
    (c.advance text.length).eatWhile? p = some (c.advance (c.rest.takeWhile p).length) := by
  have hl : (c.rest.takeWhile p).length = text.length + (after.takeWhile p).length := by
    rw [hr, List.takeWhile_append_of_pos ht, List.length_append]
  rw [eatWhile?_eq (inSource_advance hr h) hp, rest_of_append hr, hl, advance_advance]

theorem eatLine?_eq (h : c.InSource) :
    c.eatLine? = some (c.advance (c.rest.takeWhile (· != Byte.newline)).length) :=
  if_pos h

def commentEnd (c : Cursor) (newlines : Nat) : CommentEnd × Cursor :=
  match Trivia.closing? c.rest with
  | some n => (⟨true, newlines + Byte.newlines (c.rest.take n)⟩, c.advance n)
  | none => (⟨false, newlines + Byte.newlines c.rest⟩, c.moveToEnd)

theorem commentEnd_of_passed (hr : c.rest = text ++ after)
    (h : Trivia.Unclosed (text ++ after.take 1)) (n : Nat) :
    (c.advance text.length).commentEnd (n + Byte.newlines text) = c.commentEnd n := by
  rw [commentEnd, commentEnd, rest_of_append hr, hr, Trivia.closing?_append h]
  cases Trivia.closing? after with
  | none => simp [Nat.add_assoc, moveToEnd, advance]
  | some m =>
    simp only [Option.map_some, Nat.add_comm m, List.take_length_add_append,
      Byte.newlines_append, advance, Nat.add_assoc]

theorem commentEnd_of_closed {body : List UInt8}
    (hr : c.rest = body ++ Byte.star :: Byte.slash :: after) (h : Trivia.Unclosed body)
    (n : Nat) :
    c.commentEnd n = (⟨true, n + Byte.newlines body⟩, c.advance (body.length + 2)) := by
  have hn : Byte.newlines [Byte.star, Byte.slash] = 0 := rfl
  rw [commentEnd, hr, Trivia.closing?_of_unclosed h]
  simp only [List.take_length_add_append, List.take_succ_cons, List.take_zero,
    Byte.newlines_append, hn, Nat.add_zero]

theorem commentEnd_of_unclosed (h : Trivia.Unclosed c.rest) (n : Nat) :
    c.commentEnd n = (⟨false, n + Byte.newlines c.rest⟩, c.moveToEnd) := by
  rw [commentEnd, Trivia.closing?_eq_none_iff.mpr h]

theorem exists_of_findIdx? {n : Nat}
    (h : c.rest.findIdx? (fun b => b == Byte.newline || b == Byte.slash) = some n) :
    ∃ run b after, c.rest = run ++ b :: after ∧ run.length = n ∧
      (b = Byte.newline ∨ b = Byte.slash) ∧ ∀ x ∈ run, x ≠ Byte.newline ∧ x ≠ Byte.slash := by
  obtain ⟨hn, hb, hlt⟩ := List.findIdx?_eq_some_iff_getElem.mp h
  refine ⟨c.rest.take n, c.rest[n], c.rest.drop (n + 1), ?_, ?_, by simpa using hb, ?_⟩
  · rw [List.cons_getElem_drop_succ, List.take_append_drop]
  · rw [List.length_take, Nat.min_eq_left (Nat.le_of_lt hn)]
  · intro x hx
    obtain ⟨i, hi, rfl⟩ := List.mem_take_iff_getElem.mp hx
    have := hlt i (by omega)
    simpa using this

theorem exists_previous? (h : c.InSource) (hp : 0 < c.position) : ∃ b, c.previous? = some b := by
  have hn := c.buffer.size_lt_paddedSize
  have hl : c.position - 1 < c.buffer.paddedSize := by
    unfold InSource at h
    omega
  exact ⟨_, (if_neg (Nat.ne_of_gt hp)).trans (if_pos hl)⟩

theorem previous?_advance {run : List UInt8} (hr : c.rest = run ++ after) :
    (c.advance run.length).previous? = run.getLast?.or c.previous? := by
  rcases run.eq_nil_or_concat' with rfl | ⟨run, b, rfl⟩
  · rfl
  · rw [List.append_assoc] at hr
    rw [List.length_append, List.length_singleton, previous?_of_rest hr, List.getLast?_concat,
      Option.some_or]

structure InComment (c : Cursor) : Prop where
  -- The cursor stands in the body of a comment, and not between the star and the slash of what
  -- only looks like an ending because the star belongs to the opening.
  inSource : c.InSource
  opened : 0 < c.position
  apart : c.previous? = some Byte.star → c.rest.head? ≠ some Byte.slash

theorem inComment_advance (hr : c.rest = text ++ b :: after) (h : c.InSource)
    (hb : b ≠ Byte.star) : (c.advance (text.length + 1)).InComment where
  inSource := by
    have hr' : c.rest = text.concat b ++ after := by rw [hr, List.concat_append]
    rw [← List.length_concat (a := b)]
    exact inSource_advance hr' h
  opened := Nat.succ_pos _
  apart hp := by
    rw [previous?_of_rest hr] at hp
    exact absurd (Option.some.inj hp) hb

theorem commentEnd_of_stop {run : List UInt8} (hr : c.rest = run ++ b :: after)
    (hw : ∀ x ∈ run, x ≠ Byte.newline ∧ x ≠ Byte.slash)
    (hb : b = Byte.newline ∨ b = Byte.slash ∧ run.getLast? ≠ some Byte.star) (n : Nat) :
    (c.advance (run.length + 1)).commentEnd (n + Byte.newlines [b]) = c.commentEnd n := by
  have hn : Byte.newlines run = 0 := List.count_eq_zero.mpr fun h => (hw _ h).1 rfl
  have hs : b ≠ Byte.star := by
    rintro rfl
    rcases hb with hb | ⟨hb, -⟩ <;> cases hb
  have hu : Trivia.Unclosed (run ++ b :: after.take 1) := by
    refine Trivia.unclosed_append (Trivia.unclosed_of_not_slash fun x hx => (hw x hx).2) ?_ ?_
    · refine Trivia.unclosed_cons.mpr ⟨fun h => hs h.1, ?_⟩
      cases after with
      | nil => exact Trivia.unclosed_nil
      | cons x after =>
        exact Trivia.unclosed_cons.mpr ⟨fun h => (nomatch h.2), Trivia.unclosed_nil⟩
    · rintro hl ⟨⟩
      rcases hb with hb | ⟨-, hb⟩
      · exact absurd hb (by decide)
      · exact hb hl
  have hr' : c.rest = (run ++ [b]) ++ after := by rw [hr, List.append_cons]
  have hp := commentEnd_of_passed hr' (by rwa [List.append_assoc]) n
  rwa [List.length_append, Byte.newlines_append, hn, Nat.zero_add] at hp

/-- The search for the end of a comment finds what the grammar of comments says. -/
theorem closeComment?_eq (h : c.InComment) (n : Nat) :
    c.closeComment? n = some (c.commentEnd n) := by
  fun_induction closeComment? c n with
  | case1 c n hf =>
    have hn : ∀ x ∈ c.rest, x ≠ Byte.newline ∧ x ≠ Byte.slash := by
      simpa using List.findIdx?_eq_none_iff.mp hf
    have hc : Byte.newlines c.rest = 0 := List.count_eq_zero.mpr fun h => (hn _ h).1 rfl
    have hu := Trivia.unclosed_of_not_slash fun x hx => (hn x hx).2
    rw [commentEnd_of_unclosed hu, hc]
    rfl
  | case2 c n o hf found byte before hv hc hn ih =>
    obtain ⟨run, b, after, hr, rfl, -, hw⟩ := exists_of_findIdx? hf
    obtain rfl : byte = b := Option.some.inj (hc.symm.trans (current?_of_rest (rest_of_append hr)))
    have hb : byte = Byte.newline := eq_of_beq hn
    have he := commentEnd_of_stop hr hw (.inl hb) n
    subst hb
    exact (ih (inComment_advance hr h.inSource (by decide))).trans (congrArg some he)
  | case3 c n o hf found byte before hv hc hn hb =>
    obtain ⟨run, b, after, hr, rfl, hs, hw⟩ := exists_of_findIdx? hf
    obtain rfl : byte = b := Option.some.inj (hc.symm.trans (current?_of_rest (rest_of_append hr)))
    obtain rfl : byte = Byte.slash := hs.resolve_left fun he => hn (beq_of_eq he)
    obtain rfl : before = Byte.star := eq_of_beq hb
    rw [previous?_advance hr] at hv
    rcases run.eq_nil_or_concat' with rfl | ⟨body, x, rfl⟩
    · exact absurd (by rw [hr]; rfl) (h.apart hv)
    · rw [List.getLast?_concat] at hv
      cases hv
      have hw' : ∀ x ∈ body, x ≠ Byte.newline ∧ x ≠ Byte.slash :=
        fun x hx => hw x (List.mem_append_left _ hx)
      have hm : Byte.newlines body = 0 := List.count_eq_zero.mpr fun h => (hw' _ h).1 rfl
      rw [List.append_assoc] at hr
      have hu := Trivia.unclosed_of_not_slash fun x hx => (hw' x hx).2
      have hl : found.advance 1 = c.advance (body.length + 2) := by
        simp only [found, advance, List.length_append, List.length_singleton, Nat.add_assoc]
      rw [commentEnd_of_closed hr hu, hm, hl]
      rfl
  | case4 c n o hf found byte before hv hc hn hb ih =>
    obtain ⟨run, b, after, hr, rfl, hs, hw⟩ := exists_of_findIdx? hf
    obtain rfl : byte = b := Option.some.inj (hc.symm.trans (current?_of_rest (rest_of_append hr)))
    obtain rfl : byte = Byte.slash := hs.resolve_left fun he => hn (beq_of_eq he)
    have hl : run.getLast? ≠ some Byte.star := by
      intro hl
      rw [previous?_advance hr, hl] at hv
      exact hb (beq_of_eq (Option.some.inj hv).symm)
    rw [ih (inComment_advance hr h.inSource (by decide))]
    exact congrArg some (commentEnd_of_stop hr hw (.inr ⟨rfl, hl⟩) n)
  | case5 c n o hf found hno =>
    obtain ⟨run, b, after, hr, rfl, -, -⟩ := exists_of_findIdx? hf
    obtain ⟨before, hv⟩ := exists_previous? (inSource_advance hr h.inSource)
      (Nat.lt_of_lt_of_le h.opened (Nat.le_add_right _ _))
    exact absurd hv (hno b before (current?_of_rest (rest_of_append hr)))

/-- The body of a comment is passed up to its end, with a slash at once behind the opening as a
part of the body. -/
theorem eatBlockComment?_eq (h : c.InSource) (hp : 0 < c.position) :
    c.eatBlockComment? = some (c.commentEnd 0) := by
  have hl : c.position ≤ c.buffer.size := h
  rw [eatBlockComment?, if_pos hl]
  by_cases hs : c.rest.head? = some Byte.slash
  · obtain ⟨after, hr⟩ := List.head?_eq_some_iff.mp hs
    have hr' : c.rest = [] ++ Byte.slash :: after := hr
    have hi : (c.advance 1).InComment := inComment_advance hr' h (by decide)
    have he : (c.advance 1).commentEnd 0 = c.commentEnd 0 :=
      commentEnd_of_stop hr' (by simp) (.inr ⟨rfl, by simp⟩) 0
    rw [if_pos (beq_of_eq hs), closeComment?_eq hi, he]
  · rw [if_neg (by simpa using hs)]
    exact closeComment?_eq ⟨h, hp, fun _ => hs⟩ 0

end Cursor
end StaticAssert
