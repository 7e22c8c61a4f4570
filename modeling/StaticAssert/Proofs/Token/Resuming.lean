import StaticAssert.Compile.Unit
import StaticAssert.Proofs.Token.Calls
import StaticAssert.Proofs.Token.Joining

/-!
# Resuming a scan

What a scanner returns depends on where it stands and not on how it came there, and the
line it stands on only adds to the lines of its tokens. A place that a scanner reached
lies within its source, so returning there is not cut short. The opening of a unit ends
where its fifth token ends, and no line ends in it.
-/

set_option autoImplicit false

namespace StaticAssert
namespace Scanner

variable {s t : Scanner} {gap piece after : List UInt8} {kind : Kind} {text : String}
  {counting : Counting}

theorem cursorAt_position (h : s.InSource) :
    s.cursor.buffer.cursorAt s.cursor.position = s.cursor :=
  congrArg (Cursor.mk s.cursor.buffer) (Nat.min_eq_left h)

theorem restore_snapshot (h : s.InSource) (hb : t.cursor.buffer = s.cursor.buffer) :
    t.restore s.snapshot = s := by
  rw [restore, hb]
  exact congrArg (Scanner.mk · s.line) (cursorAt_position h)

def below (s : Scanner) (lines : UInt32) : Scanner := ⟨s.cursor, s.line + lines⟩

theorem advance_below (s : Scanner) (lines : UInt32) (n : Nat) :
    (s.below lines).advance n = (s.advance n).below lines :=
  congrArg (Scanner.mk _) (lineAfter_add s.line lines _)

theorem next_below (s : Scanner) (lines : UInt32) :
    (s.below lines).next = (s.next.1.shiftWrapping 0 lines, s.next.2.below lines) := by
  have hs : (s.below lines).skip = s.skip.below lines := advance_below s lines _
  have ht : s.next.1.shiftWrapping 0 lines = ⟨s.skip.lexeme.kind, (s.skip.line + lines).toNat,
      ⟨s.skip.position, s.skip.position + s.skip.lexeme.length⟩⟩ := by
    rw [next_fst, Token.shiftWrapping, UInt32.ofNat_toNat]
    rfl
  rw [ht, next, next, hs]
  exact congrArg (Prod.mk _) (advance_below _ lines _)

theorem calls_below (s : Scanner) (lines : UInt32) (n : Nat) :
    calls n (s.below lines) =
      ((calls n s).1.map (Token.shiftWrapping 0 lines), (calls n s).2.below lines) := by
  induction n generalizing s with
  | zero => rfl
  | succ n ih =>
    rw [calls, next_below, ih]
    rfl

theorem below_start (h : s.InSource) :
    (start (s.cursor.buffer.cursorAt s.snapshot.position)).below (s.snapshot.line - 1) = s := by
  have hn : 1 + (s.snapshot.line - 1) = s.line := by
    rw [UInt32.add_comm, UInt32.sub_add_cancel]
    rfl
  have hc : s.cursor.buffer.cursorAt s.snapshot.position = s.cursor := cursorAt_position h
  rw [start, below, hn, hc]

/-- A fresh scanner at a place returns what is returned there, on lines that are counted anew. -/
theorem calls_start (h : s.InSource) (n : Nat) :
    (calls n s).1 =
      (calls n (start (s.cursor.buffer.cursorAt s.snapshot.position))).1.map
        (Token.shiftWrapping 0 (s.snapshot.line - 1)) := by
  have hc := calls_below (start (s.cursor.buffer.cursorAt s.snapshot.position))
    (s.snapshot.line - 1) n
  rw [below_start h] at hc
  rw [hc]

theorem position_le_calls (s : Scanner) (n : Nat) : s.position ≤ (calls n s).2.position := by
  induction n generalizing s with
  | zero => exact Nat.le_refl _
  | succ n ih =>
    have hn : s.position ≤ s.next.2.position :=
      Nat.le_trans (Nat.le_add_right _ _) (Nat.le_add_right _ _)
    exact Nat.le_trans hn (ih s.next.2)

theorem one_le_line_calls (hl : s.line = 1)
    (hn : Byte.newlines s.cursor.buffer.bytes < 2 ^ 32 - 1) (k : Nat) :
    1 ≤ (calls k s).2.line.toNat := by
  have hline := ((countsFrom_snapshot s).calls k).line
  have hc : Byte.newlines (Span.slice ⟨s.position, (calls k s).2.position⟩
      s.cursor.buffer.bytes) ≤ Byte.newlines s.cursor.buffer.bytes :=
    (Span.slice_sublist _ _).count_le _
  have hone : s.snapshot.line.toNat = 1 := congrArg UInt32.toNat hl
  rw [buffer_calls] at hline
  rw [hline, toNat_lineAfter (by rw [hone]; exact Nat.add_lt_of_lt_sub' (Nat.lt_of_le_of_lt hc hn)),
    hone]
  exact Nat.le_add_right _ _

theorem size_le_position_next (hn : ∀ b ∈ s.cursor.buffer.bytes, b = Byte.newline) :
    s.cursor.buffer.size ≤ s.next.2.position := by
  have hg : Trivia.Stretch s.cursor.rest [] := by
    apply Trivia.stretch_of_blank
    intro b hb
    rw [hn b (List.mem_of_mem_drop hb)]
    decide
  have hr : s.cursor.rest = s.cursor.rest ++ ([] ++ []) := by
    rw [List.append_nil, List.append_nil]
  have hp : s.next.2.position = s.position + s.cursor.rest.length := by
    rw [next_eq hr hg .eof]
    rfl
  rw [hp, Cursor.length_rest, Cursor.remaining]
  show s.cursor.buffer.size ≤ s.cursor.position + (s.cursor.buffer.size - s.cursor.position)
  omega

/-- Of the newlines before a place that calls reach and of those behind it there are not too many to
count all of them, unless one side has none. -/
theorem few_newlines (s : Scanner) (k stop : Nat) :
    let before := Byte.newlines
      (Span.slice ⟨s.position, (calls k s).2.position⟩ s.cursor.buffer.bytes)
    let behind := Byte.newlines
      (Span.slice ⟨(calls k s).2.position, stop⟩ s.cursor.buffer.bytes)
    before + behind < 2 ^ 32 ∧ (before = 0 ∨ behind = 0 ∨ 1 + before + behind < 2 ^ 32) := by
  intro before behind
  have hsum : before + behind ≤ Byte.newlines s.cursor.buffer.bytes := by
    have hp := position_le_calls s k
    have hs := Span.slice_add hp (stop - (calls k s).2.position) s.cursor.buffer.bytes
    rw [show before + behind = Byte.newlines (Span.slice ⟨s.position, (calls k s).2.position +
        (stop - (calls k s).2.position)⟩ s.cursor.buffer.bytes) by
      rw [hs, Byte.newlines_append]
      rfl]
    exact (Span.slice_sublist _ _).count_le _
  have hl : Byte.newlines s.cursor.buffer.bytes ≤ s.cursor.buffer.bytes.length :=
    List.count_le_length
  have hf := s.cursor.buffer.fits
  have hm : Buffer.maxSize + 1 = 2 ^ 32 := rfl
  refine ⟨by omega, ?_⟩
  by_cases hlt : Byte.newlines s.cursor.buffer.bytes < Buffer.maxSize
  · exact .inr (.inr (by omega))
  -- The buffer is full of newlines, and the first call passes all of them.
  have hall : ∀ b ∈ s.cursor.buffer.bytes, b = Byte.newline := by
    have hc : s.cursor.buffer.bytes.count Byte.newline = s.cursor.buffer.bytes.length := by
      show Byte.newlines s.cursor.buffer.bytes = _
      omega
    exact fun b hb => (List.count_eq_length.mp hc b hb).symm
  cases k with
  | zero => exact .inl (congrArg Byte.newlines (Span.slice_self _ _))
  | succ k =>
    refine .inr (.inl ?_)
    have he : s.cursor.buffer.size ≤ (calls (k + 1) s).2.position :=
      Nat.le_trans (size_le_position_next hall) (position_le_calls s.next.2 k)
    have hd : s.cursor.buffer.bytes.drop (calls (k + 1) s).2.position = [] :=
      List.drop_eq_nil_of_le he
    show Byte.newlines ((s.cursor.buffer.bytes.drop _).take _) = 0
    rw [hd, List.take_nil]
    rfl

theorem toNat_add_add_one {m n : Nat} (hsum : m + n < 2 ^ 32)
    (hfew : m = 0 ∨ n = 0 ∨ 1 + m + n < 2 ^ 32) :
    (1 + UInt32.ofNat n + UInt32.ofNat m : UInt32).toNat + 1 =
      (1 + UInt32.ofNat n : UInt32).toNat + (1 + UInt32.ofNat m : UInt32).toNat := by
  have hone : (1 : UInt32).toNat = 1 := rfl
  simp only [UInt32.toNat_add, UInt32.toNat_ofNat', hone]
  omega

/-- Lines that are counted anew from a place are smaller by those before that place. -/
theorem line_add_one (hl : s.line = 1) {k : Nat} (h : (calls k s).2.InSource) {t : Token}
    (ht : t ∈ (start (s.cursor.buffer.cursorAt (calls k s).2.position)).stream) :
    (t.shiftWrapping 0 ((calls k s).2.line - 1)).line + 1 =
      t.line + (calls k s).2.line.toNat := by
  have hc := ((countsFrom_snapshot s).calls k).line
  rw [buffer_calls] at hc
  have hpos : (start (s.cursor.buffer.cursorAt (calls k s).2.position)).snapshot =
      ⟨(calls k s).2.position, 1⟩ := by
    rw [InSource, buffer_calls] at h
    exact congrArg (Snapshot.mk · 1) (Nat.min_eq_left h)
  have hline := (line_of_mem_stream (countsFrom_snapshot _) ht).2
  rw [hpos] at hline
  obtain ⟨hsum, hfew⟩ := few_newlines s k t.span.start
  have hreached : (calls k s).2.line = 1 + .ofNat (Byte.newlines
      (Span.slice ⟨s.position, (calls k s).2.position⟩ s.cursor.buffer.bytes)) := by
    rw [hc, show s.snapshot.line = 1 from hl]
    rfl
  have hcancel (line : UInt32) : 1 + line - 1 = line := by
    rw [UInt32.add_comm, UInt32.add_sub_cancel]
  rw [Token.shiftWrapping, hline, hreached, UInt32.ofNat_toNat, hcancel]
  exact toNat_add_add_one hsum hfew

def onFirstLine (text : String) (position : Nat) : Scanner := ⟨⟨Buffer.ofText text, position⟩, 1⟩

theorem next_onFirstLine {position : Nat}
    (hd : (Buffer.ofText text).bytes.drop position = gap ++ (piece ++ after))
    (hg : Trivia.Stretch gap (piece ++ after)) (hl : IsLexeme kind piece after)
    (hn : Byte.newlines gap = 0) (hn' : Byte.newlines piece = 0) :
    (onFirstLine text position).next =
      (⟨kind, 1, ⟨position + gap.length, position + gap.length + piece.length⟩⟩,
        onFirstLine text (position + gap.length + piece.length)) := by
  have hr : (onFirstLine text position).cursor.rest = gap ++ (piece ++ after) := hd
  rw [next_eq hr hg hl, lineAfter_of_newlines hn, lineAfter_of_newlines hn']
  rfl

theorem isLexeme_of_alone {p : Punct} (hl : ∀ q : Punct, q.bytes.dropLast ≠ p.bytes)
    (hs : p ≠ .star) : IsLexeme (.punct p) p.bytes after := by
  refine .punct ?_ fun h => absurd h hs
  intro b _ q hq
  exact hl q (by rw [hq, List.dropLast_concat])

theorem exists_bytes_eq_opening (h : Byte.ofText opening <+: Byte.ofText text) :
    ∃ rest, (Buffer.ofText text).bytes = Byte.ofText opening ++ rest := by
  obtain ⟨rest, hr⟩ := h
  have hb : (Buffer.ofText text).bytes = (Byte.ofText opening ++ rest).take Buffer.maxSize := by
    rw [hr]
    rfl
  have ho : (Byte.ofText opening).take Buffer.maxSize = Byte.ofText opening :=
    List.take_of_length_le (by decide)
  rw [hb, List.take_append, ho]
  exact ⟨_, rfl⟩

/-- The opening of a unit is five tokens on the first line. -/
theorem calls_opening (h : Byte.ofText opening <+: Byte.ofText text) :
    calls 5 (ofText text) =
      ([⟨.keyword .void, 1, ⟨0, 4⟩⟩, ⟨.name, 1, ⟨5, 9⟩⟩, ⟨.punct .leftParen, 1, ⟨9, 10⟩⟩,
        ⟨.punct .rightParen, 1, ⟨10, 11⟩⟩, ⟨.punct .leftBrace, 1, ⟨11, 12⟩⟩],
      start ((Buffer.ofText text).cursorAt bodyStart)) := by
  obtain ⟨rest, hr⟩ := exists_bytes_eq_opening h
  have hd (k : Nat) (hk : k ≤ 12) : (Buffer.ofText text).bytes.drop k =
      (Byte.ofText opening).drop k ++ rest := by
    rw [hr]
    exact List.drop_append_of_le_length hk
  have h₁ : (onFirstLine text 0).next = (⟨.keyword .void, 1, ⟨0, 4⟩⟩, onFirstLine text 4) :=
    @next_onFirstLine [] (Byte.ofText "void") _ _ text 0 (hd 0 (by decide)) (.nil _)
      (.keyword ⟨⟨118, rfl, rfl⟩, List.all_eq_true.mp rfl, by rintro b ⟨⟩; rfl⟩) rfl rfl
  have h₂ : (onFirstLine text 4).next = (⟨.name, 1, ⟨5, 9⟩⟩, onFirstLine text 9) :=
    @next_onFirstLine [Byte.space] (Byte.ofText "main") _ _ text 4 (hd 4 (by decide))
      (.cons (.blank (by decide) _) (.nil _))
      (.name ⟨⟨109, rfl, rfl⟩, List.all_eq_true.mp rfl, by rintro b ⟨⟩; rfl⟩ (by decide)
        (by rintro ⟨⟩ <;> decide)) rfl rfl
  have h₃ : (onFirstLine text 9).next = (⟨.punct .leftParen, 1, ⟨9, 10⟩⟩, onFirstLine text 10) :=
    @next_onFirstLine [] (Byte.ofText "(") _ _ text 9 (hd 9 (by decide)) (.nil _)
      (isLexeme_of_alone (by rintro ⟨⟩ <;> decide) nofun) rfl rfl
  have h₄ : (onFirstLine text 10).next = (⟨.punct .rightParen, 1, ⟨10, 11⟩⟩, onFirstLine text 11) :=
    @next_onFirstLine [] (Byte.ofText ")") _ _ text 10 (hd 10 (by decide)) (.nil _)
      (isLexeme_of_alone (by rintro ⟨⟩ <;> decide) nofun) rfl rfl
  have h₅ : (onFirstLine text 11).next = (⟨.punct .leftBrace, 1, ⟨11, 12⟩⟩, onFirstLine text 12) :=
    @next_onFirstLine [] (Byte.ofText "\x7b") _ _ text 11 (hd 11 (by decide)) (.nil _)
      (isLexeme_of_alone (by rintro ⟨⟩ <;> decide) nofun) rfl rfl
  have hs : (Buffer.ofText text).cursorAt bodyStart = (onFirstLine text 12).cursor := by
    have hl : 12 ≤ (Buffer.ofText text).size := by
      rw [Buffer.size, hr, List.length_append]
      exact Nat.le_add_right _ _
    exact congrArg (Cursor.mk _) (Nat.min_eq_left hl)
  show calls 5 (onFirstLine text 0) = _
  simp only [calls, h₁, h₂, h₃, h₄, h₅, hs]
  rfl

/-- Calls go on from a place that some calls reached, in every scanner over the same source, and a
fresh scanner at that place returns the same tokens as many lines higher. The tokens of a unit
are those of its opening and then those of a scanner behind it. Where sums of lines are checked,
all this is said of sources whose lines can be counted. -/
theorem calls_resume (text : String) (counting : Counting)
    (h : counting = .wrapping ∨ Byte.newlines (Buffer.ofText text).bytes < 2 ^ 32 - 1) :
    (∀ offset k, ∃ read s,
      calls? counting k (start ((Buffer.ofText text).cursorAt offset)) = some (read, s) ∧
      (Byte.newlines (Buffer.ofText text).bytes < 2 ^ 32 - 1 → 1 ≤ s.snapshot.line.toNat) ∧
      ∀ n, ∃ more last,
        calls? counting (k + n) (start ((Buffer.ofText text).cursorAt offset)) =
          some (read ++ more, last) ∧
        (∀ t : Scanner, t.cursor.buffer = Buffer.ofText text →
          calls? counting n (t.restore s.snapshot) = some (more, last)) ∧
        ∃ fresh above,
          calls? counting n (start ((Buffer.ofText text).cursorAt s.snapshot.position)) =
            some (fresh, above) ∧
          more.map (Token.shift 0 1) = fresh.map (Token.shift 0 s.snapshot.line.toNat)) ∧
    (Byte.ofText opening <+: Byte.ofText text → ∀ n, ∃ first more last,
      calls? counting (5 + n) (ofText text) = some (first ++ more, last) ∧ first.length = 5 ∧
      calls? counting n (start ((Buffer.ofText text).cursorAt bodyStart)) =
        some (more, last)) := by
  constructor
  · intro offset k
    have hi := inSource_start (Buffer.ofText text) offset
    have hroom := room_start h offset
    have hfresh (position : Nat) := room_start h position
    have hb := buffer_calls (start ((Buffer.ofText text).cursorAt offset)) k
    have hone : (start ((Buffer.ofText text).cursorAt offset)).line = 1 := rfl
    change _ = Buffer.ofText text at hb
    have hf : (start ((Buffer.ofText text).cursorAt offset)).cursor.buffer =
      Buffer.ofText text := rfl
    generalize start ((Buffer.ofText text).cursorAt offset) = first at hi hroom hb hone hf ⊢
    have hs := inSource_calls hi k
    refine ⟨_, _, calls?_eq hi hroom k, fun hn => ?_, fun n => ?_⟩
    · exact one_le_line_calls hone (hf ▸ hn) k
    refine ⟨(calls n (calls k first).2).1, (calls n (calls k first).2).2, ?_, ?_, ?_⟩
    · rw [calls?_eq hi hroom, calls_add]
    · intro t ht
      rw [restore_snapshot hs (ht.trans hb.symm), calls?_eq hs (hroom.calls k)]
    · refine ⟨_, _, calls?_eq (inSource_start _ _) (hfresh _) n, ?_⟩
      rw [← hb, calls_start hs, List.map_map]
      apply List.map_congr_left
      intro t ht
      have hm := mem_stream_of_mem_calls ht
      rw [hb, ← hf] at hm
      exact congrArg (Token.mk t.kind · _) (line_add_one hone hs hm)
  · intro ho n
    have hs : (ofText text).InSource := Nat.zero_le _
    have hb := inSource_start (Buffer.ofText text) bodyStart
    have hc := calls_add (ofText text) 5 n
    rw [calls_opening ho] at hc
    exact ⟨_, _, _, (calls?_eq hs (room_start h 0) _).trans (congrArg some hc), rfl,
      calls?_eq hb (room_start h bodyStart) n⟩

theorem calls_resume_unit :
    Byte.newlines (Buffer.ofText "void main()\x7b/*\n*/1;").bytes < 2 ^ 32 - 1 ∧
    Byte.ofText opening <+: Byte.ofText "void main()\x7b/*\n*/1;" ∧
    ∀ n, ∃ first more last,
      calls? .checked (5 + n) (ofText "void main()\x7b/*\n*/1;") = some (first ++ more, last) ∧
      first.length = 5 ∧
      calls? .checked n (start ((Buffer.ofText "void main()\x7b/*\n*/1;").cursorAt bodyStart)) =
        some (more, last) :=
  have hn : Byte.newlines (Buffer.ofText "void main()\x7b/*\n*/1;").bytes < 2 ^ 32 - 1 := by
    decide +kernel
  have h : Byte.ofText opening <+: Byte.ofText "void main()\x7b/*\n*/1;" := by decide +kernel
  ⟨hn, h, (calls_resume "void main()\x7b/*\n*/1;" .checked (.inr hn)).2 h⟩

end Scanner
end StaticAssert
