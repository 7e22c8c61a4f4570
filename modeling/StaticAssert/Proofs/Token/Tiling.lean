import StaticAssert.Proofs.Token.Scan
import StaticAssert.Proofs.Token.Stream

/-!
# Tokens tile a source

No byte of a source is lost or taken twice. Tokens stand one behind the other, each on
some bytes, and between them are stretches of what is skipped. The text that a token
stands on has, in front of the rest of the source, one kind in the lexical grammar, and
this is the kind of the token.
-/

set_option autoImplicit false

namespace StaticAssert

namespace Span

end Span

namespace Scans

variable {position : Nat} {line : UInt32} {bytes : List UInt8} {tokens : List Token}

end Scans

namespace Scanner

def InSource (s : Scanner) : Prop := s.position ≤ s.cursor.buffer.size

theorem inSource_start (b : Buffer) (offset : Nat) : (start (b.cursorAt offset)).InSource :=
  Nat.min_le_right offset b.size

theorem inSource_of_mem_stream {s : Scanner} {t : Token} (ht : t ∈ s.stream)
    (hk : t.kind ≠ .eof) : s.InSource := by
  by_contra hn
  refine hk (forall_mem_stream (P := fun s' => ¬ s'.InSource) (Q := fun t => t.kind = .eof)
    ?_ hn t ht)
  intro s' hs
  have hp : s'.cursor.buffer.size < s'.position := Nat.lt_of_not_le hs
  have hskip : s'.position ≤ s'.skip.position := Nat.le_add_right _ _
  have hnext : s'.skip.position ≤ s'.next.2.position := Nat.le_add_right _ _
  have hr : s'.skip.cursor.rest = [] :=
    List.drop_eq_nil_of_le (Nat.le_trans (Nat.le_of_lt hp) hskip)
  refine ⟨Lexeme.read_kind_eq_eof_iff.mpr hr, fun h => ?_⟩
  have hle : s'.next.2.position ≤ s'.cursor.buffer.size := h
  omega

theorem exists_lexeme_next {s : Scanner} (h : s.InSource) :
    (∃ before lexeme after, s.cursor.buffer.bytes = before ++ (lexeme ++ after) ∧
      s.next.1.span = ⟨before.length, before.length + lexeme.length⟩ ∧
      IsLexeme s.next.1.kind lexeme after) ∧ s.next.2.InSource := by
  obtain ⟨gap, lexeme, after, kind, hr, hg, hl⟩ := exists_stretch_lexeme s.cursor.rest
  have hp : (s.cursor.buffer.bytes.take s.position).length = s.position :=
    List.length_take_of_le h
  have hb : s.cursor.buffer.bytes =
      (s.cursor.buffer.bytes.take s.position ++ gap) ++ (lexeme ++ after) := by
    rw [List.append_assoc, ← hr]
    exact (List.take_append_drop _ _).symm
  have hs : (s.cursor.buffer.bytes.take s.position ++ gap).length = s.position + gap.length := by
    rw [List.length_append, hp]
  rw [next_eq hr hg hl]
  refine ⟨⟨_, lexeme, after, hb, by rw [hs], hl⟩, ?_⟩
  show s.position + gap.length + lexeme.length ≤ s.cursor.buffer.bytes.length
  rw [hb, List.length_append, hs, List.length_append]
  omega

/-- Every token of the stream stands on a lexeme of its kind. -/
theorem exists_lexeme_of_mem_stream {s : Scanner} (h : s.InSource) {t : Token}
    (ht : t ∈ s.stream) :
    ∃ before lexeme after, s.cursor.buffer.bytes = before ++ (lexeme ++ after) ∧
      t.span = ⟨before.length, before.length + lexeme.length⟩ ∧
      IsLexeme t.kind lexeme after := by
  refine forall_mem_stream (P := fun s' => s'.InSource ∧ s'.cursor.buffer = s.cursor.buffer)
    (Q := fun t => ∃ before lexeme after, s.cursor.buffer.bytes = before ++ (lexeme ++ after) ∧
      t.span = ⟨before.length, before.length + lexeme.length⟩ ∧
      IsLexeme t.kind lexeme after) ?_ ⟨h, rfl⟩ t ht
  rintro s' ⟨h', hb⟩
  obtain ⟨hl, hn⟩ := exists_lexeme_next h'
  rw [hb] at hl
  exact ⟨hl, hn, hb⟩

theorem stop_le_of_mem_stream {s : Scanner} (h : s.InSource) {t : Token} (ht : t ∈ s.stream) :
    t.span.start ≤ t.span.stop ∧ t.span.stop ≤ s.cursor.buffer.size := by
  obtain ⟨before, lexeme, after, hb, hs, -⟩ := exists_lexeme_of_mem_stream h ht
  rw [hs, Buffer.size, hb]
  simp only [List.length_append]
  omega

theorem isLexeme_of_mem_stream {s : Scanner} (h : s.InSource) {t : Token} (ht : t ∈ s.stream) :
    IsLexeme t.kind (t.span.slice s.cursor.buffer.bytes)
      (s.cursor.buffer.bytes.drop t.span.stop) := by
  obtain ⟨before, lexeme, after, hb, hs, hl⟩ := exists_lexeme_of_mem_stream h ht
  rw [hb, hs, Span.slice_append, ← List.append_assoc, List.drop_left' List.length_append]
  exact hl

end Scanner

end StaticAssert
