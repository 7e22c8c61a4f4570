import StaticAssert.Proofs.Compile.Statements
import StaticAssert.Proofs.Token.Placing
import StaticAssert.Proofs.Token.Requests

/-!
# Places in the body of a unit

What is recorded about a unit is placed behind its opening: it has a line of the text, and
a span that is not empty and runs from one place between characters to another. The tokens
of the unit are placed so, and spans that are merged from placed ones are placed as well.
-/

set_option autoImplicit false

namespace StaticAssert

open scoped Stream'

structure Span.Placed (text : String) (s : Span) : Prop where
  behind : 12 ≤ s.start
  nonempty : s.start < s.stop
  starts : Text.IsBoundary text s.start
  stops : Text.IsBoundary text s.stop

namespace Span.Placed

variable {text : String} {s t : Span}

theorem merge (hs : s.Placed text) (ht : t.Placed text) : (s.merge t).Placed text where
  behind := Nat.le_min.mpr ⟨hs.behind, ht.behind⟩
  nonempty := Nat.lt_of_le_of_lt (Nat.min_le_left _ _)
    (Nat.lt_of_lt_of_le hs.nonempty (Nat.le_max_left _ _))
  starts := by
    rcases Nat.le_total s.start t.start with h | h
    · rw [Span.merge, Nat.min_eq_left h]
      exact hs.starts
    · rw [Span.merge, Nat.min_eq_right h]
      exact ht.starts
  stops := by
    rcases Nat.le_total s.stop t.stop with h | h
    · rw [Span.merge, Nat.max_eq_right h]
      exact ht.stops
    · rw [Span.merge, Nat.max_eq_left h]
      exact hs.stops

theorem exists_slice? (h : s.Placed text) : ∃ cut, Text.slice? text s = some cut :=
  Text.exists_slice? h.starts h.stops (Nat.le_of_lt h.nonempty)

end Span.Placed

def HasLine (text : String) (line : Nat) : Prop :=
  1 ≤ line ∧ line ≤ 1 + Byte.newlines (Byte.ofText text)

section UnitTokens

variable {text : String} {t : Token}

theorem ordered_unitTokens (text : String) : Token.Ordered (unitTokens text) :=
  Token.ordered_stream _

theorem start_le_of_mem_unitTokens (ho : opens text = true) (ht : t ∈ unitTokens text) :
    12 ≤ t.span.start := by
  have hp : min 12 (Buffer.ofText text).size ≤ t.span.start :=
    Scanner.position_le_of_mem_stream ht
  rwa [Nat.min_eq_left (bodyStart_le_size ho)] at hp

theorem hasLine_of_mem_unitTokens (ho : opens text = true) (ht : t ∈ unitTokens text) :
    HasLine text t.line := by
  rw [line_of_mem_unitTokens ho ht]
  exact ⟨Nat.le_add_right _ _,
    Nat.add_le_add_left (List.Sublist.count_le _ (List.take_sublist _ _)) 1⟩

theorem exists_lexeme_of_mem_unitTokens (ht : t ∈ unitTokens text) :
    ∃ before lexeme after, (Buffer.ofText text).bytes = before ++ (lexeme ++ after) ∧
      t.span = ⟨before.length, before.length + lexeme.length⟩ ∧ IsLexeme t.kind lexeme after :=
  Scanner.exists_lexeme_of_mem_stream (Scanner.inSource_start (Buffer.ofText text) 12) ht

/-- A token of the body is placed, unless it is a byte that is not ASCII or a comment that is cut
with the text. -/
theorem placed_of_mem_unitTokens (ho : opens text = true) (ht : t ∈ unitTokens text)
    (hk : t.kind ≠ .eof) (hh : t.kind.isHighByte = false)
    (hc : t.kind ≠ .lexError .commentNotClosed ∨ Text.IsBoundary text (Buffer.ofText text).size) :
    t.span.Placed text := by
  obtain ⟨before, lexeme, after, hb, hs, hl⟩ := exists_lexeme_of_mem_unitTokens ht
  have hn := hl.length_pos hk
  have h12 := start_le_of_mem_unitTokens ho ht
  rw [hs] at h12 ⊢
  exact ⟨h12, Nat.lt_add_of_pos_right hn, hl.isBoundary_start hk hh hb,
    hl.isBoundary_stop hk hh hb hc⟩

theorem placed_of_not_lexical (ho : opens text = true) (ht : t ∈ unitTokens text)
    (hk : t.kind ≠ .eof) (hl : ∀ e, t.kind ≠ .lexError e) : t.span.Placed text := by
  apply placed_of_mem_unitTokens ho ht hk
  · unfold Kind.isHighByte
    split
    next b hb => exact absurd hb (hl _)
    next => rfl
  · exact .inl (hl _)

end UnitTokens
end StaticAssert
