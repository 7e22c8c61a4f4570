import Mathlib.Order.Bounds.Basic
import StaticAssert.Proofs.Token.Cursor
import StaticAssert.Proofs.Token.Tiling

/-!
# Reading by position

What a cursor reads, said of the places of a source. The byte behind the current one can be
read at every place of a source but one: where a source lacks a single byte of filling its
blocks, the padding is the zero at its end, and behind that there is nothing. The search for
the end of a comment, which stops at newlines and slashes only and looks back for a star,
ends where reading byte by byte finds the first star with a slash behind it.
-/

set_option autoImplicit false

namespace StaticAssert

namespace Trivia

variable {bytes : List UInt8} {k : Nat}

def ClosesAt (bytes : List UInt8) (k : Nat) : Prop :=
  bytes[k]? = some Byte.star ∧ bytes[k + 1]? = some Byte.slash

theorem closesAt_zero_iff {b : UInt8} :
    ClosesAt (b :: bytes) 0 ↔ b = Byte.star ∧ bytes.head? = some Byte.slash := by
  simp [ClosesAt, List.head?_eq_getElem?]

theorem closesAt_succ_iff {b : UInt8} : ClosesAt (b :: bytes) (k + 1) ↔ ClosesAt bytes k :=
  Iff.rfl

theorem closesAt_drop_iff {position : Nat} :
    ClosesAt (bytes.drop position) k ↔ ClosesAt bytes (position + k) := by
  rw [ClosesAt, ClosesAt, List.getElem?_drop, List.getElem?_drop, Nat.add_assoc]

/-- Nothing closes a body if a star and a slash stand together nowhere. -/
theorem closing?_eq_none (h : ∀ k, ¬ ClosesAt bytes k) : closing? bytes = none := by
  induction bytes with
  | nil => rfl
  | cons b bytes ih =>
    have hb := mt closesAt_zero_iff.mpr (h 0)
    rw [closing?_cons hb, ih fun k hk => h (k + 1) (closesAt_succ_iff.mpr hk)]
    rfl

/-- A body is closed by the first star and slash that stand together. -/
theorem closing?_eq_some (h : IsLeast {k | ClosesAt bytes k} k) :
    closing? bytes = some (k + 2) := by
  induction bytes generalizing k with
  | nil => cases h.1.1
  | cons b bytes ih =>
    cases k with
    | zero =>
      have hb := closesAt_zero_iff.mp h.1
      rw [closing?, if_pos (by simp [hb])]
    | succ k =>
      have hb : ¬ ClosesAt (b :: bytes) 0 := fun h₀ => absurd (h.2 h₀) (by omega)
      have hk : IsLeast {k | ClosesAt bytes k} k := by
        refine ⟨closesAt_succ_iff.mp h.1, fun m hm => ?_⟩
        have hl : k + 1 ≤ m + 1 := h.2 (closesAt_succ_iff.mpr hm)
        omega
      rw [closing?_cons (mt closesAt_zero_iff.mpr hb), ih hk]
      rfl

end Trivia

namespace Buffer

variable {b : Buffer}

theorem read?_eq_none_iff {offset : Nat} : b.read? offset = none ↔ b.paddedSize ≤ offset := by
  unfold read?
  by_cases h : offset < b.paddedSize
  · simp [h]
  · simp [h]
    omega

theorem paddedSize_eq_succ_iff : b.paddedSize = b.size + 1 ↔ b.size % 64 = 63 := by
  unfold paddedSize blockSize
  omega

end Buffer

namespace Cursor

open Trivia

variable {c : Cursor} {k : Nat}

/-- Looking ahead leaves the padding in one place only. -/
theorem peek?_eq_none_iff (h : c.InSource) :
    c.peek? = none ↔ c.position = c.buffer.size ∧ c.buffer.size % 64 = 63 := by
  have hs : c.position ≤ c.buffer.size := h
  have hp := c.buffer.size_lt_paddedSize
  rw [peek?, Buffer.read?_eq_none_iff, ← Buffer.paddedSize_eq_succ_iff]
  omega

theorem peek?_of_ne_none (h : c.peek? ≠ none) :
    c.peek? = some (c.buffer.bytes[c.position + 1]?.getD 0) := by
  refine if_pos (Nat.lt_of_not_le fun hp => h ?_)
  exact Buffer.read?_eq_none_iff.mpr hp

/-- Within a source the byte behind the current one is read, and zero where there is none, except
at the end of a source that lacks one byte of filling its blocks: there the read falls outside. -/
theorem peek_reads_ahead (text : String) (position : Nat)
    (h : position ≤ (Buffer.ofText text).size) :
    (⟨Buffer.ofText text, position⟩ : Cursor).peek? =
      if position = (Buffer.ofText text).size ∧ (Buffer.ofText text).size % 64 = 63 then none
      else some ((Buffer.ofText text).bytes[position + 1]?.getD 0) := by
  have hn := peek?_eq_none_iff (c := ⟨Buffer.ofText text, position⟩) h
  by_cases hp : position = (Buffer.ofText text).size ∧ (Buffer.ofText text).size % 64 = 63
  · rw [if_pos hp]
    exact hn.mpr hp
  · rw [if_neg hp]
    exact peek?_of_ne_none (mt hn.mp hp)

theorem peek_reads_ahead_zero :
    62 ≤ (Buffer.ofText (String.ofList (List.replicate 63 'a'))).size ∧
    (⟨Buffer.ofText (String.ofList (List.replicate 63 'a')), 62⟩ : Cursor).peek? = some 0 := by
  have h : 62 ≤ (Buffer.ofText (String.ofList (List.replicate 63 'a'))).size := by
    decide +kernel
  exact ⟨h, (peek_reads_ahead _ 62 h).trans (by decide +kernel)⟩

/-- Behind the zero at the end of such a source there is no byte to look at. -/
theorem peek_outside :
    ¬ ∀ (text : String) (position : Nat), position ≤ (Buffer.ofText text).size →
      (⟨Buffer.ofText text, position⟩ : Cursor).peek? =
        some ((Buffer.ofText text).bytes[position + 1]?.getD 0) := by
  intro h
  have hn : (⟨Buffer.ofText (String.ofList (List.replicate 63 'a')), 63⟩ : Cursor).peek? =
      none := by
    decide +kernel
  have hs := h (String.ofList (List.replicate 63 'a')) 63 (by decide +kernel)
  rw [hn] at hs
  cases hs

theorem commentEnd_of_isLeast
    (h : IsLeast {k | c.position ≤ k ∧ ClosesAt c.buffer.bytes k} k) :
    c.commentEnd 0 =
      (⟨true, Byte.newlines (Span.slice ⟨c.position, k + 2⟩ c.buffer.bytes)⟩,
        ⟨c.buffer, k + 2⟩) := by
  obtain ⟨⟨hp, hk⟩, hl⟩ := h
  obtain ⟨n, rfl⟩ := Nat.exists_eq_add_of_le hp
  have hn : IsLeast {n | ClosesAt c.rest n} n := by
    refine ⟨closesAt_drop_iff.mpr hk, fun m hm => ?_⟩
    have := hl ⟨Nat.le_add_right _ m, closesAt_drop_iff.mp hm⟩
    omega
  have ht : c.position + n + 2 - c.position = n + 2 := by omega
  rw [commentEnd, closing?_eq_some hn, Span.slice, Span.length, ht]
  simp only [Nat.zero_add, advance, ← Nat.add_assoc]
  rfl

theorem commentEnd_of_forall (h : ∀ k, c.position ≤ k → ¬ ClosesAt c.buffer.bytes k) :
    c.commentEnd 0 =
      (⟨false, Byte.newlines (Span.slice ⟨c.position, c.buffer.size⟩ c.buffer.bytes)⟩,
        ⟨c.buffer, c.buffer.size⟩) := by
  have hn : ∀ n, ¬ ClosesAt c.rest n := fun n hn =>
    h _ (Nat.le_add_right _ n) (closesAt_drop_iff.mp hn)
  have ht : c.rest.take (c.buffer.size - c.position) = c.rest :=
    List.take_of_length_le (Nat.le_of_eq c.length_rest)
  rw [commentEnd, closing?_eq_none hn, Nat.zero_add, moveToEnd, ← ht]
  rfl

/-- The search for the end of a comment agrees with reading byte by byte. The first star and slash
that stand together, at the cursor or behind, end the comment; where there are none it runs to
the end of the source. Newlines are those on the way, and what stands before the cursor plays no
part: the star of an opening closes nothing. -/
theorem comment_ends_at_first (text : String) (position : Nat) (hp : 1 ≤ position)
    (hs : position ≤ (Buffer.ofText text).size) :
    (∀ k, IsLeast {k | position ≤ k ∧ ClosesAt (Buffer.ofText text).bytes k} k →
      (⟨Buffer.ofText text, position⟩ : Cursor).eatBlockComment? =
        some (⟨true, Byte.newlines (Span.slice ⟨position, k + 2⟩ (Buffer.ofText text).bytes)⟩,
          ⟨Buffer.ofText text, k + 2⟩)) ∧
    ((∀ k, position ≤ k → ¬ ClosesAt (Buffer.ofText text).bytes k) →
      (⟨Buffer.ofText text, position⟩ : Cursor).eatBlockComment? =
        some (⟨false, Byte.newlines
            (Span.slice ⟨position, (Buffer.ofText text).size⟩ (Buffer.ofText text).bytes)⟩,
          ⟨Buffer.ofText text, (Buffer.ofText text).size⟩)) := by
  have he : (⟨Buffer.ofText text, position⟩ : Cursor).eatBlockComment? =
      some ((⟨Buffer.ofText text, position⟩ : Cursor).commentEnd 0) :=
    eatBlockComment?_eq hs hp
  constructor
  · intro k hk
    rw [he, commentEnd_of_isLeast hk]
  · intro hn
    rw [he, commentEnd_of_forall hn]

/-- A slash behind the star of the opening leaves the comment open. -/
theorem comment_ends_at_first_opening :
    (1 ≤ 2 ∧ 2 ≤ (Buffer.ofText "/*/").size ∧
      ∀ k, 2 ≤ k → ¬ ClosesAt (Buffer.ofText "/*/").bytes k) ∧
    (⟨Buffer.ofText "/*/", 2⟩ : Cursor).eatBlockComment? =
      some (⟨false, 0⟩, ⟨Buffer.ofText "/*/", 3⟩) := by
  have hs : 2 ≤ (Buffer.ofText "/*/").size := by decide +kernel
  have hn : ∀ k, 2 ≤ k → ¬ ClosesAt (Buffer.ofText "/*/").bytes k := by
    rintro k hk ⟨hc, -⟩
    have hl := (List.getElem?_eq_some_iff.mp hc).1
    have hk : k = 2 := by
      have : (Buffer.ofText "/*/").bytes.length = 3 := by decide +kernel
      omega
    subst hk
    revert hc
    decide +kernel
  refine ⟨⟨by decide, hs, hn⟩, ?_⟩
  exact ((comment_ends_at_first "/*/" 2 (by decide) hs).2 hn).trans (by decide +kernel)

end Cursor
end StaticAssert
