import StaticAssert.Proofs.Token.Stream

/-!
# Tokens in order

The tokens to come stand one behind the other, and all but the end of input take bytes.
So the place where a token begins tells which token it is, and two stretches of tokens
that begin at the same place are stretches of the same tokens.
-/

set_option autoImplicit false

namespace StaticAssert

open scoped Stream'

namespace Scanner

theorem span_next {s : Scanner} (h : s.next.1.kind ≠ .eof) :
    s.position ≤ s.next.1.span.start ∧ s.next.1.span.start < s.next.1.span.stop := by
  have hr : s.skip.cursor.rest ≠ [] := fun he => h (Lexeme.read_kind_eq_eof_iff.mpr he)
  obtain ⟨b, rest, hc⟩ := List.exists_cons_of_ne_nil hr
  have hl : 1 ≤ s.skip.lexeme.length := by
    rw [lexeme, hc]
    exact (Lexeme.read_length_bounds b rest).1
  exact ⟨Nat.le_add_right _ _, Nat.lt_add_of_pos_right hl⟩

theorem position_le_of_mem_stream {s : Scanner} {t : Token} (ht : t ∈ s.stream) :
    s.position ≤ t.span.start := by
  refine forall_mem_stream (P := fun s' => s.position ≤ s'.position)
    (Q := fun t => s.position ≤ t.span.start) ?_ (Nat.le_refl _) t ht
  intro s' h
  have hs : s.position ≤ s'.skip.position := Nat.le_trans h (Nat.le_add_right _ _)
  exact ⟨hs, Nat.le_trans hs (Nat.le_add_right _ _)⟩

end Scanner

namespace Token

def Ordered (tokens : Stream' Token) : Prop :=
  -- All but the end of input take bytes, and what comes later stands behind them.
  ∀ i, (tokens.get i).kind ≠ .eof →
    (tokens.get i).span.start < (tokens.get i).span.stop ∧
      ∀ j, i < j → (tokens.get i).span.stop ≤ (tokens.get j).span.start

structure InOrder (tokens : List Token) : Prop where
  nonempty : ∀ t ∈ tokens, t.span.start < t.span.stop
  behind : tokens.Pairwise fun s t => s.span.stop ≤ t.span.start

theorem ordered_stream (s : Scanner) : Ordered s.stream := by
  intro i
  induction i generalizing s with
  | zero =>
    intro hk
    rw [s.stream_eq, Stream'.get_zero_cons] at hk ⊢
    refine ⟨(Scanner.span_next hk).2, ?_⟩
    intro j hj
    obtain ⟨j, rfl⟩ := Nat.exists_eq_succ_of_ne_zero (Nat.ne_of_gt hj)
    rw [Stream'.get_succ_cons]
    exact Scanner.position_le_of_mem_stream (Stream'.mem_of_get_eq rfl)
  | succ i ih =>
    rw [s.stream_eq, Stream'.get_succ_cons]
    intro hk
    obtain ⟨hn, hb⟩ := ih s.next.2 hk
    refine ⟨hn, ?_⟩
    intro j hj
    obtain ⟨j, rfl⟩ := Nat.exists_eq_succ_of_ne_zero (Nat.ne_zero_of_lt hj)
    exact hb j (Nat.lt_of_succ_lt_succ hj)

variable {t u : Token} {xs ys : List Token} {rest rest' : Stream' Token}

theorem InOrder.sublist (h : InOrder ys) (hs : xs.Sublist ys) : InOrder xs where
  nonempty t ht := h.nonempty t (hs.subset ht)
  behind := h.behind.sublist hs

namespace Ordered

theorem head (h : Ordered (t :: rest)) (hk : t.kind ≠ .eof) :
    t.span.start < t.span.stop ∧ ∀ u ∈ rest, t.span.stop ≤ u.span.start := by
  obtain ⟨hn, hb⟩ := h 0 hk
  refine ⟨hn, ?_⟩
  rintro u ⟨j, hj⟩
  change u = rest.get j at hj
  rw [hj]
  exact hb (j + 1) (Nat.succ_pos j)

theorem tail (h : Ordered (t :: rest)) : Ordered rest := by
  intro i hk
  obtain ⟨hn, hb⟩ := h (i + 1) hk
  exact ⟨hn, fun j hj => hb (j + 1) (Nat.succ_lt_succ hj)⟩

theorem drop (h : Ordered (xs ++ₛ rest)) : Ordered rest := by
  induction xs with
  | nil => exact h
  | cons t xs ih => exact ih h.tail

theorem inOrder (h : Ordered (xs ++ₛ rest)) (hk : ∀ t ∈ xs, t.kind ≠ .eof) : InOrder xs := by
  induction xs with
  | nil => exact ⟨by simp, .nil⟩
  | cons t xs ih =>
    obtain ⟨ht, hxs⟩ := List.forall_mem_cons.mp hk
    obtain ⟨hn, hb⟩ := h.head ht
    have hi := ih h.tail hxs
    refine ⟨List.forall_mem_cons.mpr ⟨hn, hi.nonempty⟩, List.pairwise_cons.mpr ⟨?_, hi.behind⟩⟩
    intro u hu
    exact hb u (Stream'.mem_append_stream_left rest hu)

theorem eq_of_start (h : Ordered (xs ++ₛ t :: rest)) (he : xs ++ₛ t :: rest = ys ++ₛ u :: rest')
    (ht : t.kind ≠ .eof) (hu : u.kind ≠ .eof) (hs : t.span.start = u.span.start) :
    t :: rest = u :: rest' := by
  induction xs generalizing ys with
  | nil =>
    cases ys with
    | nil => exact he
    | cons y ys =>
      obtain ⟨rfl, hr⟩ := Stream'.cons_injective2 he
      obtain ⟨hn, hb⟩ := h.head ht
      have hm : u ∈ rest := by
        rw [show rest = ys ++ₛ u :: rest' from hr]
        exact Stream'.mem_append_stream_right _ (Stream'.mem_cons _ _)
      have := hb u hm
      omega
  | cons x xs ih =>
    cases ys with
    | nil =>
      obtain ⟨rfl, hr⟩ := Stream'.cons_injective2 he
      obtain ⟨hn, hb⟩ := h.head hu
      have := hb t (Stream'.mem_append_stream_right _ (Stream'.mem_cons _ _))
      omega
    | cons y ys =>
      obtain ⟨rfl, hr⟩ := Stream'.cons_injective2 he
      exact ih h.tail hr

end Ordered

theorem prefix_or_prefix (h : xs ++ₛ rest = ys ++ₛ rest') : xs <+: ys ∨ ys <+: xs := by
  have hx : (xs ++ₛ rest).take xs.length = xs := by
    rw [Stream'.take_append_of_le_length _ _ _ (Nat.le_refl _), List.take_length]
  have hy : (ys ++ₛ rest').take ys.length = ys := by
    rw [Stream'.take_append_of_le_length _ _ _ (Nat.le_refl _), List.take_length]
  rw [← h] at hy
  rcases Nat.le_total xs.length ys.length with hl | hl
  · have hp := Stream'.take_prefix_take_left xs.length ys.length (xs ++ₛ rest) hl
    rw [hx, hy] at hp
    exact .inl hp
  · have hp := Stream'.take_prefix_take_left ys.length xs.length (xs ++ₛ rest) hl
    rw [hx, hy] at hp
    exact .inr hp

end Token
end StaticAssert
