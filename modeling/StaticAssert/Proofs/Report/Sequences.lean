import StaticAssert.Diagnostic.Render
import StaticAssert.Source.Byte

/-!
# Terminal sequences among bytes

There are four sequences. Each begins with an escape byte and has no other, and none of them
is the beginning of another. So bytes without an escape stand between sequences, and it is
known which sequence an escape begins. Sequences are deleted one by one from the left, and
every style is closed if the reset follows on the same line, before any other sequence.
-/

set_option autoImplicit false

namespace StaticAssert

def Byte.escape : UInt8 := 27

open Byte (escape newline ofText)

namespace Style

def opening (style : Style) : List UInt8 := ofText style.sequence

def closing : List UInt8 := ofText reset

def sequences : List (List UInt8) := [opening .error, opening .bold, opening .secondary, closing]

def stripFrom : Nat → List UInt8 → List UInt8
  -- Delete the sequences, while so many bytes of one are still to be passed over.
  | _, [] => []
  | n + 1, _ :: bytes => stripFrom n bytes
  | 0, b :: bytes =>
    match sequences.find? (·.isPrefixOf (b :: bytes)) with
    | some sequence => stripFrom (sequence.length - 1) bytes
    | none => b :: stripFrom 0 bytes

def strip (bytes : List UInt8) : List UInt8 := stripFrom 0 bytes

variable {bytes xs ys s t : List UInt8} {style : Style}

theorem opening_mem (style : Style) : style.opening ∈ sequences := by
  cases style <;> simp [sequences]

theorem closing_mem : closing ∈ sequences := by
  simp [sequences]

theorem opening_ne_closing (style : Style) : style.opening ≠ closing := by
  cases style <;> decide +kernel

theorem exists_cons_of_mem (hs : s ∈ sequences) : ∃ tail, s = escape :: tail ∧ escape ∉ tail := by
  have h : ∀ s ∈ sequences, s.head? = some escape ∧ escape ∉ s.tail := by decide +kernel
  obtain ⟨hh, ht⟩ := h s hs
  obtain ⟨tail, rfl⟩ := List.head?_eq_some_iff.mp hh
  exact ⟨tail, rfl, ht⟩

/-- No two sequences begin alike. -/
theorem append_inj (hs : s ∈ sequences) (ht : t ∈ sequences) (h : s ++ xs = t ++ ys) :
    s = t ∧ xs = ys := by
  have alone : ∀ s ∈ sequences, ∀ t ∈ sequences, s <+: t → s = t := by decide +kernel
  have he : s = t := by
    rcases List.prefix_or_prefix_of_prefix (h ▸ List.prefix_append s xs)
      (List.prefix_append t ys) with hp | hp
    · exact alone s hs t ht hp
    · exact (alone t ht s hs hp).symm
  subst he
  exact ⟨rfl, List.append_cancel_left h⟩

section Strip

theorem stripFrom_length (xs ys : List UInt8) : stripFrom xs.length (xs ++ ys) = strip ys := by
  induction xs with
  | nil => rfl
  | cons b xs ih => exact ih

theorem strip_append (hs : s ∈ sequences) (bytes : List UInt8) :
    strip (s ++ bytes) = strip bytes := by
  have hf : sequences.find? (·.isPrefixOf (s ++ bytes)) = some s := by
    cases hf : sequences.find? (·.isPrefixOf (s ++ bytes)) with
    | none =>
      have hn := List.find?_eq_none.mp hf s hs
      exact absurd (List.isPrefixOf_iff_prefix.mpr (List.prefix_append s bytes)) hn
    | some t =>
      obtain ⟨rest, hr⟩ : t <+: s ++ bytes := by simpa using List.find?_some hf
      rw [(append_inj (List.mem_of_find?_eq_some hf) hs hr).1]
  obtain ⟨tail, rfl, -⟩ := exists_cons_of_mem hs
  rw [List.cons_append] at hf ⊢
  rw [strip, stripFrom, hf]
  exact stripFrom_length tail bytes

theorem strip_append_of_not_mem (h : escape ∉ xs) (bytes : List UInt8) :
    strip (xs ++ bytes) = xs ++ strip bytes := by
  induction xs with
  | nil => rfl
  | cons b xs ih =>
    obtain ⟨hb, hx⟩ := not_or.mp (mt List.mem_cons.mpr h)
    have hf : sequences.find? (·.isPrefixOf (b :: (xs ++ bytes))) = none := by
      refine List.find?_eq_none.mpr fun s hs hp => ?_
      obtain ⟨tail, rfl, -⟩ := exists_cons_of_mem hs
      obtain ⟨rest, hr⟩ := List.isPrefixOf_iff_prefix.mp hp
      exact hb (List.cons.inj hr).1
    rw [List.cons_append, strip, stripFrom, hf]
    exact congrArg (List.cons b) (ih hx)

end Strip

section Closed

def Resets (bytes : List UInt8) : Prop :=
  ∃ body rest, bytes = body ++ (closing ++ rest) ∧ escape ∉ body ∧ newline ∉ body

/-- Wherever a style is opened it is reset in time. -/
def Closed (bytes : List UInt8) : Prop :=
  ∀ (before : List UInt8) (style : Style) (after : List UInt8),
    bytes = before ++ (style.opening ++ after) → Resets after

theorem closed_nil : Closed [] := by
  intro before style after h
  obtain ⟨tail, ht, -⟩ := exists_cons_of_mem style.opening_mem
  rw [ht] at h
  simp at h

theorem closed_cons {b : UInt8} (hc : Closed bytes)
    (hb : ∀ style after, b :: bytes = opening style ++ after → Resets after) :
    Closed (b :: bytes) := by
  intro before style after h
  cases before with
  | nil => exact hb style after h
  | cons d before => exact hc before style after (List.cons.inj h).2

theorem closed_append_of_not_mem (h : escape ∉ xs) (hc : Closed bytes) : Closed (xs ++ bytes) := by
  induction xs with
  | nil => exact hc
  | cons b xs ih =>
    obtain ⟨hb, hx⟩ := not_or.mp (mt List.mem_cons.mpr h)
    refine closed_cons (ih hx) fun style after he => ?_
    obtain ⟨tail, ht, -⟩ := exists_cons_of_mem style.opening_mem
    rw [ht] at he
    exact absurd (List.cons.inj he).1.symm hb

/-- A sequence has one place where a style can be opened, its beginning. -/
theorem closed_append (hs : s ∈ sequences) (hc : Closed bytes)
    (ho : ∀ style, opening style = s → Resets bytes) : Closed (s ++ bytes) := by
  obtain ⟨tail, rfl, ht⟩ := exists_cons_of_mem hs
  refine closed_cons (closed_append_of_not_mem ht hc) fun style after he => ?_
  obtain ⟨hs', rfl⟩ := append_inj style.opening_mem hs he.symm
  exact ho style hs'

theorem closed_closing (hc : Closed bytes) : Closed (closing ++ bytes) :=
  closed_append closing_mem hc fun style h => absurd h style.opening_ne_closing

theorem closed_opening (style : Style) (he : escape ∉ xs) (hn : newline ∉ xs) (hc : Closed bytes) :
    Closed (style.opening ++ (xs ++ (closing ++ bytes))) :=
  closed_append style.opening_mem (closed_append_of_not_mem he (closed_closing hc))
    fun _ _ => ⟨xs, bytes, rfl, he, hn⟩

end Closed

end Style
end StaticAssert
