import StaticAssert.Proofs.Text.Cuts

/-!
# Places between characters

A text can be cut at its end and on both sides of any ASCII byte. Between two such places
there is text to show, and a span has text to show only if it runs from one of them to
another: a byte that is no ASCII byte has no text of its own.
-/

set_option autoImplicit false

namespace StaticAssert

theorem Byte.eq_empty_of_ofText {text : String} (h : (ofText text).length = 0) : text = "" :=
  ofText_injective (List.eq_nil_of_length_eq_zero h)

namespace Text

/-- The place is not inside a character. -/
def IsBoundary (text : String) (n : Nat) : Prop :=
  ∃ before after : String, text = before ++ after ∧ (Byte.ofText before).length = n

variable {text cut : String} {m n : Nat} {b : UInt8} {xs ys : List UInt8}

theorem IsBoundary.le (h : IsBoundary text n) : n ≤ (Byte.ofText text).length := by
  obtain ⟨before, after, rfl, rfl⟩ := h
  rw [Byte.ofText_append, List.length_append]
  exact Nat.le_add_right _ _

theorem isBoundary_of_ascii (h : Byte.ofText text = xs ++ b :: ys) (hb : b.toNat < 128) :
    IsBoundary text xs.length ∧ IsBoundary text (xs.length + 1) := by
  obtain ⟨before, after, c, hl, hx, hc, -⟩ := Byte.exists_append_of_flatMap hb h
  have ht : text = String.ofList (before ++ c :: after) := by
    rw [← hl, String.ofList_toList]
  constructor
  · refine ⟨String.ofList before, String.ofList (c :: after), ?_, ?_⟩
    · rw [ht, String.ofList_append]
    · rw [Byte.ofText, String.toList_ofList, hx]
  · refine ⟨String.ofList (before ++ [c]), String.ofList after, ?_, ?_⟩
    · rw [ht, ← String.ofList_append, List.append_assoc, List.singleton_append]
    · rw [Byte.ofText, String.toList_ofList, List.flatMap_append, hx, List.flatMap_singleton, hc,
        List.length_append, List.length_singleton]

theorem exists_of_dropBytes? {cs ds : List Char} (h : dropBytes? cs n = some ds) :
    ∃ before, cs = before ++ ds ∧ (before.flatMap String.utf8EncodeChar).length = n := by
  fun_induction dropBytes? cs n with
  | case1 cs =>
    cases h
    exact ⟨[], rfl, rfl⟩
  | case2 n => cases h
  | case3 c cs n hc ih =>
    obtain ⟨before, rfl, hn⟩ := ih h
    refine ⟨c :: before, rfl, ?_⟩
    rw [List.flatMap_cons, List.length_append, hn, String.length_utf8EncodeChar]
    omega
  | case4 n c cs hc => cases h

theorem exists_of_takeBytes? {cs ds : List Char} (h : takeBytes? cs n = some ds) :
    ∃ after, cs = ds ++ after ∧ (ds.flatMap String.utf8EncodeChar).length = n := by
  fun_induction takeBytes? cs n generalizing ds with
  | case1 cs =>
    cases h
    exact ⟨cs, rfl, rfl⟩
  | case2 n => cases h
  | case3 c cs n hc ih =>
    obtain ⟨es, he, rfl⟩ := Option.map_eq_some_iff.mp h
    obtain ⟨after, rfl, hn⟩ := ih he
    refine ⟨after, rfl, ?_⟩
    rw [List.flatMap_cons, List.length_append, hn, String.length_utf8EncodeChar]
    omega
  | case4 n c cs hc => cases h

theorem exists_of_slice? (h : slice? text ⟨m, n⟩ = some cut) :
    ∃ before after : String, text = before ++ cut ++ after ∧
      (Byte.ofText before).length = m ∧ m + (Byte.ofText cut).length = n := by
  obtain ⟨cs, hc, rfl⟩ := Option.map_eq_some_iff.mp h
  rw [sliceChars?] at hc
  split at hc
  next hmn =>
    have hmn : m ≤ n := hmn
    obtain ⟨ds, hd, ht⟩ := Option.bind_eq_some_iff.mp hc
    obtain ⟨before, hb, hm⟩ := exists_of_dropBytes? hd
    obtain ⟨after, rfl, hn⟩ := exists_of_takeBytes? ht
    refine ⟨String.ofList before, String.ofList after, ?_, ?_, ?_⟩
    · rw [← String.ofList_append, ← String.ofList_append, List.append_assoc, ← hb,
        String.ofList_toList]
    · rw [Byte.ofText, String.toList_ofList, hm]
    · rw [Byte.ofText, String.toList_ofList, hn]
      exact Nat.add_sub_cancel' hmn
  next => cases hc

theorem exists_slice? (hm : IsBoundary text m) (hn : IsBoundary text n) (h : m ≤ n) :
    ∃ cut, slice? text ⟨m, n⟩ = some cut := by
  obtain ⟨before, rest, rfl, rfl⟩ := hm
  obtain ⟨before', rest', ht, rfl⟩ := hn
  have hl := congrArg String.toList ht
  rw [String.toList_append, String.toList_append, List.append_eq_append_iff] at hl
  rcases hl with ⟨cs, hc, hr⟩ | ⟨cs, hc, hr⟩
  · have hb : before' = before ++ String.ofList cs := by
      rw [← String.ofList_toList (s := before'), hc, String.ofList_append, String.ofList_toList]
    have hr : rest = String.ofList cs ++ rest' := by
      rw [← String.ofList_toList (s := rest), hr, String.ofList_append, String.ofList_toList]
    refine ⟨String.ofList cs, ?_⟩
    rw [hb, hr, Byte.ofText_append, List.length_append, ← String.append_assoc]
    exact slice?_append before (String.ofList cs) rest'
  · -- The first place is not behind the second, so they are the same.
    have hb : before = before' ++ String.ofList cs := by
      rw [← String.ofList_toList (s := before), hc, String.ofList_append, String.ofList_toList]
    have hz : (Byte.ofText (String.ofList cs)).length = 0 := by
      rw [hb, Byte.ofText_append, List.length_append] at h
      omega
    rw [Byte.eq_empty_of_ofText hz, String.append_empty] at hb
    refine ⟨"", ?_⟩
    have hs := slice?_append before "" rest
    rw [String.append_empty] at hs
    rw [← hb]
    exact hs

/-- A span selects what lies between two places, the first of which is not behind the second. -/
theorem exists_slice?_iff {span : Span} :
    (∃ cut, slice? text span = some cut) ↔
      span.start ≤ span.stop ∧ IsBoundary text span.start ∧ IsBoundary text span.stop := by
  constructor
  · rintro ⟨cut, hc⟩
    obtain ⟨before, after, rfl, hm, hn⟩ := exists_of_slice? hc
    refine ⟨hn ▸ Nat.le_add_right _ _, ⟨before, cut ++ after, String.append_assoc, hm⟩,
      ⟨before ++ cut, after, rfl, ?_⟩⟩
    rw [Byte.ofText_append, List.length_append, hm, hn]
  · rintro ⟨h, hm, hn⟩
    exact exists_slice? hm hn h

end Text
end StaticAssert
