import StaticAssert.Proofs.Token.Printing
import StaticAssert.Text.Slice

/-!
# Texts cut between characters

The bytes of a character that is not ASCII are all above 127. So wherever an ASCII byte
stands among the bytes of a text, an ASCII character stands in the text, and the text can be
cut on either side of it. What lies between two cuts is the text under its span.
-/

set_option autoImplicit false

namespace StaticAssert

namespace Byte

/-- An ASCII byte is a character by itself. -/
theorem utf8EncodeChar_eq_of_mem {c : Char} {b : UInt8} (h : b ∈ String.utf8EncodeChar c)
    (hb : b.toNat < 128) : String.utf8EncodeChar c = [b] := by
  by_cases hc : c.val.toNat ≤ 127
  · rw [String.utf8EncodeChar_eq_singleton (Char.utf8Size_eq_one_iff.mpr hc)] at h ⊢
    rw [List.mem_singleton.mp h]
  · exfalso
    revert h
    simp only [String.utf8EncodeChar, if_neg hc]
    split
    · simp only [List.mem_cons, List.not_mem_nil, or_false]
      rintro (rfl | rfl) <;> simp at hb <;> omega
    split
    · simp only [List.mem_cons, List.not_mem_nil, or_false]
      rintro (rfl | rfl | rfl) <;> simp at hb <;> omega
    · simp only [List.mem_cons, List.not_mem_nil, or_false]
      rintro (rfl | rfl | rfl | rfl) <;> simp at hb <;> omega

theorem mem_ofText_iff {c : Char} (hc : c.val ≤ 127) {text : String} :
    c.val.toUInt8 ∈ ofText text ↔ c ∈ text.toList := by
  have he : String.utf8EncodeChar c = [c.val.toUInt8] :=
    String.utf8EncodeChar_eq_singleton (Char.utf8Size_eq_one_iff.mpr hc)
  rw [ofText, List.mem_flatMap]
  constructor
  · rintro ⟨d, hd, hm⟩
    have hb : c.val.toUInt8.toNat < 128 := by
      have hn : c.val.toNat ≤ 127 := hc
      rw [UInt32.toNat_toUInt8]
      omega
    have hs : ofText (String.singleton d) = ofText (String.singleton c) := by
      simp [ofText, he, utf8EncodeChar_eq_of_mem hm hb]
    obtain rfl : d = c := by simpa using congrArg String.toList (ofText_injective hs)
    exact hd
  · intro h
    exact ⟨c, h, by rw [he]; exact List.mem_singleton_self _⟩

theorem exists_append_of_flatMap {b : UInt8} (hb : b.toNat < 128) {cs : List Char}
    {xs ys : List UInt8} (h : cs.flatMap String.utf8EncodeChar = xs ++ b :: ys) :
    ∃ (before after : List Char) (c : Char), cs = before ++ c :: after ∧
      before.flatMap String.utf8EncodeChar = xs ∧ String.utf8EncodeChar c = [b] ∧
      after.flatMap String.utf8EncodeChar = ys := by
  induction cs generalizing xs with
  | nil => cases xs <;> cases h
  | cons c cs ih =>
    rw [List.flatMap_cons, List.append_eq_append_iff] at h
    rcases h with ⟨zs, rfl, hr⟩ | ⟨zs, hc, hr⟩
    · obtain ⟨before, after, d, rfl, rfl, hd, hy⟩ := ih hr
      exact ⟨c :: before, after, d, rfl, rfl, hd, hy⟩
    cases zs with
    | nil =>
      -- The character ends just before the byte.
      have hr' : cs.flatMap String.utf8EncodeChar = [] ++ b :: ys := hr.symm
      rw [List.append_nil] at hc
      obtain ⟨before, after, d, rfl, hx, hd, hy⟩ := ih hr'
      refine ⟨c :: before, after, d, rfl, ?_, hd, hy⟩
      rw [List.flatMap_cons, hx, List.append_nil, hc]
    | cons z zs =>
      obtain ⟨rfl, rfl⟩ := List.cons.inj hr
      have hm : b ∈ String.utf8EncodeChar c := by
        rw [hc]
        exact List.mem_append_right _ List.mem_cons_self
      have he := utf8EncodeChar_eq_of_mem hm hb
      rw [he] at hc
      obtain ⟨rfl, rfl⟩ : xs = [] ∧ zs = [] := by
        have hl := congrArg List.length hc
        simp only [List.length_append, List.length_cons, List.length_nil] at hl
        constructor <;> apply List.eq_nil_of_length_eq_zero <;> omega
      exact ⟨[], cs, c, rfl, rfl, he, rfl⟩

/-- A text is cut on both sides of an ASCII character, which its byte gives away. -/
theorem exists_append_of_ofText (mark : String) {text : String} {b : UInt8} (hm : ofText mark = [b])
    (hb : b.toNat < 128) {xs ys : List UInt8} (h : ofText text = xs ++ (ofText mark ++ ys)) :
    ∃ before after : String, text = before ++ mark ++ after ∧
      ofText before = xs ∧ ofText after = ys := by
  have hf := h
  rw [hm, List.singleton_append] at hf
  obtain ⟨before, after, c, -, hx, -, hy⟩ := exists_append_of_flatMap hb hf
  have hx' : ofText (String.ofList before) = xs := by rw [ofText, String.toList_ofList, hx]
  have hy' : ofText (String.ofList after) = ys := by rw [ofText, String.toList_ofList, hy]
  refine ⟨String.ofList before, String.ofList after, ofText_injective ?_, hx', hy'⟩
  rw [ofText_append, ofText_append, hx', hy', h, List.append_assoc]

theorem exists_append_of_parens {text : String} {xs ys zs : List UInt8}
    (h : ofText text = xs ++ (ofText "(" ++ (ys ++ (ofText ")" ++ zs)))) :
    ∃ before cut after : String, text = before ++ "(" ++ cut ++ ")" ++ after ∧
      ofText before = xs ∧ ofText cut = ys := by
  obtain ⟨before, tail, ht, hx, htail⟩ := exists_append_of_ofText "(" (b := 40) rfl (by decide) h
  obtain ⟨cut, after, ht', hy, -⟩ := exists_append_of_ofText ")" (b := 41) rfl (by decide) htail
  refine ⟨before, cut, after, ?_, hx, hy⟩
  rw [ht, ht']
  simp only [String.append_assoc]

end Byte

namespace Text

theorem dropBytes?_append (cs ds : List Char) :
    dropBytes? (cs ++ ds) (cs.flatMap String.utf8EncodeChar).length = some ds := by
  induction cs with
  | nil => cases ds <;> rfl
  | cons c cs ih =>
    rw [List.flatMap_cons, List.length_append, String.length_utf8EncodeChar]
    obtain ⟨n, hn⟩ := Nat.exists_eq_succ_of_ne_zero (Nat.ne_of_gt c.utf8Size_pos)
    rw [hn, Nat.succ_add, List.cons_append, dropBytes?, if_pos (by omega), hn, Nat.succ_eq_add_one,
      Nat.add_sub_add_right, Nat.add_sub_cancel_left, ih]

theorem takeBytes?_append (cs ds : List Char) :
    takeBytes? (cs ++ ds) (cs.flatMap String.utf8EncodeChar).length = some cs := by
  induction cs with
  | nil => cases ds <;> rfl
  | cons c cs ih =>
    rw [List.flatMap_cons, List.length_append, String.length_utf8EncodeChar]
    obtain ⟨n, hn⟩ := Nat.exists_eq_succ_of_ne_zero (Nat.ne_of_gt c.utf8Size_pos)
    rw [hn, Nat.succ_add, List.cons_append, takeBytes?, if_pos (by omega), hn, Nat.succ_eq_add_one,
      Nat.add_sub_add_right, Nat.add_sub_cancel_left, ih]
    rfl

/-- The text between two cuts is the text under the span of its bytes. -/
theorem slice?_append (before text after : String) :
    slice? (before ++ text ++ after)
      ⟨(Byte.ofText before).length, (Byte.ofText before).length + (Byte.ofText text).length⟩ =
        some text := by
  rw [slice?, sliceChars?, if_pos (Nat.le_add_right _ _), Nat.add_sub_cancel_left]
  simp only [String.toList_append, List.append_assoc, Byte.ofText, dropBytes?_append,
    Option.bind_some, takeBytes?_append, Option.map_some, String.ofList_toList]

end Text
end StaticAssert
