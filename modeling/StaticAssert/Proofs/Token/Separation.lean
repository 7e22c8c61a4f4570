import Mathlib.Data.List.Infix
import StaticAssert.Token.Trivia

/-!
# The grammar of what is skipped

A stretch is a sequence of blanks, newlines and whole comments in front of what comes
next. A line comment is whole if a newline or nothing comes behind it, a block comment
ends at the first star and slash after its opening. What is skipped before a token is
the one stretch behind which nothing more can be skipped.
-/

set_option autoImplicit false

namespace StaticAssert

namespace Byte

def whitespace : List UInt8 := [space, tab, carriageReturn, newline]

theorem mem_whitespace_iff {b : UInt8} :
    b ∈ whitespace ↔ (isBlank b || b == newline) = true := by
  simp [whitespace, isBlank, or_assoc]

theorem forall_mem_whitespace {P : UInt8 → Prop} :
    (∀ b ∈ whitespace, P b) ↔ P space ∧ P tab ∧ P carriageReturn ∧ P newline := by
  simp [whitespace]

structure Run (p : UInt8 → Bool) (run after : List UInt8) : Prop where
  -- All bytes of a run are of a class, and what follows does not prolong it.
  inside : ∀ b ∈ run, p b = true
  stops : ∀ b ∈ after.head?, p b = false

namespace Run

variable {p : UInt8 → Bool} {run after : List UInt8}

theorem takeWhile_eq (h : Run p run after) : (run ++ after).takeWhile p = run := by
  rw [List.takeWhile_append_of_pos h.inside]
  cases after with
  | nil => simp
  | cons b rest => simp [h.stops b rfl]

theorem exists_append (p : UInt8 → Bool) (bytes : List UInt8) :
    ∃ run after, bytes = run ++ after ∧ Run p run after := by
  induction bytes with
  | nil => exact ⟨[], [], rfl, by simp, by simp⟩
  | cons b rest ih =>
    by_cases hb : p b = true
    · obtain ⟨run, after, rfl, hr⟩ := ih
      exact ⟨b :: run, after, rfl, List.forall_mem_cons.mpr ⟨hb, hr.inside⟩, hr.stops⟩
    · refine ⟨[], b :: rest, rfl, by simp, ?_⟩
      rintro c ⟨⟩
      exact Bool.eq_false_iff.mpr hb

end Run
end Byte

namespace Trivia

def Unclosed (body : List UInt8) : Prop := ¬ [Byte.star, Byte.slash] <:+: body

theorem unclosed_nil : Unclosed [] := by
  simp [Unclosed]

theorem unclosed_cons {b : UInt8} {rest : List UInt8} :
    Unclosed (b :: rest) ↔
      ¬ (b = Byte.star ∧ rest.head? = some Byte.slash) ∧ Unclosed rest := by
  have hp : [Byte.star, Byte.slash] <+: b :: rest ↔
      b = Byte.star ∧ rest.head? = some Byte.slash := by
    rw [List.cons_prefix_cons, eq_comm]
    cases rest with
    | nil => simp
    | cons c rest => simp [List.cons_prefix_cons, eq_comm]
  rw [Unclosed, List.infix_cons_iff, hp, not_or, Unclosed]

theorem closing?_cons {b : UInt8} {rest : List UInt8}
    (h : ¬ (b = Byte.star ∧ rest.head? = some Byte.slash)) :
    closing? (b :: rest) = (closing? rest).map (· + 1) := by
  have hb : (b == Byte.star && rest.head? == some Byte.slash) = false := by
    simpa [Bool.eq_false_iff] using h
  rw [closing?, hb]
  rfl

theorem closing?_of_unclosed {body : List UInt8} (h : Unclosed body) (rest : List UInt8) :
    closing? (body ++ Byte.star :: Byte.slash :: rest) = some (body.length + 2) := by
  induction body with
  | nil => rfl
  | cons b body ih =>
    obtain ⟨hb, ht⟩ := unclosed_cons.mp h
    have hn : ¬ (b = Byte.star ∧
        (body ++ Byte.star :: Byte.slash :: rest).head? = some Byte.slash) := by
      cases body with
      | nil => rintro ⟨-, ⟨⟩⟩
      | cons c body => exact hb
    rw [List.cons_append, closing?_cons hn, ih ht]
    rfl

theorem exists_unclosed_of_closing? {bytes : List UInt8} {n : Nat} (h : closing? bytes = some n) :
    ∃ body rest, bytes = body ++ Byte.star :: Byte.slash :: rest ∧ Unclosed body ∧
      n = body.length + 2 := by
  induction bytes generalizing n with
  | nil => cases h
  | cons b bytes ih =>
    by_cases hb : b = Byte.star ∧ bytes.head? = some Byte.slash
    · obtain ⟨rfl, hs⟩ := hb
      obtain ⟨rest, rfl⟩ := List.head?_eq_some_iff.mp hs
      cases h
      exact ⟨[], rest, rfl, unclosed_nil, rfl⟩
    · rw [closing?_cons hb] at h
      obtain ⟨m, hm, rfl⟩ := Option.map_eq_some_iff.mp h
      obtain ⟨body, rest, rfl, hu, rfl⟩ := ih hm
      refine ⟨b :: body, rest, rfl, unclosed_cons.mpr ⟨?_, hu⟩, rfl⟩
      cases body with
      | nil => simp
      | cons c body => exact hb

theorem closing?_eq_none_iff {bytes : List UInt8} : closing? bytes = none ↔ Unclosed bytes := by
  induction bytes with
  | nil => exact ⟨fun _ => unclosed_nil, fun _ => rfl⟩
  | cons b bytes ih =>
    by_cases hb : b = Byte.star ∧ bytes.head? = some Byte.slash
    · have hc : closing? (b :: bytes) = some 2 := by
        rw [closing?, if_pos (by simp [hb])]
      rw [hc, unclosed_cons]
      simp [hb]
    · rw [closing?_cons hb, Option.map_eq_none_iff, ih, unclosed_cons, and_iff_right hb]

inductive Item : List UInt8 → List UInt8 → Prop where
  | blank {b : UInt8} (hb : b ∈ Byte.whitespace)
      (after : List UInt8) : Item [b] after
  | line {body after : List UInt8} (hb : Byte.Run (· != Byte.newline) body after) :
      Item (Byte.slash :: Byte.slash :: body) after
  | block {body : List UInt8} (hb : Unclosed body) (after : List UInt8) :
      Item (Byte.slash :: Byte.star :: (body ++ [Byte.star, Byte.slash])) after

/-- What is skipped in front of what follows it. -/
inductive Stretch : List UInt8 → List UInt8 → Prop where
  | nil (after : List UInt8) : Stretch [] after
  | cons {item text after : List UInt8} (hi : Item item (text ++ after))
      (ht : Stretch text after) : Stretch (item ++ text) after

theorem stretch_of_blank {gap : List UInt8} (h : ∀ b ∈ gap, b ∈ Byte.whitespace)
    (after : List UInt8) : Stretch gap after := by
  induction gap with
  | nil => exact .nil after
  | cons b gap ih =>
    obtain ⟨hb, hg⟩ := List.forall_mem_cons.mp h
    exact .cons (.blank hb _) (ih hg)

theorem item?_of_item {item after : List UInt8} (h : Item item after) :
    item? (item ++ after) = some item.length := by
  cases h with
  | @blank b hb =>
    rw [List.singleton_append, item?, if_pos (Byte.mem_whitespace_iff.mp hb)]
    rfl
  | @line body after hb =>
    have hw : (Byte.slash :: (body ++ after)).takeWhile (· != Byte.newline) =
        Byte.slash :: body := by
      rw [List.takeWhile_cons_of_pos (by decide), hb.takeWhile_eq]
    rw [List.cons_append, List.cons_append, item?, if_neg (by decide), if_pos (by simp), hw,
      Nat.add_comm]
    rfl
  | @block body hb =>
    rw [List.cons_append, List.cons_append, List.append_assoc, item?, if_neg (by decide),
      if_neg (by simp; decide), if_pos (by simp)]
    simp [closing?_of_unclosed hb]
    omega

theorem item_of_item? {bytes : List UInt8} {n : Nat} (h : item? bytes = some n) :
    Item (bytes.take n) (bytes.drop n) := by
  cases bytes with
  | nil => cases h
  | cons b rest =>
    rw [item?] at h
    split at h
    next hb =>
      cases h
      exact .blank (Byte.mem_whitespace_iff.mpr hb) rest
    split at h
    next hb =>
      simp only [Bool.and_eq_true, beq_iff_eq] at hb
      obtain ⟨rfl, hs⟩ := hb
      obtain ⟨rest, rfl⟩ := List.head?_eq_some_iff.mp hs
      obtain ⟨body, after, rfl, hr⟩ := Byte.Run.exists_append (· != Byte.newline) rest
      rw [List.takeWhile_cons_of_pos (by decide), hr.takeWhile_eq, List.length_cons,
        Nat.add_comm] at h
      cases h
      simpa using Item.line hr
    split at h
    next hb =>
      simp only [Bool.and_eq_true, beq_iff_eq] at hb
      obtain ⟨rfl, hs⟩ := hb
      obtain ⟨rest, rfl⟩ := List.head?_eq_some_iff.mp hs
      obtain ⟨m, hm, rfl⟩ := Option.map_eq_some_iff.mp h
      obtain ⟨body, after, hd, hu, rfl⟩ := exists_unclosed_of_closing? hm
      rw [List.drop_one, List.tail_cons] at hd
      subst hd
      have ht : (Byte.slash :: Byte.star :: (body ++ Byte.star :: Byte.slash :: after)) =
          (Byte.slash :: Byte.star :: (body ++ [Byte.star, Byte.slash])) ++ after := by simp
      rw [ht, List.take_left' (by simp; omega), List.drop_left' (by simp; omega)]
      exact .block hu after
    · cases h

theorem of_item?_eq_none {b : UInt8} {rest : List UInt8} (h : item? (b :: rest) = none) :
    b ∉ Byte.whitespace ∧
      (b = Byte.slash → rest.head? ≠ some Byte.slash) := by
  constructor
  · intro hb
    have hi := item?_of_item (.blank hb rest)
    rw [List.singleton_append, h] at hi
    cases hi
  · rintro rfl hs
    obtain ⟨rest, rfl⟩ := List.head?_eq_some_iff.mp hs
    obtain ⟨body, after, rfl, hr⟩ := Byte.Run.exists_append (· != Byte.newline) rest
    have hi := item?_of_item (.line hr)
    rw [List.cons_append, List.cons_append, h] at hi
    cases hi

theorem stretch_length (bytes : List UInt8) :
    Stretch (bytes.take (length bytes)) (bytes.drop (length bytes)) := by
  fun_induction length bytes with
  | case1 bytes h => exact .nil _
  | case2 bytes n h ih =>
    have hi := item_of_item? h
    rw [List.take_add, ← List.drop_drop]
    refine .cons ?_ ih
    rwa [List.take_append_drop]

theorem length_of_stretch {text after : List UInt8} (h : Stretch text after)
    (ha : item? after = none) : length (text ++ after) = text.length := by
  induction h with
  | nil after => exact length_of_none ha
  | @cons item text after hi ht ih =>
    rw [List.append_assoc, length_of_some (item?_of_item hi), List.drop_left, ih ha,
      List.length_append]

end Trivia
end StaticAssert
