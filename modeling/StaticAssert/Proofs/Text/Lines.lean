import StaticAssert.Proofs.Text.Cuts

/-!
# Lines of a text

A newline ends a line, and what follows the last newline is a line too if it is not
empty. Texts that contain no newline are read back as lines if each of them is ended by
one, and no other newline is among the bytes.
-/

set_option autoImplicit false

namespace StaticAssert
namespace Text

def lines : List Char → List (List Char)
  | [] => []
  | c :: cs =>
    if c = '\n' then [] :: lines cs
    else
      match lines cs with
      | [] => [[c]]
      | l :: ls => (c :: l) :: ls

def unlines (texts : List String) : String := String.join (texts.map (· ++ "\n"))

def Unbroken (text : String) : Prop := '\n' ∉ text.toList

instance : DecidablePred Unbroken := fun text => inferInstanceAs (Decidable ('\n' ∉ text.toList))

@[simp] theorem unlines_append (xs ys : List String) :
    unlines (xs ++ ys) = unlines xs ++ unlines ys := by
  rw [unlines, List.map_append, String.join_append]
  rfl

theorem unlines_singleton (text : String) : unlines [text] = text ++ "\n" := by
  rw [unlines, List.map_singleton, String.join_cons, String.join_nil, String.append_empty]

theorem lines_append {line : List Char} (h : '\n' ∉ line) (cs : List Char) :
    lines (line ++ '\n' :: cs) = line :: lines cs := by
  induction line with
  | nil => rw [List.nil_append, lines, if_pos rfl]
  | cons c line ih =>
    obtain ⟨hc, hl⟩ := not_or.mp (mt List.mem_cons.mpr h)
    rw [List.cons_append, lines, if_neg (Ne.symm hc), ih hl]

/-- Unbroken texts are the lines of the text they make up. -/
theorem lines_unlines {texts : List String} (h : ∀ text ∈ texts, Unbroken text) :
    lines (unlines texts).toList = texts.map String.toList := by
  induction texts with
  | nil => rfl
  | cons text texts ih =>
    have ht : (unlines (text :: texts)).toList = text.toList ++ '\n' :: (unlines texts).toList := by
      simp [unlines]
    rw [ht, lines_append (h text List.mem_cons_self),
      ih fun t ht => h t (List.mem_cons_of_mem _ ht), List.map_cons]

@[simp] theorem unbroken_append {s t : String} : Unbroken (s ++ t) ↔ Unbroken s ∧ Unbroken t := by
  rw [Unbroken, String.toList_append, List.mem_append, not_or]
  rfl

theorem unbroken_framed {before text after : String} (hb : Unbroken before) (ht : Unbroken text)
    (ha : Unbroken after) : Unbroken (before ++ text ++ after) :=
  unbroken_append.mpr ⟨unbroken_append.mpr ⟨hb, ht⟩, ha⟩

section Bytes

variable {texts : List String}

theorem newline_not_mem_ofText {text : String} (h : Unbroken text) :
    Byte.newline ∉ Byte.ofText text := by
  have hc : '\n'.val ≤ 127 := by decide
  exact mt (Byte.mem_ofText_iff hc).mp h

theorem newlines_unlines (h : ∀ text ∈ texts, Unbroken text) :
    Byte.newlines (Byte.ofText (unlines texts)) = texts.length := by
  induction texts with
  | nil => rfl
  | cons text texts ih =>
    obtain ⟨ht, hs⟩ := List.forall_mem_cons.mp h
    have hz : Byte.newlines (Byte.ofText text) = 0 :=
      List.count_eq_zero_of_not_mem (newline_not_mem_ofText ht)
    rw [← List.singleton_append, unlines_append, unlines_singleton, Byte.ofText_append,
      Byte.ofText_append, Byte.newlines_append, Byte.newlines_append, hz, ih hs, Nat.zero_add,
      List.length_append]
    rfl

theorem getLast?_unlines (h : texts ≠ []) :
    (Byte.ofText (unlines texts)).getLast? = some Byte.newline := by
  rw [← List.dropLast_append_getLast h, unlines_append, unlines_singleton, Byte.ofText_append,
    Byte.ofText_append, ← List.append_assoc]
  exact List.getLast?_concat

end Bytes

end Text
end StaticAssert
