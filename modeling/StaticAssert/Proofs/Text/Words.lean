import Mathlib.Data.List.Chain
import Mathlib.Data.List.TakeWhile
import StaticAssert.Proofs.Text.Lines
import StaticAssert.Text.Words

/-!
# Words on one line

The words of a text are its maximal stretches without white space: around them there is
white space only, and some of it between any two. Joined by single spaces they make a text
that is tidy: it has no other white space, none at its ends and never two spaces in a row.
Its words are the same again, so putting a text on one line twice changes nothing more.
-/

set_option autoImplicit false

namespace StaticAssert
namespace Text

def IsWord (word : List Char) : Prop := word ≠ [] ∧ ∀ c ∈ word, isBlank c = false

def IsGap (gap : List Char) : Prop := ∀ c ∈ gap, isBlank c = true

/-- The words of a text with the gaps around them. What follows a word begins with white space,
unless it is empty. -/
inductive WordsOf : List (List Char) → List Char → Prop where
  | nil {gap : List Char} (hg : IsGap gap) : WordsOf [] gap
  | cons {gap word rest : List Char} {words : List (List Char)} (hg : IsGap gap)
      (hw : IsWord word) (hr : IsGap rest.head?.toList) (h : WordsOf words rest) :
      WordsOf (word :: words) (gap ++ (word ++ rest))

variable {cs gap word rest : List Char} {ws : List (List Char)}

theorem IsWord.exists_cons (h : IsWord word) : ∃ c rest, word = c :: rest ∧ isBlank c = false := by
  cases word with
  | nil => exact absurd rfl h.1
  | cons c rest => exact ⟨c, rest, rfl, h.2 c List.mem_cons_self⟩

theorem isGap_nil : IsGap [] := nofun

theorem isGap_space : IsGap [' '] := List.forall_mem_singleton.mpr rfl

theorem words_nil : words [] = [] := by
  rw [words]
  rfl

theorem words_of_dropWhile {c : Char} (h : cs.dropWhile isBlank = c :: rest) :
    words cs = (c :: rest.takeWhile (!isBlank ·)) :: words (rest.dropWhile (!isBlank ·)) := by
  rw [words, h]

theorem wordsOf_words (cs : List Char) : WordsOf (words cs) cs := by
  induction cs using words.induct with
  | case1 cs ht =>
    rw [words, ht]
    exact .nil (List.dropWhile_eq_nil_iff.mp ht)
  | case2 cs d rest ht ih =>
    have hd : isBlank d = false := by
      have hn := List.head_dropWhile_not isBlank (l := cs) (by rw [ht]; nofun)
      simpa [ht] using hn
    have hcs : cs = cs.takeWhile isBlank ++
        (d :: rest.takeWhile (!isBlank ·) ++ rest.dropWhile (!isBlank ·)) := by
      rw [List.cons_append, List.takeWhile_append_dropWhile, ← ht,
        List.takeWhile_append_dropWhile]
    rw [words_of_dropWhile ht, hcs]
    refine .cons (fun c hc => List.mem_takeWhile_imp hc) ⟨List.cons_ne_nil _ _, ?_⟩ ?_ ih
    · intro c hc
      rcases List.mem_cons.mp hc with rfl | hc
      · exact hd
      · simpa using List.mem_takeWhile_imp hc
    · intro c hc
      have hn := List.head?_dropWhile_not (!isBlank ·) rest
      rw [Option.mem_toList.mp hc] at hn
      simpa using hn

theorem words_append_gap (hg : IsGap gap) (cs : List Char) : words (gap ++ cs) = words cs := by
  have hd : (gap ++ cs).dropWhile isBlank = cs.dropWhile isBlank :=
    List.dropWhile_append_of_pos hg
  rw [words, hd, words]

theorem words_append_word (hw : IsWord word) (rest : List Char) (hr : IsGap rest.head?.toList) :
    words (word ++ rest) = word :: words rest := by
  obtain ⟨c, tail, rfl, hc⟩ := hw.exists_cons
  have ht : ∀ d ∈ tail, (!isBlank d) = true := by
    intro d hd
    rw [hw.2 d (List.mem_cons_of_mem _ hd)]
    rfl
  have hd : (c :: tail ++ rest).dropWhile isBlank = c :: (tail ++ rest) := by
    rw [List.cons_append, List.dropWhile_cons, hc]
    rfl
  -- Behind the word there is white space at once, so the search for its end stops there.
  have he : rest.takeWhile (!isBlank ·) = [] ∧ rest.dropWhile (!isBlank ·) = rest := by
    cases rest with
    | nil => exact ⟨rfl, rfl⟩
    | cons d rest =>
      have hb : isBlank d = true := hr d (List.mem_singleton_self d)
      simp [hb]
  rw [words_of_dropWhile hd, List.takeWhile_append_of_pos ht, List.dropWhile_append_of_pos ht,
    he.1, he.2, List.append_nil]

theorem WordsOf.words_eq (h : WordsOf ws cs) : words cs = ws := by
  induction h with
  | nil hg =>
    rw [words, List.dropWhile_eq_nil_iff.mpr hg]
  | cons hg hw hr _ ih => rw [words_append_gap hg, words_append_word hw _ hr, ih]

/-- A text has one list of words. -/
theorem words_eq_iff : words cs = ws ↔ WordsOf ws cs :=
  ⟨fun h => h ▸ wordsOf_words cs, WordsOf.words_eq⟩

theorem WordsOf.isWord (h : WordsOf ws cs) : ∀ word ∈ ws, IsWord word := by
  induction h with
  | nil => nofun
  | cons _ hw _ _ ih => exact List.forall_mem_cons.mpr ⟨hw, ih⟩

theorem isWord_of_mem_words (h : word ∈ words cs) : IsWord word := (wordsOf_words cs).isWord word h

/-- Words that are joined by spaces are found again. -/
theorem words_intercalate (h : ∀ word ∈ ws, IsWord word) : words ([' '].intercalate ws) = ws := by
  induction ws with
  | nil => exact words_nil
  | cons word ws ih =>
    obtain ⟨hw, hs⟩ := List.forall_mem_cons.mp h
    cases ws with
    | nil =>
      have he := words_append_word hw [] isGap_nil
      rw [List.append_nil, words_nil] at he
      rw [List.intercalate_singleton, he]
    | cons word' ws =>
      have he := words_append_word hw ([' '] ++ [' '].intercalate (word' :: ws)) isGap_space
      rw [words_append_gap isGap_space, ih hs] at he
      rw [List.intercalate_cons_cons, List.append_assoc, he]

theorem oneLine_oneLine (cs : List Char) : oneLine (oneLine cs) = oneLine cs := by
  rw [oneLine, oneLine, words_intercalate fun _ h => isWord_of_mem_words h]

theorem mem_intercalate {c : Char} {separator : List Char} {parts : List (List Char)}
    (h : c ∈ separator.intercalate parts) : c ∈ separator ∨ ∃ part ∈ parts, c ∈ part := by
  induction parts with
  | nil => cases h
  | cons part parts ih =>
    by_cases hp : parts = []
    · rw [hp, List.intercalate_singleton] at h
      exact .inr ⟨part, List.mem_cons_self, h⟩
    · rw [List.intercalate_cons_of_ne_nil hp, List.mem_append, List.mem_append] at h
      rcases h with (h | h) | h
      · exact .inr ⟨part, List.mem_cons_self, h⟩
      · exact .inl h
      · exact (ih h).imp_right fun ⟨p, hp, hc⟩ => ⟨p, List.mem_cons_of_mem _ hp, hc⟩

theorem WordsOf.mem_of_mem (h : WordsOf ws cs) : ∀ word ∈ ws, ∀ c ∈ word, c ∈ cs := by
  induction h with
  | nil => nofun
  | cons _ _ _ _ ih =>
    refine List.forall_mem_cons.mpr ⟨fun c hc => ?_, fun word hw c hc => ?_⟩
    · exact List.mem_append_right _ (List.mem_append_left _ hc)
    · exact List.mem_append_right _ (List.mem_append_right _ (ih word hw c hc))

theorem mem_or_eq_space_of_mem_oneLine {c : Char} (h : c ∈ oneLine cs) : c ∈ cs ∨ c = ' ' := by
  rcases mem_intercalate h with h | ⟨word, hw, hc⟩
  · exact .inr (List.mem_singleton.mp h)
  · exact .inl ((wordsOf_words cs).mem_of_mem word hw c hc)

structure Tidy (cs : List Char) : Prop where
  blank : ∀ c ∈ cs, isBlank c = true → c = ' '
  front : cs.head? ≠ some ' '
  back : cs.getLast? ≠ some ' '
  single : ¬ [' ', ' '] <:+: cs

theorem eq_space_of_mem_intercalate (h : ∀ word ∈ ws, IsWord word) {c : Char}
    (hc : c ∈ [' '].intercalate ws) (hb : isBlank c = true) : c = ' ' := by
  rcases mem_intercalate hc with hc | ⟨word, hw, hc⟩
  · exact List.mem_singleton.mp hc
  · rw [(h word hw).2 c hc] at hb
    cases hb

theorem exists_intercalate_cons (c : Char) (tail : List Char) (ws : List (List Char)) :
    ∃ rest, [' '].intercalate ((c :: tail) :: ws) = c :: rest := by
  cases ws with
  | nil => exact ⟨tail, List.intercalate_singleton⟩
  | cons word ws => exact ⟨_, List.intercalate_cons_cons⟩

theorem isBlank_of_head?_intercalate (h : ∀ word ∈ ws, IsWord word) :
    ∀ c ∈ ([' '].intercalate ws).head?, isBlank c = false := by
  cases ws with
  | nil => nofun
  | cons word ws =>
    obtain ⟨d, tail, rfl, hd⟩ := (h word List.mem_cons_self).exists_cons
    obtain ⟨rest, hr⟩ := exists_intercalate_cons d tail ws
    rw [hr]
    rintro c ⟨⟩
    exact hd

theorem isBlank_of_getLast?_intercalate (h : ∀ word ∈ ws, IsWord word) :
    ∀ c ∈ ([' '].intercalate ws).getLast?, isBlank c = false := by
  induction ws with
  | nil => nofun
  | cons word ws ih =>
    obtain ⟨hw, hs⟩ := List.forall_mem_cons.mp h
    intro c hc
    cases ws with
    | nil =>
      rw [List.intercalate_singleton] at hc
      exact hw.2 c (List.mem_of_getLast? hc)
    | cons word' ws =>
      obtain ⟨d, tail, rfl, -⟩ := (hs _ List.mem_cons_self).exists_cons
      have hn : [' '].intercalate ((d :: tail) :: ws) ≠ [] := by
        obtain ⟨rest, hr⟩ := exists_intercalate_cons d tail ws
        rw [hr]
        exact List.cons_ne_nil d rest
      rw [List.intercalate_cons_cons, List.getLast?_append_of_ne_nil _ hn] at hc
      exact ih hs c hc

/-- Between two spaces there is a word. -/
theorem isChain_intercalate (h : ∀ word ∈ ws, IsWord word) :
    ([' '].intercalate ws).IsChain fun c d => ¬ (c = ' ' ∧ d = ' ') := by
  have alone {word : List Char} (hw : IsWord word) :
      word.IsChain fun c d => ¬ (c = ' ' ∧ d = ' ') := by
    refine List.isChain_iff_forall_rel_of_append_cons_cons.mpr ?_
    rintro c d before after rfl ⟨rfl, -⟩
    cases hw.2 ' ' (by simp)
  induction ws with
  | nil => exact .nil
  | cons word ws ih =>
    obtain ⟨hw, hs⟩ := List.forall_mem_cons.mp h
    cases ws with
    | nil =>
      rw [List.intercalate_singleton]
      exact alone hw
    | cons word' ws =>
      rw [List.intercalate_cons_cons, List.append_assoc, List.isChain_append, List.singleton_append,
        List.isChain_cons]
      refine ⟨alone hw, ⟨?_, ih hs⟩, ?_⟩
      · rintro d hd ⟨-, rfl⟩
        cases isBlank_of_head?_intercalate hs ' ' hd
      · rintro c hc d - ⟨rfl, -⟩
        cases hw.2 ' ' (List.mem_of_getLast? hc)

theorem tidy_intercalate (h : ∀ word ∈ ws, IsWord word) : Tidy ([' '].intercalate ws) where
  blank _ hc hb := eq_space_of_mem_intercalate h hc hb
  front hf := by cases isBlank_of_head?_intercalate h ' ' hf
  back hb := by cases isBlank_of_getLast?_intercalate h ' ' hb
  single := by
    rintro ⟨before, after, he⟩
    have hs : [' '].intercalate ws = before ++ ' ' :: ' ' :: after := by
      rw [← he, List.append_assoc]
      rfl
    exact List.isChain_iff_forall_rel_of_append_cons_cons.mp (isChain_intercalate h) hs ⟨rfl, rfl⟩

theorem tidy_oneLine (cs : List Char) : Tidy (oneLine cs) :=
  tidy_intercalate fun _ h => isWord_of_mem_words h

/-- The words of one text, which are one list only, make up the other with a single space between
any two. -/
structure Collapsed (cs ds : List Char) : Prop where
  words : ∃ ws, (∀ vs, WordsOf vs cs ↔ vs = ws) ∧ ds = [' '].intercalate ws
  tidy : Tidy ds
  settled : oneLine ds = ds

theorem collapsed_oneLine (cs : List Char) : Collapsed cs (oneLine cs) where
  words := ⟨words cs, fun _ => words_eq_iff.symm.trans eq_comm, rfl⟩
  tidy := tidy_oneLine cs
  settled := oneLine_oneLine cs

theorem Tidy.unbroken (h : Tidy cs) : Unbroken (String.ofList cs) := by
  intro hm
  rw [String.toList_ofList] at hm
  cases h.blank '\n' hm rfl

end Text
end StaticAssert
