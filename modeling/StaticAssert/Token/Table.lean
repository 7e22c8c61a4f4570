import StaticAssert.Token.Kind

/-!
# Tables of the scanner

What the scanner compares a source with. Keywords are looked up by length first and then
byte by byte. The first byte of a punctuator decides which punctuators are possible: one,
or two of which the longer is taken if its second byte follows. Both tables are kept apart
from the spellings that messages show; that they say the same is proved.
-/

set_option autoImplicit false

namespace StaticAssert

namespace Keyword

def ofLength : Nat → List (String × Keyword)
  | 3 => [("int", .int)]
  | 4 => [("void", .void), ("char", .char), ("bool", .bool), ("long", .long), ("half", .half)]
  | 5 => [("short", .short), ("float", .float)]
  | 6 => [("double", .double)]
  | 13 => [("static_assert", .staticAssert)]
  | _ => []

def lookup? (text : List UInt8) : Option Keyword :=
  ((ofLength text.length).find? fun entry => Byte.ofText entry.1 == text).map Prod.snd

theorem spelling_of_mem_ofLength {n : Nat} {entry : String × Keyword} (h : entry ∈ ofLength n) :
    entry.2.spelling = entry.1 := by
  revert entry
  unfold ofLength
  split <;> decide

/-- The table holds the spellings of the keywords and nothing else. -/
theorem lookup?_eq_some_iff {text : List UInt8} {k : Keyword} :
    lookup? text = some k ↔ k.bytes = text := by
  constructor
  · intro h
    obtain ⟨entry, he, rfl⟩ := Option.map_eq_some_iff.mp h
    rw [bytes, spelling_of_mem_ofLength (List.mem_of_find?_eq_some he)]
    simpa using List.find?_some he
  · rintro rfl
    cases k <;> decide +kernel

end Keyword

inductive Arm where
  | single (one : Punct)
  | oneOrTwo (second : UInt8) (two one : Punct)
  deriving DecidableEq

namespace Arm

def choose : Arm → Option UInt8 → Punct × Nat
  | .single one, _ => (one, 1)
  | .oneOrTwo second two one, next? => if next? == some second then (two, 2) else (one, 1)

def puncts : Arm → List Punct
  | .single one => [one]
  | .oneOrTwo _ two one => [two, one]

def Agrees (first : UInt8) : Arm → Prop
  | .single one => one.bytes = [first]
  | .oneOrTwo second two one => one.bytes = [first] ∧ two.bytes = [first, second]

instance (first : UInt8) : DecidablePred (Agrees first)
  | .single one => inferInstanceAs (Decidable (one.bytes = [first]))
  | .oneOrTwo second two one =>
    inferInstanceAs (Decidable (one.bytes = [first] ∧ two.bytes = [first, second]))

end Arm

namespace Punct

def arms : List (Char × Arm) :=
  [('*', .single .star),
    ('!', .oneOrTwo '='.toUInt8 .notEqual .bang),
    ('=', .oneOrTwo '='.toUInt8 .equal .assign),
    ('+', .oneOrTwo '+'.toUInt8 .plusPlus .plus),
    ('-', .oneOrTwo '-'.toUInt8 .minusMinus .minus),
    ('&', .oneOrTwo '&'.toUInt8 .ampAmp .amp),
    ('|', .oneOrTwo '|'.toUInt8 .pipePipe .pipe),
    ('<', .oneOrTwo '<'.toUInt8 .shiftLeft .less),
    ('>', .oneOrTwo '>'.toUInt8 .shiftRight .greater),
    ('^', .single .caret),
    ('~', .single .tilde),
    (',', .single .comma),
    (';', .single .semicolon),
    ('(', .single .leftParen),
    (')', .single .rightParen),
    ('\x7b', .single .leftBrace),
    ('\x7d', .single .rightBrace)]

def arm? (b : UInt8) : Option Arm := (arms.find? fun entry => entry.1.toUInt8 == b).map Prod.snd

variable {p : Punct} {b : UInt8} {arm : Arm}

theorem agrees_of_mem_arms : ∀ entry ∈ arms, entry.2.Agrees entry.1.toUInt8 := by
  decide +kernel

theorem agrees_of_arm? (h : arm? b = some arm) : arm.Agrees b := by
  obtain ⟨entry, he, rfl⟩ := Option.map_eq_some_iff.mp h
  have hb : entry.1.toUInt8 = b := by simpa using List.find?_some he
  rw [← hb]
  exact agrees_of_mem_arms entry (List.mem_of_find?_eq_some he)

/-- Every punctuator is in the arm of its first byte. -/
theorem exists_arm? (p : Punct) :
    ∃ first rest arm, p.bytes = first :: rest ∧ arm? first = some arm ∧ p ∈ arm.puncts := by
  cases p <;> exact ⟨_, _, _, rfl, rfl, by decide⟩

theorem arm?_eq_none_iff : arm? b = none ↔ ∀ p : Punct, p.bytes.head? ≠ some b := by
  rw [Option.eq_none_iff_forall_ne_some]
  constructor
  · intro h p hp
    obtain ⟨first, rest, arm, hb, ha, -⟩ := exists_arm? p
    rw [hb, List.head?_cons, Option.some.injEq] at hp
    exact h arm (hp ▸ ha)
  · intro h arm ha
    cases arm with
    | single one =>
      have ho : one.bytes = [b] := agrees_of_arm? ha
      exact h one (by rw [ho, List.head?_cons])
    | oneOrTwo second two one =>
      have ho : one.bytes = [b] := (agrees_of_arm? ha).1
      exact h one (by rw [ho, List.head?_cons])

/-- In front of nothing that prolongs it a punctuator is chosen, and in its whole length. -/
theorem choose_of_longest {after : List UInt8}
    (h : ∀ c ∈ after.head?, ∀ q : Punct, q.bytes ≠ p.bytes ++ [c]) :
    ∃ first rest arm, p.bytes = first :: rest ∧ arm? first = some arm ∧
      arm.choose (rest ++ after).head? = (p, p.bytes.length) := by
  obtain ⟨first, rest, arm, hb, ha, hp⟩ := exists_arm? p
  refine ⟨first, rest, arm, hb, ha, ?_⟩
  have hs := agrees_of_arm? ha
  cases arm with
  | single one =>
    obtain rfl : p = one := List.mem_singleton.mp hp
    have hs : p.bytes = [first] := hs
    rw [Arm.choose, hs]
    rfl
  | oneOrTwo second two one =>
    obtain ⟨ho, ht⟩ := hs
    simp only [Arm.puncts, List.mem_cons, List.not_mem_nil, or_false] at hp
    rcases hp with rfl | rfl
    · obtain rfl : rest = [second] := (List.cons.inj (hb.symm.trans ht)).2
      rw [Arm.choose, ht, List.singleton_append, List.head?_cons, if_pos (beq_self_eq_true _)]
      rfl
    · obtain rfl : rest = [] := (List.cons.inj (hb.symm.trans ho)).2
      have hn : ¬ (after.head? == some second) = true := by
        intro hc
        exact h second (eq_of_beq hc) two (by rw [ht, ho, List.singleton_append])
      rw [Arm.choose, List.nil_append, if_neg hn, ho]
      rfl

end Punct
end StaticAssert
