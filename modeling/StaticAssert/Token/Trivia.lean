import StaticAssert.Source.Byte

/-!
# What stands between tokens

Blanks, newlines, line comments and closed block comments separate tokens and carry no
meaning. They are skipped item by item. A line comment ends before its newline; a block
comment ends at the first star and slash after its opening, and one that is never
closed is no trivia.
-/

set_option autoImplicit false

namespace StaticAssert
namespace Trivia

def closing? : List UInt8 → Option Nat
  | [] => none
  | b :: rest =>
    if b == Byte.star && rest.head? == some Byte.slash then some 2
    else (closing? rest).map (· + 1)

def item? : List UInt8 → Option Nat
  | [] => none
  | b :: rest =>
    if Byte.isBlank b || b == Byte.newline then some 1
    else if b == Byte.slash && rest.head? == some Byte.slash then
      some (1 + (rest.takeWhile (· != Byte.newline)).length)
    else if b == Byte.slash && rest.head? == some Byte.star then
      (closing? (rest.drop 1)).map (2 + ·)
    else none

theorem closing?_bounds {bytes : List UInt8} {n : Nat} (h : closing? bytes = some n) :
    2 ≤ n ∧ n ≤ bytes.length := by
  induction bytes generalizing n with
  | nil => simp [closing?] at h
  | cons b rest ih =>
    rw [closing?] at h
    split at h
    next hc =>
      cases rest with
      | nil => simp at hc
      | cons c rest => simp at h; subst h; simp
    next =>
      obtain ⟨m, hm, rfl⟩ := Option.map_eq_some_iff.mp h
      have := ih hm
      simp only [List.length_cons]
      omega

theorem item?_bounds {bytes : List UInt8} {n : Nat} (h : item? bytes = some n) :
    1 ≤ n ∧ n ≤ bytes.length := by
  cases bytes with
  | nil => simp [item?] at h
  | cons b rest =>
    rw [item?] at h
    simp only [List.length_cons]
    split at h
    · cases h; omega
    split at h
    · cases h
      have := (List.takeWhile_sublist (· != Byte.newline) (l := rest)).length_le
      omega
    split at h
    next hc =>
      obtain ⟨m, hm, rfl⟩ := Option.map_eq_some_iff.mp h
      have := closing?_bounds hm
      rw [List.length_drop] at this
      omega
    · cases h

def length (bytes : List UInt8) : Nat :=
  match _item : item? bytes with
  | none => 0
  | some n => n + length (bytes.drop n)
termination_by bytes.length
decreasing_by
  have := item?_bounds _item
  rw [List.length_drop]
  omega

theorem length_of_none {bytes : List UInt8} (h : item? bytes = none) : length bytes = 0 := by
  rw [length]
  split
  · rfl
  · simp_all

theorem length_of_some {bytes : List UInt8} {n : Nat} (h : item? bytes = some n) :
    length bytes = n + length (bytes.drop n) := by
  rw [length]
  split
  · simp_all
  · simp_all

theorem length_le (bytes : List UInt8) : length bytes ≤ bytes.length := by
  fun_induction length bytes with
  | case1 => omega
  | case2 bytes n h ih =>
    have := item?_bounds h
    rw [List.length_drop] at ih
    omega

/-- After the skipped bytes there is nothing more to skip. -/
theorem item?_drop_length (bytes : List UInt8) : item? (bytes.drop (length bytes)) = none := by
  fun_induction length bytes with
  | case1 bytes h => simpa using h
  | case2 bytes n h ih => simpa using ih

end Trivia
end StaticAssert
