import StaticAssert.Proofs.Text.Lines
import StaticAssert.Text.ByteName

/-!
# Visible texts

A text is visible if it has nothing but ASCII characters from the space to the tilde. So it
has no control character: it does not end a line and it begins no terminal sequence.
Numbers are visible, in either base, and so is a byte that is named.
-/

set_option autoImplicit false

namespace StaticAssert

namespace Text

def Visible (text : String) : Prop := ∀ c ∈ text.toList, 32 ≤ c.toNat ∧ c.toNat ≤ 126

instance : DecidablePred Visible := fun text =>
  List.decidableBAll (fun c : Char => 32 ≤ c.toNat ∧ c.toNat ≤ 126) text.toList

theorem visible_ofList {cs : List Char} (h : cs.all fun c => 32 ≤ c.toNat && c.toNat ≤ 126) :
    Visible (String.ofList cs) := by
  intro c hc
  rw [String.toList_ofList] at hc
  simpa using List.all_eq_true.mp h c hc

@[simp] theorem visible_append {s t : String} : Visible (s ++ t) ↔ Visible s ∧ Visible t := by
  rw [Visible, String.toList_append, List.forall_mem_append]
  rfl

theorem visible_framed {before text after : String} (hb : Visible before) (ht : Visible text)
    (ha : Visible after) : Visible (before ++ text ++ after) :=
  visible_append.mpr ⟨visible_append.mpr ⟨hb, ht⟩, ha⟩

theorem Visible.not_mem {text : String} (h : Visible text) {c : Char} (hc : c.toNat < 32) :
    c ∉ text.toList :=
  fun hm => Nat.not_le_of_lt hc (h c hm).1

theorem Visible.unbroken {text : String} (h : Visible text) : Unbroken text :=
  h.not_mem (by decide)

theorem visible_spaces (n : Nat) : Visible (Column.spaces n) := by
  intro c hc
  rw [Column.spaces, String.toList_ofList] at hc
  rw [List.eq_of_mem_replicate hc]
  decide

theorem visible_digits {base : Nat} (hb : 1 < base) (hs : base ≤ 16) (n : Nat) :
    ∀ c ∈ Nat.toDigits base n, 32 ≤ c.toNat ∧ c.toNat ≤ 126 := by
  have digit : ∀ d < 16, 32 ≤ (Nat.digitChar d).toNat ∧ (Nat.digitChar d).toNat ≤ 126 := by
    decide
  induction n using Nat.strongRecOn with
  | ind n ih =>
    intro c hc
    rw [Nat.toDigits_eq_if hb] at hc
    split at hc
    next hn =>
      rw [List.mem_singleton.mp hc]
      exact digit n (by omega)
    next hn =>
      rcases List.mem_append.mp hc with hc | hc
      · exact ih (n / base) (Nat.div_lt_self (by omega) hb) c hc
      · rw [List.mem_singleton.mp hc]
        have hm := Nat.mod_lt n (Nat.lt_of_succ_lt hb)
        exact digit (n % base) (by omega)

theorem visible_repr (n : Nat) : Visible n.repr := by
  intro c hc
  rw [Nat.toList_repr] at hc
  exact visible_digits (by decide) (by decide) n c hc

theorem visible_lower (n : Nat) : Visible (Hex.lower n) := by
  intro c hc
  rw [Hex.lower, String.toList_ofList] at hc
  exact visible_digits (by decide) (by decide) n c hc

theorem visible_ofByte (b : UInt8) : Visible (Hex.ofByte b) := by
  have digit : ∀ n < 16, 32 ≤ (Hex.upperDigit n).toNat ∧ (Hex.upperDigit n).toNat ≤ 126 := by
    decide
  have hb : b.toNat < 256 := b.toNat_lt
  intro c hc
  rw [Hex.ofByte, String.toList_ofList] at hc
  rcases List.mem_cons.mp hc with rfl | hc
  · exact digit (b.toNat / 16) (by omega)
  · rw [List.mem_singleton.mp hc]
    exact digit (b.toNat % 16) (by omega)

theorem visible_of_isGraphic {b : UInt8} (h : Byte.isGraphic b = true) :
    Visible (String.singleton (Char.ofNat b.toNat)) := by
  have graphic : ∀ n < 127, 33 ≤ n → 32 ≤ (Char.ofNat n).toNat ∧ (Char.ofNat n).toNat ≤ 126 := by
    decide
  simp only [Byte.isGraphic, Bool.and_eq_true, decide_eq_true_eq, UInt8.le_iff_toNat_le] at h
  intro c hc
  rw [String.toList_singleton, List.mem_singleton] at hc
  rw [hc]
  exact graphic b.toNat (Nat.lt_succ_of_le h.2) h.1

theorem visible_shown (b : UInt8) : Visible (Byte.shown b) := by
  unfold Byte.shown
  split
  next h =>
    refine visible_framed (visible_framed ?_ (visible_of_isGraphic h) ?_) (visible_ofByte b) ?_
    all_goals exact visible_ofList rfl
  next => exact visible_append.mpr ⟨visible_ofList rfl, visible_ofByte b⟩

end Text
end StaticAssert
