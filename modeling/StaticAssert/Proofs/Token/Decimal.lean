import Mathlib.Data.Nat.Digits.Lemmas
import StaticAssert.Token.Lexeme

/-!
# Decimal numbers

The number that a string of digits denotes, whatever its size. The value that is
accumulated in words is this number modulo 2^64, and a string without a leading zero is
found too large exactly if its number does not fit in a word. A number that is written
out is denoted by what is written.
-/

set_option autoImplicit false

namespace StaticAssert

namespace Byte

theorem isDigit_iff {b : UInt8} : isDigit b = true ↔ 48 ≤ b.toNat ∧ b.toNat ≤ 57 := by
  simp [isDigit, UInt8.le_iff_toNat_le]

theorem toNat_digitValue {b : UInt8} (h : isDigit b = true) :
    (digitValue b).toNat = b.toNat - 48 := by
  have hb := isDigit_iff.mp h
  have hz : zero ≤ b := UInt8.le_iff_toNat_le.mpr hb.1
  rw [digitValue, UInt8.toNat_toUInt64, UInt8.toNat_sub_of_le _ _ hz]
  rfl

end Byte

namespace Lexeme

def decimal (digits : List UInt8) : Nat :=
  Nat.ofDigits 10 (digits.map fun b => b.toNat - 48).reverse

theorem decimal_append (xs ys : List UInt8) :
    decimal (xs ++ ys) = decimal xs * 10 ^ ys.length + decimal ys := by
  rw [decimal, List.map_append, List.reverse_append, Nat.ofDigits_append, List.length_reverse,
    List.length_map, Nat.add_comm, Nat.mul_comm]
  rfl

theorem decimal_singleton (b : UInt8) : decimal [b] = b.toNat - 48 := Nat.ofDigits_singleton

theorem decimal_lt {digits : List UInt8} (h : ∀ b ∈ digits, Byte.isDigit b = true) :
    decimal digits < 10 ^ digits.length := by
  have hl : ∀ d ∈ (digits.map fun b => b.toNat - 48).reverse, d < 10 := by
    intro d hd
    obtain ⟨b, hb, rfl⟩ := List.mem_map.mp (List.mem_reverse.mp hd)
    have := Byte.isDigit_iff.mp (h b hb)
    omega
  simpa [decimal] using Nat.ofDigits_lt_base_pow_length (by decide : 1 < 10) hl

theorem decimal_cons_bounds {b : UInt8} {digits : List UInt8}
    (h : ∀ c ∈ b :: digits, Byte.isDigit c = true) :
    (b.toNat - 48) * 10 ^ digits.length ≤ decimal (b :: digits) ∧
      decimal (b :: digits) < (b.toNat - 48 + 1) * 10 ^ digits.length := by
  have ht := decimal_lt fun c hc => h c (List.mem_cons_of_mem b hc)
  have hd := decimal_append [b] digits
  rw [List.singleton_append, decimal_singleton] at hd
  rw [hd, Nat.add_mul]
  omega

/-- Accumulation in words wraps around, at the end as at every step. -/
theorem toNat_digitsValue {digits : List UInt8} (h : ∀ b ∈ digits, Byte.isDigit b = true) :
    (digitsValue digits).toNat = decimal digits % 2 ^ 64 := by
  induction digits using List.reverseRecOn with
  | nil => rfl
  | append_singleton digits b ih =>
    have hi := ih fun c hc => h c (List.mem_append_left _ hc)
    have hb := Byte.toNat_digitValue (h b (List.mem_append_right _ List.mem_cons_self))
    have hv : digitsValue (digits ++ [b]) = digitsValue digits * 10 + Byte.digitValue b := by
      simp [digitsValue]
    have ht : (10 : UInt64).toNat = 10 := rfl
    rw [hv, UInt64.toNat_add, UInt64.toNat_mul, hi, hb, ht, decimal_append, decimal_singleton,
      List.length_singleton]
    omega

/-- Twenty digits fit in a word only if they begin with one, and then the accumulated value
tells whether they do. -/
theorem tooLarge_iff {b : UInt8} {digits : List UInt8} (hb : b ≠ Byte.zero)
    (h : ∀ c ∈ b :: digits, Byte.isDigit c = true) :
    tooLarge (b :: digits) = true ↔ 2 ^ 64 ≤ decimal (b :: digits) := by
  have hd := Byte.isDigit_iff.mp (h b List.mem_cons_self)
  have hz : b.toNat ≠ 48 := fun he => hb (UInt8.toNat_inj.mp he)
  have hbounds := decimal_cons_bounds h
  have hv : digitsValue (b :: digits) < 10000000000000000000 ↔
      decimal (b :: digits) % 2 ^ 64 < 10 ^ 19 := by
    rw [UInt64.lt_iff_toNat_lt, toNat_digitsValue h]
    rfl
  have ho : b ≠ Byte.one ↔ b.toNat ≠ 49 := by
    rw [ne_eq, ← UInt8.toNat_inj]
    rfl
  simp only [tooLarge, List.length_cons, List.head?_cons, Option.any_some, Bool.and_eq_true,
    Bool.or_eq_true, decide_eq_true_eq, bne_iff_ne, hv, ho]
  -- Nineteen digits always fit and twenty-one never do. Of twenty the first decides, unless
  -- it is one: then the number is below 2 * 10^19 and wraps at most once.
  rcases Nat.lt_trichotomy digits.length 19 with hl | hl | hl
  · have hp : 10 ^ digits.length ≤ 10 ^ 18 := Nat.pow_le_pow_right (by decide) (by omega)
    have : (b.toNat - 48 + 1) * 10 ^ digits.length ≤ 10 * 10 ^ 18 :=
      Nat.mul_le_mul (by omega) hp
    omega
  · rw [hl] at hbounds
    omega
  · have hp : 10 ^ 20 ≤ 10 ^ digits.length := Nat.pow_le_pow_right (by decide) (by omega)
    have : 1 * 10 ^ 20 ≤ (b.toNat - 48) * 10 ^ digits.length := Nat.mul_le_mul (by omega) hp
    omega

theorem ofText_repr (n : Nat) :
    Byte.ofText n.repr =
      (if n < 10 then [] else Byte.ofText (n / 10).repr) ++ [UInt8.ofNat (48 + n % 10)] := by
  have digit (d : Nat) (hd : d < 10) :
      String.utf8EncodeChar d.digitChar = [UInt8.ofNat (48 + d)] := by
    revert d
    decide
  rw [Byte.ofText, Nat.toList_repr, Nat.toDigits_eq_if (by decide)]
  split
  next hn => simp [digit n hn, Nat.mod_eq_of_lt hn]
  next => simp [digit _ (Nat.mod_lt n (by decide)), Byte.ofText]

theorem toNat_digit (n : Nat) : (UInt8.ofNat (48 + n % 10)).toNat = 48 + n % 10 := by
  rw [UInt8.toNat_ofNat']
  omega

theorem isDigit_of_mem_ofText_repr {n : Nat} :
    ∀ b ∈ Byte.ofText n.repr, Byte.isDigit b = true := by
  induction n using Nat.strong_induction_on with
  | _ n ih =>
    intro b hb
    rw [ofText_repr] at hb
    rcases List.mem_append.mp hb with hb | hb
    · split at hb
      next => cases hb
      next hn => exact ih (n / 10) (by omega) b hb
    · rw [List.mem_singleton.mp hb, Byte.isDigit_iff, toNat_digit]
      omega

/-- Writing a number down and reading it gives the number back. -/
theorem decimal_ofText_repr (n : Nat) : decimal (Byte.ofText n.repr) = n := by
  induction n using Nat.strong_induction_on with
  | _ n ih =>
    rw [ofText_repr, decimal_append, decimal_singleton, toNat_digit, List.length_singleton]
    split
    next hn =>
      have hz : decimal [] = 0 := rfl
      omega
    next hn =>
      rw [ih (n / 10) (by omega)]
      omega

theorem exists_ofText_repr_eq_cons {n : Nat} (h : n ≠ 0) :
    ∃ b digits, Byte.ofText n.repr = b :: digits ∧ b ≠ Byte.zero := by
  induction n using Nat.strong_induction_on with
  | _ n ih =>
    rw [ofText_repr]
    split
    next hn =>
      refine ⟨UInt8.ofNat (48 + n % 10), [], rfl, fun he => ?_⟩
      have hv : 48 + n % 10 = 48 := by rw [← toNat_digit n, he]; rfl
      omega
    next hn =>
      obtain ⟨b, digits, hd, hb⟩ := ih (n / 10) (by omega) (by omega)
      exact ⟨b, digits ++ [UInt8.ofNat (48 + n % 10)], by rw [hd, List.cons_append], hb⟩

end Lexeme
end StaticAssert
