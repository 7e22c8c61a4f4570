import StaticAssert.Report.Writer

/-!
# What a writer keeps of many writes

However many texts it comes in, a writer is given one stretch of bytes. It keeps as many
of them as fit and fails if not all do. An action that writes a text in whatever parts is
known by that text and by its result, and so is one that is put together of such actions,
one after another or in a loop.
-/

set_option autoImplicit false

namespace StaticAssert

open Byte (ofText ofText_append)

namespace Writer

variable {w : Writer}

theorem fitting_le (w : Writer) (n : Nat) : w.fitting n ≤ n := by
  unfold fitting
  split
  · exact Nat.le_refl n
  · exact Nat.min_le_left _ _

def store (w : Writer) (bytes : List UInt8) : Except WriteError Unit × Writer :=
  (if w.fitting bytes.length = bytes.length then .ok () else .error .full,
    { w with stored := w.stored ++ bytes.take (w.fitting bytes.length) })

theorem store_of_fits {bytes : List UInt8} (h : w.fitting bytes.length = bytes.length) :
    w.store bytes = (.ok (), { w with stored := w.stored ++ bytes }) := by
  rw [store, if_pos h, h, List.take_length]

theorem store_of_not_fits {bytes : List UInt8} (h : w.fitting bytes.length ≠ bytes.length) :
    w.store bytes =
      (.error .full, { w with stored := w.stored ++ bytes.take (w.fitting bytes.length) }) := by
  rw [store, if_neg h]

theorem fits_of_unlimited (h : w.limit? = none) (n : Nat) : w.fitting n = n := by
  rw [fitting, h]

/-- What is behind the bytes that fit has the room they leave. -/
theorem fitting_add {bytes : List UInt8} (h : w.fitting bytes.length = bytes.length) (n : Nat) :
    w.fitting (bytes.length + n) =
      bytes.length + fitting { w with stored := w.stored ++ bytes } n := by
  unfold fitting at *
  cases hl : w.limit? with
  | none => rfl
  | some limit =>
    have hs : (w.stored ++ bytes).size = w.stored.size + bytes.length := by
      rw [← Array.length_toList, Array.toList_appendList, List.length_append, Array.length_toList]
    simp only [hl] at h
    simp only [hs]
    omega

/-- Once a byte does not fit, nothing does. -/
theorem fitting_add_of_not_fits {m : Nat} (h : w.fitting m ≠ m) (n : Nat) :
    w.fitting (m + n) = w.fitting m := by
  unfold fitting at *
  cases hl : w.limit? with
  | none => simp [hl] at h
  | some limit =>
    simp only [hl] at h
    dsimp only
    omega

theorem store_append (w : Writer) (xs ys : List UInt8) :
    w.store (xs ++ ys) =
      match w.store xs with
      | (.ok (), w') => w'.store ys
      | (.error e, w') => (.error e, w') := by
  by_cases h : w.fitting xs.length = xs.length
  · have ha := fitting_add h ys.length
    have assoc (bytes : List UInt8) : w.stored ++ (xs ++ bytes) = w.stored ++ xs ++ bytes := by
      apply Array.toList_inj.mp
      simp only [Array.toList_appendList, List.append_assoc]
    rw [store_of_fits h]
    simp only [store, List.length_append, ha, Nat.add_right_inj, List.take_length_add_append,
      assoc]
  · have ha := fitting_add_of_not_fits h ys.length
    have hle := w.fitting_le xs.length
    rw [store_of_not_fits h]
    have hn : w.fitting (xs ++ ys).length ≠ (xs ++ ys).length := by
      rw [List.length_append, ha]
      omega
    rw [store_of_not_fits hn, List.length_append, ha, List.take_append_of_le_length hle]

end Writer

namespace Writing

variable {α β : Type} {s t : String} {x : α} {y : β}

/-- The action does what writing the text at once does, and has the result if that is kept. -/
def Writes (action : Writing α) (text : String) (result : α) : Prop :=
  ∀ w : Writer, action w = ((w.store (ofText text)).1.map fun _ => result,
    (w.store (ofText text)).2)

theorem writes_write (text : String) : Writes (write text) text () := by
  intro w
  have h := w.fitting_le (ofText text).length
  simp only [write, Writer.store, List.length_take, Nat.min_eq_left h]
  split <;> rfl

namespace Writes

variable {action : Writing α} {next : α → Writing β}

theorem of_eq (h : Writes action s x) (hs : s = t) : Writes action t x := hs ▸ h

theorem unlimited (h : Writes action s x) (stored : Array UInt8) :
    action ⟨none, stored⟩ = (.ok x, ⟨none, stored ++ ofText s⟩) := by
  rw [h, Writer.store_of_fits (Writer.fits_of_unlimited rfl _)]
  rfl

theorem pure (x : α) : Writes (Pure.pure x) "" x := by
  intro w
  have h : w.fitting ([] : List UInt8).length = ([] : List UInt8).length :=
    Nat.le_zero.mp (w.fitting_le 0)
  show _ = ((w.store []).1.map fun _ => x, (w.store []).2)
  rw [Writer.store_of_fits h]
  rfl

theorem bind (ha : Writes action s x) (hn : Writes (next x) t y) :
    Writes (action >>= next) (s ++ t) y := by
  intro w
  simp only [Bind.bind, ha w, Byte.ofText_append, Writer.store_append]
  rcases w.store (ofText s) with ⟨_ | _, w'⟩
  · rfl
  · exact hn w'

theorem andThen {first : Writing Unit} {second : Writing β} (hf : Writes first s ())
    (hs : Writes second t y) : Writes (first >>= fun _ => second) (s ++ t) y :=
  hf.bind hs

/-- A loop writes what its turns write. -/
theorem forIn {text : α → String} {step : β → α → β} {body : α → β → Writing (ForInStep β)}
    (h : ∀ x y, Writes (body x y) (text x) (.yield (step y x))) (xs : List α) (y : β) :
    Writes (ForIn.forIn xs y body) (String.join (xs.map text)) (xs.foldl step y) := by
  induction xs generalizing y with
  | nil => exact pure y
  | cons x xs ih =>
    rw [List.forIn_cons, List.map_cons, String.join_cons]
    exact (h x y).bind (ih (step y x))

end Writes

theorem writes_writeAll (texts : List String) : Writes (writeAll texts) (String.join texts) () := by
  induction texts with
  | nil => exact .pure ()
  | cons text texts ih =>
    rw [String.join_cons]
    exact (writes_write text).andThen ih

end Writing
end StaticAssert
