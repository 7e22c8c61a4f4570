import StaticAssert.Proofs.Report.Listing
import StaticAssert.Proofs.Report.Pieces

/-!
# Output that does not fit

A check writes one stretch of bytes and has one outcome, and so does a listing of tokens,
whatever the writer has kept before. A writer with room for so many bytes keeps the
beginning of that stretch. It fails if that is not all of it, and changes nothing else.
-/

set_option autoImplicit false

namespace StaticAssert

open Byte (ofText)

namespace Writer

variable {stored : Array UInt8} {room : Nat}

def withRoom (stored : Array UInt8) (room : Nat) : Writer := ⟨some (stored.size + room), stored⟩

theorem fitting_withRoom (n : Nat) : (withRoom stored room).fitting n = min n room :=
  congrArg (min n) (Nat.add_sub_cancel_left _ _)

theorem store_withRoom (bytes : List UInt8) :
    (withRoom stored room).store bytes =
      (if room < bytes.length then .error .full else .ok (),
        { withRoom stored room with stored := stored ++ bytes.take room }) := by
  have ht : bytes.take (min bytes.length room) = bytes.take room := by
    rw [Nat.min_comm, ← List.take_eq_take_min]
  rw [store, fitting_withRoom, ht]
  by_cases h : room < bytes.length
  · rw [if_pos h, if_neg (by omega)]
    rfl
  · rw [if_neg h, if_pos (by omega)]
    rfl

end Writer

section Actions

variable {α : Type} {action : Writing α} {text : String} {result : α}

/-- What is kept is the beginning of what is written without a limit, as long as the room allows.
There is the same result, unless some of it is missing. -/
def CutsOff (action : Writing α) : Prop :=
  ∃ (bytes : List UInt8) (result : α), ∀ stored : Array UInt8,
    action ⟨none, stored⟩ = (.ok result, ⟨none, stored ++ bytes⟩) ∧
    ∀ room : Nat, action (.withRoom stored room) =
      (if room < bytes.length then .error .full else .ok result,
        { Writer.withRoom stored room with stored := stored ++ bytes.take room })

theorem Writing.Writes.cutsOff (h : Writes action text result) : CutsOff action := by
  refine ⟨ofText text, result, fun stored => ⟨h.unlimited stored, fun room => ?_⟩⟩
  rw [h, Writer.store_withRoom]
  split <;> rfl

end Actions

/-- A writer with little room cuts off what a check or a listing of tokens writes, and nothing
else: it fails just if something is cut off. -/
theorem output_cut_off (source : String) :
    (∀ colours, CutsOff (check source colours)) ∧ CutsOff (listTokens source) :=
  ⟨fun colours => (Writing.writes_check colours source).cutsOff,
    (Writing.writes_listTokens source).cutsOff⟩

/-- With room for three bytes the word `error` is cut off behind them. -/
example : (check "" false (.empty (some 3))).2.stored = #[101, 114, 114] := by
  decide +kernel

end StaticAssert
