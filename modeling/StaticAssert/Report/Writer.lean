import StaticAssert.Source.Byte

/-!
# Writing with a limit

A writer keeps the bytes it is given, up to an optional limit. A write that does not fit
keeps what fits and fails; so does every later write of one byte or more. What writes is an
action on the writer, which ends at its first failure.
-/

set_option autoImplicit false

namespace StaticAssert

inductive WriteError where
  | full
  deriving DecidableEq

def WriteError.message : WriteError → String
  | .full => "writer full"

structure Writer where
  limit? : Option Nat
  stored : Array UInt8
  deriving DecidableEq

namespace Writer

def empty (limit? : Option Nat) : Writer := ⟨limit?, #[]⟩

def fitting (w : Writer) (count : Nat) : Nat :=
  match w.limit? with
  | none => count
  | some limit => min count (limit - w.stored.size)

end Writer

/-- Writing leaves a writer behind, and a result unless a write fails. -/
def Writing (α : Type) : Type := Writer → Except WriteError α × Writer

namespace Writing

instance : Monad Writing where
  pure x := fun w => (.ok x, w)
  bind action next := fun w =>
    match action w with
    | (.ok x, w) => next x w
    | (.error e, w) => (.error e, w)

def write (text : String) : Writing Unit := fun w =>
  let bytes := Byte.ofText text
  let kept := bytes.take (w.fitting bytes.length)
  (if kept.length = bytes.length then .ok () else .error .full,
    { w with stored := w.stored ++ kept })

def writeAll : List String → Writing Unit
  | [] => return
  | text :: rest => do
    write text
    writeAll rest

def flush : Writing Unit :=
  -- Nothing is held back.
  return

end Writing
end StaticAssert
