import StaticAssert.Command

/-!
# The program

Reads the file that the command line names, if any, and prints the reply. Reports are
coloured if standard error is a terminal.
-/

set_option autoImplicit false

namespace StaticAssert

def refusal (code : UInt32) (reason : String) : ReadError :=
  .ofCode code.toInt32.toInt.natAbs reason

def readText (name : String) : IO (Except ReadError String) := do
  try
    let bytes ← IO.FS.readBinFile ⟨name⟩
    return (String.fromUTF8? bytes).elim (.error .notText) .ok
  catch
    | .noFileOrDirectory _ code reason => return .error (refusal code reason)
    | .invalidArgument _ code reason => return .error (refusal code reason)
    | .inappropriateType _ code reason => return .error (refusal code reason)
    | .permissionDenied _ code reason => return .error (refusal code reason)
    | e => return .error (.other (toString e))

end StaticAssert

open StaticAssert in
def main (args : List String) : IO UInt32 := do
  let text ←
    match Command.file? args with
    | some name => readText name
    | none => pure (.error .missing)
  let stdout ← IO.getStdout
  let stderr ← IO.getStderr
  let reply := Command.run args (← stderr.isTty) fun _ => text
  stdout.write ⟨reply.stdout.toArray⟩
  stderr.write ⟨reply.stderr.toArray⟩
  return UInt32.ofNat reply.exitCode
