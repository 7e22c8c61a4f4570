import StaticAssert.Report.Check
import StaticAssert.Report.TokenList

/-!
# The command line

A command line is answered with what goes to the two output streams and an exit code.
Files enter through a function that gives their text or says why there is none; only the
first file named is read, and further arguments are ignored.
-/

set_option autoImplicit false

namespace StaticAssert

open Byte (ofText)

inductive ReadError where
  | missing
  | isFolder
  | notFolder
  | nameTooLong
  | notText
  | other (reason : String)
  deriving DecidableEq

namespace ReadError

def coded (reason : String) (code : Nat) : String :=
  reason ++ " (os error " ++ Nat.repr code ++ ")"

def message : ReadError → String
  | .missing => coded "No such file or directory" 2
  | .isFolder => coded "Is a directory" 21
  | .notFolder => coded "Not a directory" 20
  | .nameTooLong => coded "File name too long" 36
  | .notText => "stream did not contain valid UTF-8"
  | .other reason => reason

def ofCode (code : Nat) (reason : String) : ReadError :=
  -- The cause that a system reports by a number, with the system's own words for the causes that
  -- have no name here.
  if code = 2 then .missing
  else if code = 20 then .notFolder
  else if code = 21 then .isFolder
  else if code = 36 then .nameTooLong
  else .other (coded reason code)

end ReadError

structure Reply where
  exitCode : Nat
  stdout : List UInt8
  stderr : List UInt8
  deriving DecidableEq

namespace Command

abbrev Files := String → Except ReadError String

def usage : String :=
  "Kiln Compiler\n" ++
  "\n" ++
  "Usage: kiln <command> [options]\n" ++
  "\n" ++
  "Commands:\n" ++
  "  check <file>   Evaluate every static_assert and report failures\n" ++
  "  lex <file>     Print the token stream (debugging)\n" ++
  "  help           Show this message\n" ++
  "  version        Show version information\n" ++
  "\n" ++
  "Set RUST_LOG (e.g. RUST_LOG=kiln_parse=debug) for tracing output.\n"

def checkSource (terminal : Bool) (source : String) : Reply :=
  match check source (ColourMode.auto.colours terminal) (.empty none) with
  | (.ok outcome, w) => ⟨outcome.exitCode, [], w.stored.toList⟩
  | (.error error, w) =>
    ⟨1, [], w.stored.toList ++
      ofText ("error: cannot write diagnostics: " ++ error.message ++ "\n")⟩

def lexSource (name source : String) : Reply :=
  let written : Writing Nat := do
    Writing.writeAll ["Tokens for '", name, "':\n"]
    listTokens source
  match written (.empty none) with
  | (.ok count, w) => ⟨0, w.stored.toList ++ ofText ("(" ++ Nat.repr count ++ " tokens)\n"), []⟩
  | (.error error, w) => ⟨1, w.stored.toList, ofText ("error: " ++ error.message ++ "\n")⟩

def onFile (command : String) (names : List String) (files : Files)
    (answer : String → String → Reply) : Reply :=
  match names with
  | [] => ⟨1, [], ofText ("Usage: kiln " ++ command ++ " <file>\n")⟩
  | name :: _ =>
    match files name with
    | .ok source => answer name source
    | .error error =>
      ⟨1, [], ofText ("error: cannot read '" ++ name ++ "': " ++ error.message ++ "\n")⟩

def file? : List String → Option String
  | command :: name :: _ => if command = "check" ∨ command = "lex" then some name else none
  | _ => none

def run (args : List String) (terminal : Bool) (files : Files) : Reply :=
  match args with
  | [] => ⟨0, ofText usage, []⟩
  | command :: names =>
    if command = "check" then
      onFile command names files fun _ source => checkSource terminal source
    else if command = "lex" then onFile command names files lexSource
    else if command ∈ ["help", "--help", "-h"] then ⟨0, ofText usage, []⟩
    else if command ∈ ["version", "--version", "-V"] then ⟨0, ofText "kiln 0.1.0\n", []⟩
    else ⟨1, ofText usage, ofText ("Unknown command: " ++ command ++ "\n\n")⟩

end Command
end StaticAssert
