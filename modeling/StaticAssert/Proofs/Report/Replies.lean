import StaticAssert.Command
import StaticAssert.Proofs.Report.Listing
import StaticAssert.Proofs.Report.Verdict
import StaticAssert.Proofs.Text.Boundaries

/-!
# Replies to command lines

No write to an output stream fails, so a reply holds a whole report or a whole listing. A
check fails just if it complains. Of the files a reply depends on the one that the command
line names only.
-/

set_option autoImplicit false

namespace StaticAssert
namespace Command

open Byte (ofText ofText_append)
open Piece (shown)
open Text (unlines)

variable (terminal : Bool) (source : String)

theorem checkSource_eq : checkSource terminal source =
    ⟨(Compiled.ofSource source).outcome.exitCode, [],
      ofText (shown (ColourMode.auto.colours terminal) (Compiled.ofSource source).report)⟩ := by
  rw [checkSource, Writer.empty, (Writing.writes_check _ source).unlimited #[]]
  simp

/-- A check fails just if it complains. -/
theorem exitCode_checkSource :
    (checkSource terminal source).exitCode = 0 ↔ (checkSource terminal source).stderr = [] := by
  have hz := (Compiled.ofSource source).shown_report_eq_empty_iff
    (ColourMode.auto.colours terminal)
  rw [checkSource_eq, ← hz]
  generalize shown _ _ = report
  show report = "" ↔ ofText report = []
  constructor
  · intro h
    rw [h]
    rfl
  · intro h
    apply Byte.eq_empty_of_ofText
    rw [h, List.length_nil]

theorem lexSource_eq (name : String) : lexSource name source =
    ⟨0, ofText ("Tokens for '" ++ name ++ "':\n" ++
      unlines ((tokenize source).map (Token.entry source)) ++
      "(" ++ Nat.repr (tokenize source).length ++ " tokens)\n"), []⟩ := by
  have written := (Writing.writes_writeAll ["Tokens for '", name, "':\n"]).andThen
    (Writing.writes_listTokens source)
  rw [lexSource, Writer.empty, written.unlimited #[]]
  simp [ofText_append, String.append_assoc]

/-- Only the file that the command line names is read. -/
theorem run_congr {args : List String} {files files' : Files}
    (h : ∀ name ∈ file? args, files name = files' name) :
    run args terminal files = run args terminal files' := by
  cases args with
  | nil => rfl
  | cons command names =>
    cases names with
    | nil => rfl
    | cons name names =>
      by_cases hc : command = "check" ∨ command = "lex"
      · have hn : file? (command :: name :: names) = some name := if_pos hc
        simp only [run, onFile, h name hn]
      · obtain ⟨hcheck, hlex⟩ := not_or.mp hc
        simp only [run, hcheck, hlex, if_false]

end Command
end StaticAssert
