import StaticAssert.Proofs.Report.Pieces
import StaticAssert.Proofs.Report.Wording
import StaticAssert.Proofs.Text.Words

/-!
# What is shown, line by line

No message contains a newline, and where text of the source is quoted it is put on one
line. So the lines of what is shown without colours are known, and of the lines of a
diagnostic only the first begins like an error.
-/

set_option autoImplicit false

namespace StaticAssert

open Text (Unbroken unlines)

namespace Piece

theorem shown_flatMap_eq_unlines {α : Type} {pieces : α → List Piece} {lines : α → List String}
    (h : ∀ x, shown false (pieces x) = unlines (lines x)) (xs : List α) :
    shown false (xs.flatMap pieces) = unlines (xs.flatMap lines) := by
  induction xs with
  | nil => rfl
  | cons x xs ih =>
    rw [List.flatMap_cons, List.flatMap_cons, shown_append, Text.unlines_append, h, ih]

theorem shown_ofError (message : String) :
    shown false (ofError message) = unlines ["error: " ++ message] := by
  apply String.toList_inj.mp
  simp [ofError, render, styled, plain, Text.unlines_singleton]

def summaryLine : Nat → String
  | 1 => "error: aborting due to previous error"
  | n => "error: aborting due to " ++ Nat.repr n ++ " previous errors"

theorem unbroken_summaryLine (n : Nat) : Unbroken (summaryLine n) := by
  unfold summaryLine
  split
  · decide +kernel
  · exact Text.unbroken_framed (by decide) (Text.visible_repr n).unbroken (by decide)

theorem shown_summary {n : Nat} (h : n ≠ 0) :
    shown false (summary n) = unlines [summaryLine n] := by
  match n with
  | 0 => contradiction
  | 1 => exact shown_ofError _
  | n + 2 =>
    have hs : "error: " ++ ("aborting due to " ++ Nat.repr (n + 2) ++ " previous errors") =
        summaryLine (n + 2) := by
      apply String.toList_inj.mp
      simp [summaryLine]
    rw [← hs]
    exact shown_ofError _

theorem error_mem_summary {n : Nat} (h : n ≠ 0) : styled .error "error" ∈ summary n := by
  match n with
  | 0 => contradiction
  | 1 | n + 2 => exact List.mem_cons_self

end Piece

namespace Diagnostic

def lines (source : String) (d : Diagnostic) : List String :=
  ("error[" ++ d.issue.code ++ "]: " ++ d.heading) :: ("  --> line " ++ Nat.repr d.line) ::
    (d.excerpt? source).toList.map fun text => "   = source: `" ++ text ++ "`"

theorem shown_pieces (source : String) (d : Diagnostic) :
    Piece.shown false (d.pieces source) = unlines (d.lines source) := by
  apply String.toList_inj.mp
  cases h : d.excerpt? source <;>
    simp [pieces, lines, excerptPieces, h, unlines, Piece.render, Piece.styled, Piece.plain]

theorem excerpt?_eq (d : Diagnostic) (source : String) :
    d.excerpt? source =
      if d.span.isEmpty then none
      else (Text.slice? source d.span).map fun cut => String.ofList (Text.oneLine cut.toList) := by
  rw [excerpt?, Text.slice?, Option.map_map]
  congr 2
  funext cs
  exact congrArg (fun cs => String.ofList (Text.oneLine cs)) String.toList_ofList.symm

theorem exists_cut_of_excerpt? {source text : String} {d : Diagnostic}
    (h : d.excerpt? source = some text) :
    ∃ cut, Text.slice? source d.span = some cut ∧
      text = String.ofList (Text.oneLine cut.toList) := by
  rw [excerpt?_eq, Option.ite_none_left_eq_some, Option.map_eq_some_iff] at h
  obtain ⟨-, cut, hc, rfl⟩ := h
  exact ⟨cut, hc, rfl⟩

theorem unbroken_excerpt {source text : String} {d : Diagnostic}
    (h : d.excerpt? source = some text) : Unbroken text := by
  obtain ⟨cut, -, rfl⟩ := exists_cut_of_excerpt? h
  exact (Text.tidy_oneLine cut.toList).unbroken

theorem unbroken_lines (source : String) (d : Diagnostic) :
    ∀ line ∈ d.lines source, Unbroken line := by
  intro line hl
  rcases List.mem_cons.mp hl with rfl | hl
  · apply Text.unbroken_append.mpr
    refine ⟨Text.unbroken_framed (by decide) ?_ (by decide), d.visible_heading.unbroken⟩
    cases d.issue <;> decide
  rcases List.mem_cons.mp hl with rfl | hl
  · exact Text.unbroken_append.mpr ⟨by decide, (Text.visible_repr _).unbroken⟩
  obtain ⟨text, ht, rfl⟩ := List.mem_map.mp hl
  exact Text.unbroken_framed (by decide) (unbroken_excerpt (Option.mem_toList.mp ht)) (by decide)

end Diagnostic

def isErrorLine (line : List Char) : Bool := "error".toList.isPrefixOf line

theorem isErrorLine_append {s : String} (h : isErrorLine s.toList = true) (t : String) :
    isErrorLine (s ++ t).toList = true := by
  rw [isErrorLine, List.isPrefixOf_iff_prefix] at h ⊢
  rw [String.toList_append]
  exact h.trans (List.prefix_append _ _)

/-- Of the lines of a diagnostic the first is an error's, and the others are indented. -/
theorem Diagnostic.countP_lines (source : String) (d : Diagnostic) :
    ((d.lines source).map String.toList).countP isErrorLine = 1 := by
  cases h : d.excerpt? source with
  | none => simp [lines, h, isErrorLine, List.isPrefixOf]
  | some text => simp [lines, h, isErrorLine, List.isPrefixOf]

end StaticAssert
