import StaticAssert.Proofs.Report.Rendering
import StaticAssert.Proofs.Text.Boundaries

/-!
# Diagnostics with any span

A diagnostic can be shown against any source, whatever its span: backwards, outside the
source or through the middle of a character. It takes two lines if there is nothing to
quote, and else a third that quotes the words under the span. There is something to quote
just if the span runs forward between two places of the source.
-/

set_option autoImplicit false

namespace StaticAssert

open Byte (ofText)
open Text (Collapsed IsBoundary oneLine unlines)

/-- The span is not empty, stays inside the text and cuts no character. -/
def Span.Quotable (text : String) (span : Span) : Prop :=
  span.start < span.stop ∧ span.stop ≤ (ofText text).length ∧
    IsBoundary text span.start ∧ IsBoundary text span.stop

namespace Diagnostic

variable {source : String} {d : Diagnostic}

theorem isSome_excerpt?_iff : (d.excerpt? source).isSome ↔ d.span.Quotable source := by
  have he : d.span.isEmpty = true ↔ d.span.start = d.span.stop := beq_iff_eq
  rw [excerpt?_eq]
  split
  next h =>
    have hs := he.mp h
    refine ⟨nofun, fun hq => absurd hq.1 ?_⟩
    omega
  next h =>
    have hs := mt he.mpr h
    rw [Option.isSome_map, Option.isSome_iff_exists, Text.exists_slice?_iff]
    constructor
    · rintro ⟨hl, hm, hn⟩
      exact ⟨by omega, hn.le, hm, hn⟩
    · rintro ⟨hl, -, hm, hn⟩
      exact ⟨by omega, hm, hn⟩

theorem excerpt?_of_append {before cut after : String} (hs : source = before ++ cut ++ after)
    (hm : d.span.start = (ofText before).length)
    (hn : d.span.stop = (ofText (before ++ cut)).length) (hc : cut ≠ "") :
    d.excerpt? source = some (String.ofList (oneLine cut.toList)) := by
  have hl : (ofText cut).length ≠ 0 := fun hz => hc (Byte.eq_empty_of_ofText hz)
  rw [Byte.ofText_append, List.length_append] at hn
  have he : ¬ d.span.isEmpty = true := by
    intro he
    have := beq_iff_eq.mp he
    omega
  have hspan : d.span = ⟨(ofText before).length, (ofText before).length + (ofText cut).length⟩ := by
    rw [← hn, ← hm]
  rw [excerpt?_eq, if_neg he, hspan, hs, Text.slice?_append]
  rfl

structure ShownIn (d : Diagnostic) (source : String) (lines : List String) : Prop where
  whole : Text.lines (unlines lines).toList = lines.map String.toList
  heading : lines.take 2 =
    ["error[" ++ d.issue.code ++ "]: " ++ d.heading, "  --> line " ++ Nat.repr d.line]
  count : lines.length = 2 ∨ lines.length = 3
  third : lines.length = 3 ↔ d.span.Quotable source
  quoted : ∀ before cut after, source = before ++ cut ++ after →
    d.span.start = (ofText before).length → d.span.stop = (ofText (before ++ cut)).length →
    cut ≠ "" → ∃ quotation, Collapsed cut.toList quotation ∧
      lines[2]? = some ("   = source: `" ++ String.ofList quotation ++ "`")

theorem shownIn_lines (d : Diagnostic) (source : String) : d.ShownIn source (d.lines source) where
  whole := Text.lines_unlines (d.unbroken_lines source)
  heading := by
    rfl
  count := by
    cases h : d.excerpt? source <;> simp [lines, h]
  third := by
    rw [← isSome_excerpt?_iff]
    cases h : d.excerpt? source <;> simp [lines, h]
  quoted before cut after hs hm hn hc := by
    refine ⟨_, Text.collapsed_oneLine cut.toList, ?_⟩
    simp [lines, excerpt?_of_append hs hm hn hc]

end Diagnostic

/-- Any diagnostic can be shown against any source. Writing it never fails, and without colours it
is written in two or three lines, the third of which quotes what is under the span. -/
theorem any_diagnostic_shown (d : Diagnostic) (source : String) :
    (∀ colours stored, ∃ bytes : List UInt8,
      Writing.emit colours source d ⟨none, stored⟩ = (.ok (), ⟨none, stored ++ bytes⟩)) ∧
    ∃ lines, d.ShownIn source lines ∧ ∀ stored,
      Writing.emit false source d ⟨none, stored⟩ =
        (.ok (), ⟨none, stored ++ ofText (unlines lines)⟩) := by
  constructor
  · intro colours stored
    exact ⟨_, (Writing.writes_emit colours source d).unlimited stored⟩
  · refine ⟨d.lines source, d.shownIn_lines source, fun stored => ?_⟩
    rw [← Diagnostic.shown_pieces]
    exact (Writing.writes_emit false source d).unlimited stored

/-- White space of several kinds is quoted as one space. -/
example :
    (Diagnostic.assertionFailed 1 ⟨1, 9⟩).excerpt? "( 1\t\n\u2028+)" = some "1 +" := by
  decide +kernel

end StaticAssert
