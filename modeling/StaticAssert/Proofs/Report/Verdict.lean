import StaticAssert.Proofs.Compile.Capacity
import StaticAssert.Proofs.Compile.Verdict
import StaticAssert.Proofs.Report.Rendering

/-!
# What a check reports

An exit code of zero, an empty output and a unit whose assertions all hold come to the
same. Otherwise the output is made of known lines, and the number in the last of them is
that of the earlier lines that begin like an error. Nothing is lost if the records do not
fit: the error says so, and counts.
-/

set_option autoImplicit false

namespace StaticAssert

open Piece (shown summaryLine)
open Text (Unbroken unlines)

def reportLines (source : String) (ds : List Diagnostic) (error? : Option CompileError) :
    List String :=
  ds.flatMap (·.lines source) ++ error?.toList.flatMap fun error => ["error: " ++ error.message]

section Lines

variable (source : String) (ds : List Diagnostic) (error? : Option CompileError)

theorem unbroken_reportLines : ∀ line ∈ reportLines source ds error?, Unbroken line := by
  intro line hl
  rcases List.mem_append.mp hl with hl | hl
  · obtain ⟨d, -, hl⟩ := List.mem_flatMap.mp hl
    exact d.unbroken_lines source line hl
  · obtain ⟨error, -, hl⟩ := List.mem_flatMap.mp hl
    rw [List.mem_singleton.mp hl]
    exact Text.unbroken_append.mpr ⟨by decide, error.visible_message.unbroken⟩

theorem countP_flatMap_of_one {α : Type} {lines : α → List String}
    (h : ∀ x, ((lines x).map String.toList).countP isErrorLine = 1) (xs : List α) :
    ((xs.flatMap lines).map String.toList).countP isErrorLine = xs.length := by
  induction xs with
  | nil => rfl
  | cons x xs ih =>
    rw [List.flatMap_cons, List.map_append, List.countP_append, h, ih, List.length_cons,
      Nat.add_comm]

theorem countP_reportLines :
    ((reportLines source ds error?).map String.toList).countP isErrorLine =
      ds.length + error?.toList.length := by
  have he (error : CompileError) :
      (["error: " ++ error.message].map String.toList).countP isErrorLine = 1 := by
    rw [List.map_singleton, List.countP_singleton, isErrorLine_append (by decide), if_pos rfl]
  rw [reportLines, List.map_append, List.countP_append,
    countP_flatMap_of_one (·.countP_lines source), countP_flatMap_of_one he]

end Lines

namespace CheckOutcome

variable {o : CheckOutcome}

theorem exitCode_eq_zero_iff : o.exitCode = 0 ↔ o.diagnostics = 0 ∧ o.error? = none := by
  rw [exitCode, isSuccess]
  cases o.error? <;> simp

theorem count_eq_zero_iff : o.count = 0 ↔ o.exitCode = 0 := by
  rw [exitCode_eq_zero_iff, count, Nat.add_eq_zero_iff, List.length_eq_zero_iff,
    Option.toList_eq_nil_iff]

end CheckOutcome

namespace Compiled

theorem exists_ofSource (source : String) :
    ∃ ds error?, ofSource source = ⟨source, ds, error?⟩ ∧
      compile source (.empty Sink.defaultCapacity) =
        (error?.elim (.ok ()) .error, (Sink.empty Sink.defaultCapacity).append ds) := by
  obtain ⟨t, ht⟩ := exists_describes_compilation source
  obtain ⟨ds, hs⟩ : ∃ ds, (compile source (.empty Sink.defaultCapacity)).2 =
      (Sink.empty Sink.defaultCapacity).append ds := by
    rw [compile_of_describes ht]
    exact ⟨_, rfl⟩
  have hd : ((Sink.empty Sink.defaultCapacity).append ds).records.toList = ds := by
    simp [Sink.append, Sink.empty]
  unfold ofSource
  generalize compile source (.empty Sink.defaultCapacity) = result at hs
  obtain ⟨result, sink⟩ := result
  obtain rfl : sink = _ := hs
  cases result with
  | ok => exact ⟨ds, none, by simp only [hd], rfl⟩
  | error e => exact ⟨ds, some e, by simp only [hd], rfl⟩

variable (c : Compiled)

theorem shown_report (h : c.outcome.count ≠ 0) :
    shown false c.report =
      unlines (reportLines c.source c.records c.error? ++ [summaryLine c.outcome.count]) := by
  have he (error : CompileError) := Piece.shown_ofError error.message
  rw [report, reportLines, Piece.shown_append, Piece.shown_append,
    Piece.shown_flatMap_eq_unlines (·.shown_pieces c.source), Piece.shown_flatMap_eq_unlines he,
    Piece.shown_summary h, Text.unlines_append, Text.unlines_append]

/-- Whatever the colours, nothing is written if there is nothing to count, and only then. -/
theorem shown_report_eq_empty_iff (colours : Bool) :
    shown colours c.report = "" ↔ c.outcome.exitCode = 0 := by
  rw [← CheckOutcome.count_eq_zero_iff]
  constructor
  · intro h
    by_contra hn
    -- one empty text for each piece, but a summary has a piece that no colour empties
    have ht : ∀ p ∈ c.report, (p.render colours).toList = [] := by
      have hj := congrArg String.toList h
      rw [shown, String.toList_join, List.flatMap_map] at hj
      exact List.flatMap_eq_nil_iff.mp hj
    have hm : Piece.styled .error "error" ∈ c.report :=
      List.mem_append_right _ (Piece.error_mem_summary hn)
    cases colours <;> cases ht _ hm
  · intro h
    obtain ⟨hr, he⟩ := c.outcome.exitCode_eq_zero_iff.mp (CheckOutcome.count_eq_zero_iff.mp h)
    rw [report, h, List.length_eq_zero_iff.mp hr, show c.error? = none from he]
    rfl

end Compiled

structure Reports (source : String) (ds : List Diagnostic) (o : CheckOutcome) (text : String) :
    Prop where
  written : text = unlines (reportLines source ds o.error? ++ [summaryLine o.count])
  closed : (Text.lines text.toList).getLast? = some (summaryLine o.count).toList
  counted : (Text.lines text.toList).dropLast.countP isErrorLine = o.count
  count_eq : o.count = if o.error?.isSome then o.diagnostics + 1 else o.diagnostics

/-- The outcome of a check and what it writes agree with its source. -/
structure Verdict (source : String) (colours : Bool) (o : CheckOutcome) (text : String) :
    Prop where
  silent : o.exitCode = 0 ↔ text = ""
  clean : ∀ sink, o.exitCode = 0 ↔ compile source sink = (.ok (), sink)
  holds : o.exitCode = 0 ↔ ∃ statements, Asserts source statements ∧ ∀ s ∈ statements, s.Holds
  compiled : ∃ ds, ds.length = o.diagnostics ∧
    compile source (.empty Sink.defaultCapacity) =
      (o.error?.elim (.ok ()) .error, (Sink.empty Sink.defaultCapacity).append ds) ∧
    (o.exitCode ≠ 0 → colours = false → Reports source ds o text)
  full : ∀ capacity, Ample capacity source →
    Sink.defaultCapacity < (recordsWithin capacity source).length →
      o = ⟨Sink.defaultCapacity, some (.sinkFull Sink.defaultCapacity)⟩

namespace Compiled

variable {source : String} {ds : List Diagnostic} {error? : Option CompileError}

theorem reports (h : CheckOutcome.count ⟨ds.length, error?⟩ ≠ 0) :
    Reports source ds ⟨ds.length, error?⟩ (shown false (report ⟨source, ds, error?⟩)) := by
  have ht := shown_report ⟨source, ds, error?⟩ h
  have hl : Text.lines (shown false (report ⟨source, ds, error?⟩)).toList =
      (reportLines source ds error?).map String.toList ++
        [(summaryLine (CheckOutcome.count ⟨ds.length, error?⟩)).toList] := by
    rw [ht, Text.lines_unlines, List.map_append]
    · rfl
    · exact List.forall_mem_append.mpr ⟨unbroken_reportLines source ds error?,
        List.forall_mem_singleton.mpr (Piece.unbroken_summaryLine _)⟩
  constructor
  · exact ht
  · rw [hl, List.getLast?_concat]
  · rw [hl, List.dropLast_concat, countP_reportLines]
    rfl
  · cases error? <;> rfl

variable (hc : compile source (.empty Sink.defaultCapacity) =
  (error?.elim (.ok ()) .error, (Sink.empty Sink.defaultCapacity).append ds))

include hc

theorem exitCode_eq_zero_iff :
    CheckOutcome.exitCode ⟨ds.length, error?⟩ = 0 ↔
      compile source (.empty Sink.defaultCapacity) = (.ok (), .empty Sink.defaultCapacity) := by
  rw [CheckOutcome.exitCode_eq_zero_iff, hc, Prod.mk.injEq]
  constructor
  · intro h
    rw [List.length_eq_zero_iff.mp h.1, show error? = none from h.2, Sink.append_nil]
    exact ⟨rfl, rfl⟩
  · rintro ⟨he, hd⟩
    rw [Sink.eq_nil_of_append_eq_self hd]
    cases error? with
    | none => exact ⟨rfl, rfl⟩
    | some e => cases he

/-- More records than fit leave a full sink and its error. -/
theorem outcome_of_full {capacity : Nat} (ha : Ample capacity source)
    (hl : Sink.defaultCapacity < (recordsWithin capacity source).length) :
    (⟨ds.length, error?⟩ : CheckOutcome) =
      ⟨Sink.defaultCapacity, some (.sinkFull Sink.defaultCapacity)⟩ := by
  obtain ⟨t, ht⟩ := exists_describes_compilation source
  rw [← (transcript_of_ample ht ha).1] at hl
  rw [compile_of_describes ht, Sink.free_empty, if_neg (Nat.not_le_of_lt hl), Prod.mk.injEq] at hc
  obtain ⟨he, hd⟩ := hc
  rw [← Sink.append_inj hd, List.length_take_of_le (Nat.le_of_lt hl)]
  cases error? with
  | none => cases he
  | some e =>
    cases he
    rfl

end Compiled

/-- A check whose writer takes everything gives a verdict on its source. -/
theorem check_of_unlimited (source : String) (colours : Bool) {w : Writer} (h : w.limit? = none) :
    ∃ o text, check source colours w =
        (.ok o, { w with stored := w.stored ++ Byte.ofText text }) ∧
      Verdict source colours o text := by
  obtain ⟨ds, error?, ho, hc⟩ := Compiled.exists_ofSource source
  have hz := Compiled.exitCode_eq_zero_iff hc
  refine ⟨⟨ds.length, error?⟩, shown colours (Compiled.report ⟨source, ds, error?⟩), ?_, ?_⟩
  · have hw := Writing.writes_check colours source w
    rw [ho, Writer.store_of_fits (Writer.fits_of_unlimited h _)] at hw
    exact hw
  constructor
  · exact (Compiled.shown_report_eq_empty_iff ⟨source, ds, error?⟩ colours).symm
  · intro sink
    rw [hz, compile_eq_self_iff, compile_eq_self_iff]
  · rw [hz, compile_eq_self_iff]
  · refine ⟨ds, rfl, hc, ?_⟩
    rintro hn rfl
    exact Compiled.reports (mt CheckOutcome.count_eq_zero_iff.mp hn)
  · exact fun capacity ha hl => Compiled.outcome_of_full hc ha hl

theorem check_of_unlimited_two :
    (Writer.empty none).limit? = none ∧
      ∃ text, check "void main()\x7bstatic_assert(0);x\x7d" false (.empty none) =
          (.ok ⟨1, some (.unsupported .statement 1)⟩,
            ⟨none, (Writer.empty none).stored ++ Byte.ofText text⟩) ∧
        Verdict "void main()\x7bstatic_assert(0);x\x7d" false
          ⟨1, some (.unsupported .statement 1)⟩ text ∧
        (Text.lines text.toList).getLast? =
          some "error: aborting due to 2 previous errors".toList := by
  have hr : (check "void main()\x7bstatic_assert(0);x\x7d" false (.empty none)).1 =
      .ok ⟨1, some (.unsupported .statement 1)⟩ := by
    decide +kernel
  obtain ⟨o, text, hc, hv⟩ :=
    check_of_unlimited "void main()\x7bstatic_assert(0);x\x7d" false (w := .empty none) rfl
  obtain rfl : o = ⟨1, some (.unsupported .statement 1)⟩ := by
    rw [hc] at hr
    exact Except.ok.inj hr
  obtain ⟨ds, -, -, ht⟩ := hv.compiled
  exact ⟨rfl, text, hc, hv, (ht (by decide) rfl).closed⟩

end StaticAssert
