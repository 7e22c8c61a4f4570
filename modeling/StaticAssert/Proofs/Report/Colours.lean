import StaticAssert.Proofs.Report.Rendering
import StaticAssert.Proofs.Report.Sequences
import StaticAssert.Proofs.Text.Boundaries

/-!
# Colours are decoration

No text of a report begins a terminal sequence, unless the source has an escape to quote.
So the sequences of a coloured report are those of its styles: deleting them leaves the
plain report, and each style is reset before the next one and before the line ends.
-/

set_option autoImplicit false

namespace StaticAssert

open Byte (escape newline ofText)
open Style (Closed strip)
open Text (Visible)

namespace Text

variable {text : String}

def Bare (text : String) : Prop := escape ∉ ofText text

instance : DecidablePred Bare := fun text =>
  inferInstanceAs (Decidable (escape ∉ ofText text))

theorem bare_iff : Bare text ↔ '\x1b' ∉ text.toList :=
  not_congr (Byte.mem_ofText_iff (c := '\x1b') (by decide))

theorem Visible.bare (h : Visible text) : Bare text := bare_iff.mpr (h.not_mem (by decide))

theorem bare_append {s t : String} : Bare (s ++ t) ↔ Bare s ∧ Bare t := by
  rw [Bare, Byte.ofText_append, List.mem_append, not_or]
  rfl

theorem bare_oneLine {before cut after : String} (h : Bare (before ++ cut ++ after)) :
    Bare (String.ofList (oneLine cut.toList)) := by
  have hc := bare_iff.mp (bare_append.mp (bare_append.mp h).1).2
  rw [bare_iff, String.toList_ofList]
  intro hm
  rcases mem_or_eq_space_of_mem_oneLine hm with hm | he
  · exact hc hm
  · cases he

end Text

open Text (Bare)

namespace Piece

variable {p : Piece} {ps : List Piece} {bytes : List UInt8}

structure Clean (p : Piece) : Prop where
  bare : Bare p.text
  unbroken : ∀ style ∈ p.style?, newline ∉ ofText p.text

theorem clean_plain {text : String} (h : Bare text) : (plain text).Clean where
  bare := h
  unbroken := nofun

theorem clean_styled {style : Style} {text : String} (h : Visible text) :
    (styled style text).Clean where
  bare := h.bare
  unbroken _ _ := Text.newline_not_mem_ofText h.unbroken

theorem clean_line {text : String} (h : Bare text) : (plain (text ++ "\n")).Clean :=
  clean_plain (Text.bare_append.mpr ⟨h, by decide +kernel⟩)

theorem ofText_render_true {style : Style} (hs : p.style? = some style) :
    ofText (p.render true) = style.opening ++ (ofText p.text ++ Style.closing) := by
  simp only [render, hs, if_true, Byte.ofText_append, List.append_assoc]
  rfl

theorem strip_render (h : p.Clean) (bytes : List UInt8) :
    strip (ofText (p.render true) ++ bytes) = ofText (p.render false) ++ strip bytes := by
  cases hs : p.style? with
  | none =>
    simp only [render, hs]
    exact Style.strip_append_of_not_mem h.bare bytes
  | some style =>
    rw [ofText_render_true hs, List.append_assoc, List.append_assoc,
      Style.strip_append style.opening_mem, Style.strip_append_of_not_mem h.bare,
      Style.strip_append Style.closing_mem]
    simp only [render, hs]
    rfl

theorem closed_render (h : p.Clean) (hc : Closed bytes) :
    Closed (ofText (p.render true) ++ bytes) := by
  cases hs : p.style? with
  | none =>
    simp only [render, hs]
    exact Style.closed_append_of_not_mem h.bare hc
  | some style =>
    rw [ofText_render_true hs, List.append_assoc, List.append_assoc]
    exact Style.closed_opening style h.bare (h.unbroken style hs) hc

/-- Pieces are coloured one by one, and so are their sequences deleted. -/
theorem strip_shown (h : ∀ p ∈ ps, p.Clean) :
    strip (ofText (shown true ps)) = ofText (shown false ps) := by
  induction ps with
  | nil => rfl
  | cons p ps ih =>
    obtain ⟨hp, hs⟩ := List.forall_mem_cons.mp h
    rw [shown_cons, shown_cons, Byte.ofText_append, Byte.ofText_append, strip_render hp, ih hs]

theorem closed_shown (h : ∀ p ∈ ps, p.Clean) : Closed (ofText (shown true ps)) := by
  induction ps with
  | nil => exact Style.closed_nil
  | cons p ps ih =>
    obtain ⟨hp, hs⟩ := List.forall_mem_cons.mp h
    rw [shown_cons, Byte.ofText_append]
    exact closed_render hp (ih hs)

theorem clean_ofError {message : String} (h : Visible message) :
    ∀ p ∈ ofError message, p.Clean := by
  have hm : Visible (": " ++ message) := Text.visible_append.mpr ⟨by decide, h⟩
  exact List.forall_mem_cons.mpr
    ⟨clean_styled (by decide), List.forall_mem_singleton.mpr (clean_line hm.bare)⟩

theorem clean_summary (n : Nat) : ∀ p ∈ summary n, p.Clean := by
  match n with
  | 0 => nofun
  | 1 => exact clean_ofError (by decide +kernel)
  | n + 2 => exact clean_ofError (visible_count (n + 2))

end Piece

section Report

variable {source : String}

theorem Diagnostic.clean_excerptPieces (h : Bare source) (d : Diagnostic) :
    ∀ p ∈ d.excerptPieces source, p.Clean := by
  cases he : d.excerpt? source with
  | none =>
    rw [excerptPieces, he]
    exact List.forall_mem_nil _
  | some text =>
    rw [excerptPieces, he]
    refine List.forall_mem_singleton.mpr (Piece.clean_plain ?_)
    obtain ⟨cut, hc, rfl⟩ := exists_cut_of_excerpt? he
    obtain ⟨before, after, rfl, -, -⟩ := Text.exists_of_slice? hc
    have hb : Bare "   = source: `" := by decide +kernel
    have ha : Bare "`\n" := by decide +kernel
    exact Text.bare_append.mpr ⟨Text.bare_append.mpr ⟨hb, Text.bare_oneLine h⟩, ha⟩

theorem Diagnostic.clean_pieces (h : Bare source) (d : Diagnostic) :
    ∀ p ∈ d.pieces source, p.Clean := by
  refine List.forall_mem_append.mpr ⟨?_, d.clean_excerptPieces h⟩
  have hh : Visible (": " ++ d.heading) := Text.visible_append.mpr ⟨by decide, d.visible_heading⟩
  have hl : Visible (" line " ++ Nat.repr d.line) :=
    Text.visible_append.mpr ⟨by decide, Text.visible_repr d.line⟩
  simp only [List.forall_mem_cons]
  exact ⟨Piece.clean_styled (by decide), Piece.clean_styled d.issue.visible_code,
    Piece.clean_line hh.bare, Piece.clean_plain (by decide +kernel),
    Piece.clean_styled (by decide), Piece.clean_line hl.bare, nofun⟩

theorem Compiled.clean_report (c : Compiled) (h : Bare c.source) : ∀ p ∈ c.report, p.Clean := by
  refine List.forall_mem_append.mpr ⟨List.forall_mem_append.mpr ⟨?_, ?_⟩, Piece.clean_summary _⟩
  · intro p hp
    obtain ⟨d, -, hd⟩ := List.mem_flatMap.mp hp
    exact d.clean_pieces h p hd
  · intro p hp
    obtain ⟨error, -, he⟩ := List.mem_flatMap.mp hp
    exact Piece.clean_ofError error.visible_message p he

end Report

/-- Colours change what a check looks like and nothing else. If the source has no escape, deleting
the terminal sequences leaves what is written without colours, and every style is reset before the
next one and before the line ends. -/
theorem colours_are_decoration (source : String) (h : escape ∉ ofText source)
    (stored : Array UInt8) :
    ∃ (outcome : CheckOutcome) (plain coloured : List UInt8),
      check source false ⟨none, stored⟩ = (.ok outcome, ⟨none, stored ++ plain⟩) ∧
      check source true ⟨none, stored⟩ = (.ok outcome, ⟨none, stored ++ coloured⟩) ∧
      strip coloured = plain ∧ Closed coloured := by
  have hc := (Compiled.ofSource source).clean_report (by rwa [Compiled.source_ofSource])
  exact ⟨_, _, _, (Writing.writes_check false source).unlimited stored,
    (Writing.writes_check true source).unlimited stored, Piece.strip_shown hc,
    Piece.closed_shown hc⟩

theorem colours_are_decoration_failure :
    escape ∉ ofText "void main()\x7bstatic_assert(0);\x7d" ∧
    ∃ coloured : List UInt8,
      check "void main()\x7bstatic_assert(0);\x7d" true (.empty none) =
        (.ok ⟨1, none⟩, ⟨none, coloured.toArray⟩) ∧
      strip coloured = ofText ("error[E2001]: static assertion failed\n  --> line 1\n" ++
        "   = source: `0`\nerror: aborting due to previous error\n") ∧
      Closed coloured := by
  have h : escape ∉ ofText "void main()\x7bstatic_assert(0);\x7d" := by decide +kernel
  obtain ⟨outcome, plain, coloured, hp, hc, rfl, hd⟩ :=
    colours_are_decoration "void main()\x7bstatic_assert(0);\x7d" h #[]
  have hr : check "void main()\x7bstatic_assert(0);\x7d" false ⟨none, #[]⟩ =
      (.ok ⟨1, none⟩, ⟨none, (ofText ("error[E2001]: static assertion failed\n  --> line 1\n" ++
        "   = source: `0`\nerror: aborting due to previous error\n")).toArray⟩) := by
    decide +kernel
  rw [hp] at hr
  obtain rfl : outcome = ⟨1, none⟩ := Except.ok.inj (congrArg Prod.fst hr)
  have hw : #[] ++ strip coloured = _ := congrArg (fun result => result.2.stored) hr
  refine ⟨h, coloured, ?_, ?_, hd⟩
  · rw [Writer.empty, hc]
    simp
  · simpa using congrArg Array.toList hw

end StaticAssert
