import StaticAssert.Proofs.Report.Writing
import StaticAssert.Report.Check

/-!
# What a report is made of

A report is made of pieces of text, some of which have a style. With colours on, a styled
piece stands between its terminal sequence and the resetting one; with colours off it is
plain. Every routine that writes has such pieces, which do not depend on the writer, and
checking a source writes the pieces of its report.
-/

set_option autoImplicit false

namespace StaticAssert

structure Piece where
  style? : Option Style
  text : String
  deriving DecidableEq

namespace Piece

def plain (text : String) : Piece := ⟨none, text⟩

def styled (style : Style) (text : String) : Piece := ⟨some style, text⟩

def render (colours : Bool) (p : Piece) : String :=
  match p.style? with
  | some style => if colours then style.sequence ++ p.text ++ Style.reset else p.text
  | none => p.text

def shown (colours : Bool) (ps : List Piece) : String := String.join (ps.map (·.render colours))

def ofError (message : String) : List Piece :=
  [styled .error "error", plain (": " ++ message ++ "\n")]

def summary (count : Nat) : List Piece :=
  match count with
  | 0 => []
  | 1 => ofError "aborting due to previous error"
  | n => ofError ("aborting due to " ++ Nat.repr n ++ " previous errors")

variable {colours : Bool}

@[simp] theorem shown_nil : shown colours [] = "" := rfl

@[simp] theorem shown_cons (p : Piece) (ps : List Piece) :
    shown colours (p :: ps) = p.render colours ++ shown colours ps := by
  rw [shown, List.map_cons, String.join_cons]
  rfl

theorem shown_append (ps qs : List Piece) :
    shown colours (ps ++ qs) = shown colours ps ++ shown colours qs := by
  rw [shown, List.map_append, String.join_append]
  rfl

theorem shown_flatMap {α : Type} (pieces : α → List Piece) (xs : List α) :
    shown colours (xs.flatMap pieces) = String.join (xs.map fun x => shown colours (pieces x)) := by
  induction xs with
  | nil => rfl
  | cons x xs ih =>
    rw [List.flatMap_cons, shown_append, ih, List.map_cons, String.join_cons]

@[simp] theorem render_plain (text : String) : (plain text).render colours = text := rfl

end Piece

namespace Diagnostic

def excerptPieces (d : Diagnostic) (source : String) : List Piece :=
  match d.excerpt? source with
  | some text => [.plain ("   = source: `" ++ text ++ "`\n")]
  | none => []

def pieces (d : Diagnostic) (source : String) : List Piece :=
  [.styled .error "error", .styled .bold ("[" ++ d.issue.code ++ "]"),
    .plain (": " ++ d.heading ++ "\n"),
    .plain "  ", .styled .secondary "-->", .plain (" line " ++ Nat.repr d.line ++ "\n")] ++
  d.excerptPieces source

end Diagnostic

def Compiled.report (c : Compiled) : List Piece :=
  c.records.flatMap (·.pieces c.source) ++
  c.error?.toList.flatMap (fun error => Piece.ofError error.message) ++
  Piece.summary c.outcome.count

theorem Compiled.source_ofSource (source : String) : (ofSource source).source = source := by
  unfold ofSource
  split <;> rfl

namespace Writing

open Piece (shown)

variable (colours : Bool) (source : String)

theorem writes_writeColoured (style : Style) (text : String) :
    Writes (writeColoured colours style text) ((Piece.styled style text).render colours) () := by
  cases colours with
  | false =>
    apply (writes_writeAll [text]).of_eq
    simp [Piece.render, Piece.styled]
  | true =>
    apply (writes_writeAll [style.sequence, text, Style.reset]).of_eq
    simp [Piece.render, Piece.styled, String.append_assoc]

theorem writes_forM {α : Type} {action : α → Writing Unit} {text : α → String}
    (h : ∀ x, Writes (action x) (text x) ()) (x? : Option α) :
    Writes (x?.forM action) (x?.elim "" text) () := by
  cases x? with
  | none => exact .pure ()
  | some x => exact h x

theorem writes_emit (d : Diagnostic) :
    Writes (emit colours source d) (shown colours (d.pieces source)) () := by
  have heading := writes_forM (fun detail : Detail => writes_writeAll [": ", detail.shown])
    d.detail?
  have excerpt := writes_forM (fun text => writes_writeAll ["   = source: `", text, "`\n"])
    (d.excerpt? source)
  have written := (writes_writeColoured colours .error "error").andThen <|
    (writes_writeColoured colours .bold ("[" ++ d.issue.code ++ "]")).andThen <|
    (writes_writeAll [": ", d.issue.title]).andThen <| heading.andThen <|
    (writes_writeAll ["\n"]).andThen <| (writes_writeAll ["  "]).andThen <|
    (writes_writeColoured colours .secondary "-->").andThen <|
    (writes_writeAll [" line ", Nat.repr d.line, "\n"]).andThen excerpt
  apply written.of_eq
  cases h : d.excerpt? source <;>
    simp [h, Diagnostic.pieces, Diagnostic.excerptPieces, Diagnostic.heading, String.append_assoc]

theorem writes_emitAll (ds : List Diagnostic) :
    Writes (emitAll colours source ds) (shown colours (ds.flatMap (·.pieces source))) () := by
  have turn (d : Diagnostic) (_ : Unit) :
      Writes (do emit colours source d; return ForInStep.yield ())
        (shown colours (d.pieces source)) (.yield ()) := by
    apply ((writes_emit colours source d).andThen (.pure _)).of_eq
    exact String.append_empty
  apply ((Writes.forIn turn ds ()).andThen (.pure ())).of_eq
  rw [String.append_empty, Piece.shown_flatMap]

theorem writes_emitError (message : String) :
    Writes (emitError colours message) (shown colours (Piece.ofError message)) () := by
  apply ((writes_writeColoured colours .error "error").andThen
    (writes_writeAll [": ", message, "\n"])).of_eq
  simp [Piece.ofError, String.append_assoc]

theorem writes_emitSummary (count : Nat) :
    Writes (emitSummary colours count) (shown colours (Piece.summary count)) () := by
  match count with
  | 0 => exact .pure ()
  | 1 =>
    exact (writes_writeColoured colours .error "error").andThen
      (writes_writeAll [": aborting due to previous error\n"])
  | n + 2 =>
    apply ((writes_writeColoured colours .error "error").andThen
      (writes_writeAll [": aborting due to ", Nat.repr (n + 2), " previous errors\n"])).of_eq
    apply String.toList_inj.mp
    simp [Piece.summary, Piece.ofError]

theorem writes_check :
    Writes (check source colours) (shown colours (Compiled.ofSource source).report)
      (Compiled.ofSource source).outcome := by
  generalize hc : Compiled.ofSource source = c
  have hs : c.source = source := by
    rw [← hc, Compiled.source_ofSource]
  have error := writes_forM (fun error : CompileError => writes_emitError colours error.message)
    c.error?
  have written := (writes_emitAll colours source c.records).andThen <| error.andThen <|
    (writes_emitSummary colours c.outcome.count).andThen <|
    Writes.andThen (.pure ()) (.pure c.outcome)
  rw [check, hc]
  apply written.of_eq
  rw [Compiled.report, hs, Piece.shown_append, Piece.shown_append, String.append_assoc]
  cases c.error? <;> simp

end Writing
end StaticAssert
