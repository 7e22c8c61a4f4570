import Mathlib.Data.List.Forall2
import StaticAssert.Proofs.Compile.Transcript
import StaticAssert.Proofs.Token.Stream

/-!
# Runs that differ in places only

Tokens of the same kinds can stand at different places. Two parsing functions that read such
tokens are twins if they record the same problems in the same order, give answers that agree
but for lines and spans, and leave tokens of the same kinds. A sequence of twins is twins, so
that it is enough to look at single steps.
-/

set_option autoImplicit false

namespace StaticAssert

namespace Lookahead

def kinds (l : Lookahead) : Stream' Kind := l.upcoming.map Token.kind

@[simp] theorem kinds_fill (l : Lookahead) : l.fill.kinds = l.kinds := by
  rw [kinds, upcoming_fill, kinds]

@[simp] theorem kinds_advance (l : Lookahead) : l.advance.2.kinds = l.kinds.tail := by
  rw [kinds, upcoming_advance]
  rfl

theorem head_kinds (l : Lookahead) : l.kinds.head = l.upcoming.head.kind := rfl

theorem kind_head_eq {l l' : Lookahead} (h : l.kinds = l'.kinds) :
    l.upcoming.head.kind = l'.upcoming.head.kind := by
  rw [← head_kinds, h, head_kinds]

theorem kinds_fill_eq {l l' : Lookahead} (h : l.kinds = l'.kinds) :
    l.fill.kinds = l'.fill.kinds := by
  rw [kinds_fill, kinds_fill, h]

theorem kinds_advance_eq {l l' : Lookahead} (h : l.kinds = l'.kinds) :
    l.advance.2.kinds = l'.advance.2.kinds := by
  rw [kinds_advance, kinds_advance, h]

end Lookahead

structure Diagnostic.Alike (d d' : Diagnostic) : Prop where
  issue : d.issue = d'.issue
  misc : d.misc = d'.misc

theorem Diagnostic.alike_lexError (error : LexError) (line line' : Nat) (span span' : Span) :
    (Diagnostic.lexError error line span).Alike (.lexError error line' span') := by
  cases error <;> exact ⟨rfl, rfl⟩

def CompileError.withoutLine : CompileError → CompileError
  | .missingPrelude => .missingPrelude
  | .lexical error _ => .lexical error 0
  | .unsupported feature _ => .unsupported feature 0
  | .unexpected expected found _ => .unexpected expected found 0
  | .malformed operands operators _ => .malformed operands operators 0
  | .sinkFull capacity => .sinkFull capacity

theorem CompileError.withoutLine_ofLexError (error : LexError) (line line' : Nat) :
    (ofLexError error line).withoutLine = (ofLexError error line').withoutLine := by
  cases error <;> rfl

inductive AnswersAlike {α : Type} (R : α → α → Prop) :
    Except CompileError α → Except CompileError α → Prop where
  -- Two answers that agree but for lines, where values that agree are told by a relation.
  | ok {a a' : α} (h : R a a') : AnswersAlike R (.ok a) (.ok a')
  | error {e e' : CompileError} (h : e.withoutLine = e'.withoutLine) :
      AnswersAlike R (.error e) (.error e')

theorem AnswersAlike.mapError_eq {α : Type} {r r' : Except CompileError α}
    (h : AnswersAlike Eq r r') :
    r.mapError CompileError.withoutLine = r'.mapError CompileError.withoutLine := by
  cases h with
  | ok h => rw [h]
  | error h => simp only [Except.mapError, h]

structure Twins {α : Type} (R : α → α → Prop) (f f' : Sink → Outcome α)
    (t t' : Transcript α) : Prop where
  first : t.Describes f
  second : t'.Describes f'
  records : List.Forall₂ Diagnostic.Alike t.records t'.records
  result : AnswersAlike R t.result t'.result
  kinds : t.tokens.kinds = t'.tokens.kinds

namespace Twins

variable {α β : Type} {R : α → α → Prop} {Q : β → β → Prop} {f f' : Sink → Outcome α}
variable {t t' : Transcript α} {l l' : Lookahead}

theorem const {r r' : Except CompileError α} (hr : AnswersAlike R r r')
    (hl : l.kinds = l'.kinds) :
    Twins R (fun s => ⟨r, ⟨l, s⟩⟩) (fun s => ⟨r', ⟨l', s⟩⟩) ⟨[], r, l⟩ ⟨[], r', l'⟩ where
  first := Transcript.describes_const r l
  second := Transcript.describes_const r' l'
  records := .nil
  result := hr
  kinds := hl

theorem report {d d' : Diagnostic} (hd : d.Alike d') (hl : l.kinds = l'.kinds) :
    Twins Eq (fun s => Parser.report ⟨l, s⟩ d) (fun s => Parser.report ⟨l', s⟩ d')
      ⟨[d], .ok (), l⟩ ⟨[d'], .ok (), l'⟩ where
  first := Transcript.describes_report l d
  second := Transcript.describes_report l' d'
  records := .cons hd .nil
  result := .ok rfl
  kinds := hl

theorem stopAt (error : LexError) (token token' : Token) (hl : l.kinds = l'.kinds) :
    ∃ t t', Twins R (fun s => .failed (Parser.stopAt ⟨l, s⟩ error token))
      (fun s => .failed (Parser.stopAt ⟨l', s⟩ error token')) t t' := by
  refine ⟨_, _, Transcript.describes_stopAt l error token,
    Transcript.describes_stopAt l' error token', ?_, ?_, hl⟩
  · exact .cons (Diagnostic.alike_lexError error _ _ _ _) .nil
  · exact .error (CompileError.withoutLine_ofLexError error _ _)

variable {g g' : α → Parser → Outcome β}

theorem andThen_ok (h : Twins R f f' t t') {a a' : α} (ha : t.result = .ok a)
    (ha' : t'.result = .ok a') {u v : Transcript β}
    (hu : Twins Q (fun s => g a ⟨t.tokens, s⟩) (fun s => g' a' ⟨t'.tokens, s⟩) u v) :
    Twins Q (fun s => (f s).andThen g) (fun s => (f' s).andThen g')
      ⟨t.records ++ u.records, u.result, u.tokens⟩
      ⟨t'.records ++ v.records, v.result, v.tokens⟩ where
  first := Transcript.describes_andThen_ok h.first ha hu.first
  second := Transcript.describes_andThen_ok h.second ha' hu.second
  records := List.rel_append h.records hu.records
  result := hu.result
  kinds := hu.kinds

theorem andThen (h : Twins R f f' t t')
    (hg : ∀ a a', R a a' → ∃ u v, Twins Q (fun s => g a ⟨t.tokens, s⟩)
      (fun s => g' a' ⟨t'.tokens, s⟩) u v) :
    ∃ u v, Twins Q (fun s => (f s).andThen g) (fun s => (f' s).andThen g') u v := by
  generalize hr : t.result = r
  generalize hr' : t'.result = r'
  have hw := h.result
  rw [hr, hr'] at hw
  cases hw with
  | ok ha =>
    obtain ⟨u, v, hu⟩ := hg _ _ ha
    exact ⟨_, _, h.andThen_ok hr hr' hu⟩
  | error he =>
    have hd := Transcript.describes_andThen_error (g := g) h.first hr
    have hd' := Transcript.describes_andThen_error (g := g') h.second hr'
    exact ⟨_, _, hd, hd', h.records, .error he, h.kinds⟩

end Twins
end StaticAssert
