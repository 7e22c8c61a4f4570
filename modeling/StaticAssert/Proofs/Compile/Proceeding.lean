import StaticAssert.Proofs.Compile.Places

/-!
# Parsing steps up to the first lexical error

No step passes a token that is a lexical error. Either it comes to its end, and all that
it has recorded is placed in the text and blames no token; or it stops at such a token,
which is then the next one, and its last record and its answer both name the error. What
is put together from such steps is one itself.
-/

set_option autoImplicit false

namespace StaticAssert

open scoped Stream'

def Issue.isLexical : Issue → Bool
  | .lexError | .invalidByte | .literalTooLarge => true
  | .assertionFailed | .signedOverflow => false

def CompileError.isLexical : CompileError → Bool
  | .lexical _ _ | .unsupported (.literal _) _ => true
  | _ => false

theorem Diagnostic.isLexical_lexError (error : LexError) (line : Nat) (span : Span) :
    (lexError error line span).issue.isLexical = true := by
  cases error <;> rfl

theorem CompileError.isLexical_ofLexError (error : LexError) (line : Nat) :
    (ofLexError error line).isLexical = true := by
  cases error <;> rfl

theorem CompileError.line?_ofLexError (error : LexError) (line : Nat) :
    (ofLexError error line).line? = some line := by
  cases error <;> rfl

theorem Diagnostic.line_lexError (error : LexError) (line : Nat) (span : Span) :
    (lexError error line span).line = line ∧ (lexError error line span).span = span := by
  cases error <;> exact ⟨rfl, rfl⟩

theorem Token.lexError?_eq_none {t : Token} (h : ∀ error, t.kind ≠ .lexError error) :
    t.lexError? = none := by
  unfold lexError?
  split
  next error he => exact absurd he (h error)
  next => rfl

structure Diagnostic.Quiet (text : String) (d : Diagnostic) : Prop where
  issue : d.issue.isLexical = false
  span : d.span.Placed text
  line : HasLine text d.line

def Ahead (text : String) (l : Lookahead) : Prop :=
  ∃ before : List Token, unitTokens text = before ++ₛ l.upcoming ∧
    ∀ t ∈ before, t.lexError? = none

namespace Ahead

variable {text : String} {l : Lookahead}

theorem fill (h : Ahead text l) : Ahead text l.fill := by
  rwa [Ahead, Lookahead.upcoming_fill]

theorem mem (h : Ahead text l) {t : Token} (ht : t ∈ l.upcoming) : t ∈ unitTokens text := by
  obtain ⟨before, hb, -⟩ := h
  rw [hb]
  exact Stream'.mem_append_stream_right before ht

theorem head_mem (h : Ahead text l) : l.upcoming.head ∈ unitTokens text :=
  h.mem (Stream'.mem_of_get_eq (n := 0) rfl)

theorem advance (h : Ahead text l) (hk : ∀ error, l.upcoming.head.kind ≠ .lexError error) :
    Ahead text l.advance.2 := by
  obtain ⟨before, hb, hc⟩ := h
  refine ⟨before ++ [l.upcoming.head], ?_, ?_⟩
  · rw [Stream'.append_append_stream, ← Lookahead.upcoming_of_head rfl, hb]
  · exact List.forall_mem_append.mpr
      ⟨hc, List.forall_mem_singleton.mpr (Token.lexError?_eq_none hk)⟩

end Ahead

inductive Transcript.Orderly (text : String) {α : Type} : Transcript α → Prop where
  | quiet {records : List Diagnostic} {result : Except CompileError α} {tokens : Lookahead}
      (ahead : Ahead text tokens) (quiet : ∀ d ∈ records, d.Quiet text)
      (answer : ∀ e, result = .error e → e.isLexical = false) :
      Orderly text ⟨records, result, tokens⟩
  | stopped {records : List Diagnostic} {tokens : Lookahead} {error : LexError}
      (ahead : Ahead text tokens) (quiet : ∀ d ∈ records, d.Quiet text)
      (head : tokens.upcoming.head.kind = .lexError error) :
      Orderly text ⟨records ++
          [.lexError error tokens.upcoming.head.line tokens.upcoming.head.span],
        .error (.ofLexError error tokens.upcoming.head.line), tokens⟩

def Proceeds (text : String) {α : Type} (f : Sink → Outcome α) (P : α → Lookahead → Prop) : Prop :=
  ∃ t : Transcript α, t.Describes f ∧ t.Orderly text ∧ ∀ a, t.result = .ok a → P a t.tokens

namespace Proceeds

variable {text : String} {α β : Type} {f : Sink → Outcome α} {P P' : α → Lookahead → Prop}
variable {Q : β → Lookahead → Prop} {l : Lookahead}

theorem imp (h : Proceeds text f P) (hp : ∀ a l, P a l → P' a l) : Proceeds text f P' := by
  obtain ⟨t, hd, ho, ht⟩ := h
  exact ⟨t, hd, ho, fun a ha => hp a t.tokens (ht a ha)⟩

theorem const (ha : Ahead text l) (result : Except CompileError α)
    (he : ∀ e, result = .error e → e.isLexical = false)
    (hp : ∀ a, result = .ok a → P a l) : Proceeds text (fun s => ⟨result, ⟨l, s⟩⟩) P :=
  ⟨_, Transcript.describes_const result l, .quiet ha (by simp) he, hp⟩

theorem ok (ha : Ahead text l) {a : α} (hp : P a l) :
    Proceeds text (fun s => ⟨.ok a, ⟨l, s⟩⟩) P := by
  refine const ha (.ok a) ?_ ?_
  · rintro _ ⟨⟩
  · rintro _ ⟨⟩
    exact hp

theorem error (ha : Ahead text l) {e : CompileError} (he : e.isLexical = false) :
    Proceeds text (fun s => ⟨.error e, ⟨l, s⟩⟩) P := by
  refine const ha (.error e) ?_ nofun
  rintro _ ⟨⟩
  exact he

theorem report (ha : Ahead text l) {d : Diagnostic} (hd : d.Quiet text) :
    Proceeds text (fun s => Parser.report ⟨l, s⟩ d) fun _ l' => l' = l :=
  ⟨_, Transcript.describes_report l d,
    .quiet ha (List.forall_mem_singleton.mpr hd) (by rintro _ ⟨⟩), fun _ _ => rfl⟩

theorem stopAt (ha : Ahead text l) {error : LexError}
    (hk : l.upcoming.head.kind = .lexError error) :
    Proceeds text (fun s => .failed (Parser.stopAt ⟨l.fill, s⟩ error l.upcoming.head)) P := by
  have hq : ∀ d ∈ ([] : List Diagnostic), d.Quiet text := by simp
  rw [← Lookahead.upcoming_fill] at hk ⊢
  exact ⟨_, Transcript.describes_stopAt l.fill error _, .stopped ha.fill hq hk, nofun⟩

theorem orderly_append {ds : List Diagnostic} {u : Transcript α}
    (hd : ∀ d ∈ ds, d.Quiet text) (hu : u.Orderly text) :
    Transcript.Orderly text ⟨ds ++ u.records, u.result, u.tokens⟩ := by
  cases hu with
  | quiet ha hq he => exact .quiet ha (List.forall_mem_append.mpr ⟨hd, hq⟩) he
  | stopped ha hq hk =>
    dsimp only
    rw [← List.append_assoc]
    exact .stopped ha (List.forall_mem_append.mpr ⟨hd, hq⟩) hk

theorem andThen {g : α → Parser → Outcome β} (h : Proceeds text f P)
    (hg : ∀ a l, P a l → Ahead text l → Proceeds text (fun s => g a ⟨l, s⟩) Q) :
    Proceeds text (fun s => (f s).andThen g) Q := by
  obtain ⟨t, hd, ho, ht⟩ := h
  cases ho with
  | @quiet records result tokens ha hq he =>
    cases result with
    | ok a =>
      obtain ⟨u, hu, hou, hq'⟩ := hg a tokens (ht a rfl) ha
      exact ⟨_, Transcript.describes_andThen_ok hd rfl hu, orderly_append hq hou, hq'⟩
    | error e =>
      refine ⟨_, Transcript.describes_andThen_error hd rfl, .quiet ha hq ?_, nofun⟩
      rintro _ ⟨⟩
      exact he e rfl
  | stopped ha hq hk =>
    exact ⟨_, Transcript.describes_andThen_error hd rfl, .stopped ha hq hk, nofun⟩

end Proceeds

section Reading

variable {text : String} {l : Lookahead}

def Pending.Placed (text : String) (p : Pending) : Prop :=
  p.operator.operation.isFoldable = true → p.span.Placed text ∧ HasLine text p.line

structure Stacks.Placed (text : String) (s : Stacks) : Prop where
  operands : ∀ x ∈ s.operands, x.span.Placed text
  operators : ∀ p ∈ s.operators, p.Placed text

namespace Pending

theorem placed_fold? {top : Pending} {xs rest : List Operand} {folded : Folded}
    (hf : top.fold? xs = some (folded, rest)) (ht : top.Placed text)
    (hx : ∀ x ∈ xs, x.span.Placed text) :
    (∀ x ∈ folded.operand :: rest, x.span.Placed text) ∧ HasLine text top.line := by
  unfold fold? at hf
  split at hf
  next op x rest ho =>
    cases hf
    obtain ⟨hs, hl⟩ := ht (by rw [ho]; rfl)
    obtain ⟨hx, hr⟩ := List.forall_mem_cons.mp hx
    exact ⟨List.forall_mem_cons.mpr ⟨hs.merge hx, hr⟩, hl⟩
  next op y x rest ho =>
    cases hf
    obtain ⟨-, hl⟩ := ht (by rw [ho]; rfl)
    obtain ⟨hy, hx⟩ := List.forall_mem_cons.mp hx
    obtain ⟨hx, hr⟩ := List.forall_mem_cons.mp hx
    exact ⟨List.forall_mem_cons.mpr ⟨hx.merge hy, hr⟩, hl⟩
  next => cases hf

theorem proceeds_recording (ha : Ahead text l) {top : Pending} {folded : Folded}
    (hs : folded.operand.span.Placed text) (hl : HasLine text top.line) :
    Proceeds text (fun s => top.recording folded ⟨l, s⟩) fun _ l' => l' = l := by
  unfold recording
  by_cases hw : folded.wrapped = true
  · simp only [hw, if_true]
    exact .report ha ⟨rfl, hs, hl⟩
  · simp only [hw]
    exact .ok ha rfl

end Pending

theorem Stacks.proceeds_reduction (ha : Ahead text l) (incoming : Operator) {stack : Stacks}
    (hs : stack.Placed text) :
    Proceeds text (fun s => stack.reduction incoming ⟨l, s⟩)
      fun stack' l' => stack'.Placed text ∧ l' = l := by
  obtain ⟨xs, ps⟩ := stack
  induction ps generalizing xs with
  | nil =>
    simp only [reduction_nil]
    exact .ok ha ⟨hs, rfl⟩
  | cons top below ih =>
    cases hy : top.operator.yieldsTo incoming with
    | false =>
      simp only [reduction_of_not_yields hy]
      exact .ok ha ⟨hs, rfl⟩
    | true =>
      cases hf : top.fold? xs with
      | none =>
        simp only [reduction_of_unfoldable hy hf]
        exact .error ha rfl
      | some folding =>
        obtain ⟨folded, rest⟩ := folding
        obtain ⟨ht, hb⟩ := List.forall_mem_cons.mp hs.operators
        obtain ⟨hx, hl⟩ := Pending.placed_fold? hf ht hs.operands
        simp only [reduction_of_yields hy hf]
        refine (Pending.proceeds_recording ha (hx _ List.mem_cons_self) hl).andThen ?_
        rintro _ _ rfl -
        exact ih _ ⟨hx, hb⟩

theorem Role.isLexical_of_refused {flags : ExprFlags} {after : Bool} {kind : Kind}
    {feature : Unsupported} (h : ofKind flags after kind = .refused feature) (line : Nat) :
    (CompileError.unsupported feature line).isLexical = false := by
  cases feature with
  | literal what =>
    rw [ofKind_eq_refused_iff] at h
    obtain ⟨constant, commaContinues⟩ := flags
    cases kind with
    | punct p => cases p <;> cases after <;> cases commaContinues <;> cases h
    | number | name => cases after <;> cases h
    | eof | lexError | keyword => cases h
  | _ => rfl

theorem Reading.isLexical_of_verdict {flags : ExprFlags} {line : Nat} {t : Token} {stack : Stacks}
    {e : CompileError} (h : verdict flags line t stack = .error e) : e.isLexical = false := by
  unfold verdict at h
  split at h
  · cases h
    rfl
  split at h
  · cases h
    rfl
  · cases h

theorem Reading.proceeds_run (ho : opens text = true) (flags : ExprFlags) (line : Nat)
    (ha : Ahead text l) {stack : Stacks} (hs : stack.Placed text) (after : Bool) :
    Proceeds text (fun s => run flags line ⟨⟨l, s⟩, stack, after⟩) fun _ _ => True := by
  induction hn : l.remaining using Nat.strong_induction_on generalizing l stack after with
  | _ n ih =>
  subst hn
  cases hr : Role.ofKind flags after l.upcoming.head.kind with
  | operand literal =>
    have hk := (Role.ofKind_eq_operand hr).2
    have hl (e : LexError) : l.upcoming.head.kind ≠ .lexError e := by rw [hk]; nofun
    have hne : l.upcoming.head.kind ≠ .eof := by rw [hk]; nofun
    have hp := placed_of_not_lexical ho ha.head_mem hne hl
    simp only [run_of_operand hr]
    split
    · exact .error ha.fill rfl
    · refine ih _ (Lookahead.remaining_advance_lt_of_kind hne) (ha.advance hl) ?_ _ rfl
      exact ⟨List.forall_mem_cons.mpr ⟨hp, hs.operands⟩, hs.operators⟩
  | operator operator =>
    have hl (e : LexError) : l.upcoming.head.kind ≠ .lexError e := by
      rcases Role.ofKind_eq_operator hr with ⟨-, op, -, hk⟩ | ⟨-, op, -, hk⟩ <;> rw [hk] <;> nofun
    have hne : l.upcoming.head.kind ≠ .eof := by
      rcases Role.ofKind_eq_operator hr with ⟨-, op, -, hk⟩ | ⟨-, op, -, hk⟩ <;> rw [hk] <;> nofun
    have hp := placed_of_not_lexical ho ha.head_mem hne hl
    have hline := hasLine_of_mem_unitTokens ho ha.head_mem
    simp only [run_of_operator hr]
    refine (Stacks.proceeds_reduction (ha.advance hl) operator hs).andThen ?_
    rintro stack' _ ⟨hs', rfl⟩ ha'
    split
    · exact .error ha' rfl
    · refine ih _ (Lookahead.remaining_advance_lt_of_kind hne) ha' ?_ _ rfl
      exact ⟨hs'.operands, List.forall_mem_cons.mpr ⟨fun _ => ⟨hp, hline⟩, hs'.operators⟩⟩
  | terminator =>
    simp only [run_of_terminator hr]
    refine (Stacks.proceeds_reduction ha.fill .collapse hs).andThen ?_
    rintro stack' _ ⟨-, rfl⟩ ha'
    exact .const ha' _ (fun e he => isLexical_of_verdict he) fun _ _ => trivial
  | lexical error =>
    simp only [run_of_lexical hr]
    exact .stopAt ha (Role.ofKind_eq_lexical_iff.mp hr)
  | refused feature =>
    simp only [run_of_refused hr]
    exact .error ha.fill (Role.isLexical_of_refused hr _)

end Reading
end StaticAssert
