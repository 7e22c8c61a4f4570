import StaticAssert.Proofs.Expr.Blame

/-!
# The first token that is not part of an expression

A run reads a longest stretch of the tokens that begins an alternation, and what comes of it
is settled by the token behind: by its kind and by whether a number comes before it. A token
that ends expressions accepts what ends in a number and breaks off what does not; all others
are refused for a reason of their own. None is skipped, and none is blamed in place of
another.
-/

set_option autoImplicit false

namespace StaticAssert

open scoped Stream'

/-- What a token makes of those read before it: the result, and what is recorded on the
occasion. -/
structure ExprFlags.Settles (flags : ExprFlags) (w : List Token) (t : Token)
    (late : List Diagnostic) (result : Except CompileError Operand) : Prop where
  accepted : flags.ends t.kind = true → endsInNumber w = true → ∃ x, result = .ok x
  broken : flags.ends t.kind = true → endsInNumber w = false →
    ∃ a b n, result = .error (.malformed a b n)
  refused : ∀ feature, flags.refusal? (endsInNumber w) t.kind = some feature →
    late = [] ∧ result = .error (.unsupported feature t.line)
  lexical : ∀ error, t.kind = .lexError error →
    late = [.lexError error t.line t.span] ∧ result = .error (.ofLexError error t.line)
  classified : flags.ends t.kind = true ∨
    (∃ feature, flags.refusal? (endsInNumber w) t.kind = some feature) ∨
      ∃ error, t.kind = .lexError error

namespace ExprFlags

variable {flags : ExprFlags} {w : List Token} {t : Token} {late : List Diagnostic}
variable {result : Except CompileError Operand}

theorem refusal?_of_ends {kind : Kind} (h : flags.ends kind = true) (after : Bool) :
    flags.refusal? after kind = none := by
  have hr : Role.ofKind flags after kind = .terminator := Role.ofKind_eq_terminator_iff.mpr h
  refine Option.eq_none_iff_forall_ne_some.mpr fun feature hf => ?_
  rw [← Role.ofKind_eq_refused_iff, hr] at hf
  cases hf

theorem settles_of_ends (ends : flags.ends t.kind = true)
    (accepted : endsInNumber w = true → ∃ x, result = .ok x)
    (broken : endsInNumber w = false → ∃ a b n, result = .error (.malformed a b n)) :
    flags.Settles w t late result where
  accepted _ := accepted
  broken _ := broken
  refused feature hf := by
    rw [refusal?_of_ends ends] at hf
    cases hf
  lexical error hk := by
    rw [hk] at ends
    cases ends
  classified := .inl ends

theorem settles_of_refusal {feature : Unsupported}
    (refusal : flags.refusal? (endsInNumber w) t.kind = some feature) :
    flags.Settles w t [] (.error (.unsupported feature t.line)) where
  accepted ends := by
    rw [refusal?_of_ends ends] at refusal
    cases refusal
  broken ends := by
    rw [refusal?_of_ends ends] at refusal
    cases refusal
  refused feature' hf := by
    cases refusal.symm.trans hf
    exact ⟨rfl, rfl⟩
  lexical error hk := by
    rw [hk] at refusal
    cases refusal
  classified := .inr (.inl ⟨feature, refusal⟩)

theorem settles_of_lexError {error : LexError} (kind : t.kind = .lexError error) :
    flags.Settles w t [.lexError error t.line t.span] (.error (.ofLexError error t.line)) where
  accepted ends := by
    rw [kind] at ends
    cases ends
  broken ends := by
    rw [kind] at ends
    cases ends
  refused feature hf := by
    rw [kind] at hf
    cases hf
  lexical error' hk := by
    cases kind.symm.trans hk
    exact ⟨rfl, rfl⟩
  classified := .inr (.inr ⟨error, kind⟩)

end ExprFlags

namespace Context

variable {flags : ExprFlags} {c : Context} {last? : Option Tree} {l : Lookahead}

theorem Halts.exists_settles (h : Halts flags c last? l) (hv : c.Valid last?) (line : Nat) :
    ∃ late result, flags.Settles (c.read last?) l.upcoming.head late result ∧
      Transcript.Describes ⟨late, result, l.fill⟩
        fun s => (c.reading line last? ⟨l, s⟩).run flags line := by
  have hn := c.endsInNumber_read last?
  cases h with
  | ended ends =>
    cases last? with
    | none =>
      obtain ⟨late, a, b, n, -, hd⟩ := exists_blamed hv.awaits ends line
      refine ⟨late, _, ExprFlags.settles_of_ends ends ?_ fun _ => ⟨a, b, n, rfl⟩, hd⟩
      intro h
      cases hn.symm.trans h
    | some t =>
      obtain ⟨e, hu⟩ := unwind_all c t
      obtain ⟨late, -, hd⟩ := exists_describes_end flags line hu ends
      refine ⟨late, _, ExprFlags.settles_of_ends ends (fun _ => ⟨e.operand, rfl⟩) ?_, hd⟩
      intro h
      cases hn.symm.trans h
  | lexical kind =>
    simp only [reading, Reading.run_of_lexical (Role.ofKind_eq_lexical_iff.mpr kind)]
    exact ⟨_, _, ExprFlags.settles_of_lexError kind, Transcript.describes_stopAt l.fill _ _⟩
  | refused refusal =>
    simp only [reading, Reading.run_of_refused (Role.ofKind_eq_refused_iff.mpr refusal)]
    rw [← hn] at refusal
    exact ⟨_, _, ExprFlags.settles_of_refusal refusal, Transcript.describes_const _ l.fill⟩

end Context

namespace Parser

/-- Evaluating reads a longest stretch that begins an alternation, leaves the token behind it,
and comes to what this token settles, if no prefix operator finds too many others waiting. -/
theorem evaluate_settled (flags : ExprFlags) (tokens : Lookahead) :
    (∃ w rest, Longest tokens.upcoming w rest) ∧
      ∀ w rest, Longest tokens.upcoming w rest → Uncrowded w →
        ∃ early late result, flags.Settles w rest.head late result ∧
          ∀ sink : Sink,
            (evaluate ⟨tokens, sink⟩ flags).result =
                (if (early ++ late).length ≤ sink.free then result
                else .error (.sinkFull sink.capacity)) ∧
              (evaluate ⟨tokens, sink⟩ flags).parser.sink =
                sink.append ((early ++ late).take sink.free) ∧
              (early.length ≤ sink.free →
                (evaluate ⟨tokens, sink⟩ flags).parser.upcoming = rest) := by
  refine ⟨exists_longest tokens, fun w rest hw hu => ?_⟩
  obtain ⟨c, last?, l, early, hv, ht, hl, hh⟩ := exists_arrives flags tokens
  rw [ht] at hw
  rcases hh with hh | hh
  · obtain ⟨rfl, rfl⟩ := hw.unique hh.longest
    obtain ⟨late, result, hs, hd⟩ := hh.exists_settles hv tokens.upcoming.head.line
    have hd := hl.describes hd
    refine ⟨early, late, result, hs, fun sink => ⟨hd.result_eq sink, hd.sink_eq sink, ?_⟩⟩
    intro hr
    rw [hl.room sink hr]
    exact hh.upcoming_run _
  · exact absurd hu (hh.not_uncrowded hv hw)

theorem evaluate_settled_parenthesis :
    ∃ w rest,
      Longest (Lookahead.ofScanner (.ofText "9223372036854775807+1+!(2)")).upcoming w rest ∧
        Uncrowded w ∧ ∃ early : List Diagnostic, ∀ sink : Sink, early.length ≤ sink.free →
          (evaluate ⟨.ofScanner (.ofText "9223372036854775807+1+!(2)"), sink⟩ {}).result =
              .error (.unsupported .parenthesized 1) ∧
            (evaluate ⟨.ofScanner (.ofText "9223372036854775807+1+!(2)"), sink⟩
              {}).parser.upcoming = rest := by
  let s : Scanner := .ofText "9223372036854775807+1+!(2)"
  have hk : (s.stream.take 5).map Token.kind =
      [.number ⟨9223372036854775807, false, .g64⟩, .punct .plus, .number ⟨1, false, .g32⟩,
        .punct .plus, .punct .bang] := by
    decide +kernel
  have ht : Trace ((s.stream.take 5).map Token.kind) false := by
    rw [hk]
    exact ((((Trace.singleton (.number _)).snoc (.binary .add)).snoc (.number _)).snoc
      (.binary .add)).snoc (.unary .not)
  have hr : Role.ofKind {} false (s.stream.drop 5).head.kind = .refused .parenthesized := by
    decide +kernel
  have hw : Longest (Lookahead.ofScanner s).upcoming (s.stream.take 5) (s.stream.drop 5) := by
    rw [Lookahead.upcoming_ofScanner]
    exact .of_role {} (Stream'.append_take_drop 5 s.stream).symm ht (by rw [hr]; simp)
      (by rw [hr]; simp)
  have hu : Uncrowded (s.stream.take 5) := uncrowded_of_length_le (by decide +kernel)
  refine ⟨_, _, hw, hu, ?_⟩
  obtain ⟨early, late, result, hs, hsink⟩ := (evaluate_settled {} _).2 _ _ hw hu
  obtain ⟨rfl, rfl⟩ := hs.refused .parenthesized (by decide +kernel)
  rw [List.append_nil] at hsink
  refine ⟨early, fun sink hf => ⟨?_, (hsink sink).2.2 hf⟩⟩
  rw [(hsink sink).1, if_pos hf]
  decide +kernel

end Parser
end StaticAssert
