import StaticAssert.Proofs.Compile.Capacity
import StaticAssert.Proofs.Compile.Proceeding
import StaticAssert.Proofs.Expr.Nodes

/-!
# Where a lexical error stops a compilation

Every part of a unit is read by steps that pass no lexical error, so the whole is. If
there is room for its records, the first such error in the way is recorded last and named
in the answer; if there is none, it is neither recorded nor named.
-/

set_option autoImplicit false

namespace StaticAssert

open scoped Stream'

namespace Parser

variable {text : String} {l : Lookahead}

theorem proceeds_expect (ha : Ahead text l) (p : Punct) :
    Proceeds text (fun s => expect ⟨l, s⟩ (.punct p)) fun token l' =>
      token.kind = .punct p ∧ l.upcoming = [token] ++ₛ l'.upcoming := by
  by_cases hk : l.upcoming.head.kind = .punct p
  · have hl (e : LexError) : l.upcoming.head.kind ≠ .lexError e := by rw [hk]; nofun
    simp only [expect_of_eq hk]
    exact .ok (ha.advance hl) ⟨hk, Lookahead.upcoming_of_head rfl⟩
  by_cases hl : ∃ error, l.upcoming.head.kind = .lexError error
  · obtain ⟨error, hl⟩ := hl
    simp only [expect_of_lexical hk hl]
    exact .stopAt ha hl
  · simp only [expect_of_other hk (not_exists.mp hl)]
    exact .error ha.fill rfl

theorem proceeds_evaluate (ho : opens text = true) (ha : Ahead text l) (flags : ExprFlags) :
    Proceeds text (fun s => evaluate ⟨l, s⟩ flags) fun _ l' =>
      ∃ e : Tree, l.upcoming = e.tokens ++ₛ l'.upcoming := by
  have hs : (Stacks.start l.upcoming.head.line).Placed text := by
    refine ⟨by simp [Stacks.start], List.forall_mem_singleton.mpr ?_⟩
    rintro ⟨⟩
  obtain ⟨t, hd, hor, -⟩ :=
    Reading.proceeds_run ho flags l.upcoming.head.line ha.fill hs false
  simp only [← evaluate_eq] at hd
  refine ⟨t, hd, hor, ?_⟩
  intro x hx
  have hr := hd.room (.empty t.records.length) (Nat.le_refl _)
  have hx' : (evaluate ⟨l, .empty t.records.length⟩ flags).result = .ok x := by rw [hr, hx]
  obtain ⟨e, -, he⟩ := offers_of_evaluate hx'
  rw [hr] at he
  exact ⟨e, he.tokens⟩

theorem proceeds_judge (ha : Ahead text l) (value : Operand) {line : Nat} {span : Span}
    (hl : HasLine text line) (hs : span.Placed text) :
    Proceeds text (fun s => judge ⟨l, s⟩ value line span) fun _ _ => True := by
  unfold judge
  split
  · exact .error ha rfl
  split
  · exact .ok ha trivial
  · exact (Proceeds.report ha ⟨rfl, hs, hl⟩).imp fun _ _ _ => trivial

theorem placed_between (ho : opens text = true) {before : List Token} {opening closing : Token}
    {e : Tree} {rest : Stream' Token} (hok : opening.kind = .punct .leftParen)
    (hck : closing.kind = .punct .rightParen)
    (h : unitTokens text = before ++ₛ ([opening] ++ₛ (e.tokens ++ₛ ([closing] ++ₛ rest)))) :
    Span.Placed text ⟨opening.span.stop, closing.span.start⟩ := by
  have paren {t : Token} {p : Punct} (hk : t.kind = .punct p) (ht : t ∈ unitTokens text) :
      t.span.Placed text := by
    refine placed_of_not_lexical ho ht ?_ ?_ <;> rw [hk] <;> nofun
  have hi : Token.InOrder (opening :: (e.tokens ++ [closing])) := by
    have hu : unitTokens text =
        before ++ₛ ((opening :: (e.tokens ++ [closing])) ++ₛ rest) := by
      rw [h]
      simp only [Stream'.append_append_stream, Stream'.cons_append_stream,
        Stream'.nil_append_stream]
    refine (hu ▸ ordered_unitTokens text).drop.inOrder ?_
    intro t ht
    rcases List.mem_cons.mp ht with rfl | ht
    · rw [hok]
      nofun
    rcases List.mem_append.mp ht with ht | ht
    · exact Tree.kind_ne_eof ht
    · rw [List.mem_singleton.mp ht, hck]
      nofun
  have hop := paren hok (by
    rw [h]
    exact Stream'.mem_append_stream_right _ (Stream'.mem_cons _ _))
  have hcp := paren hck (by
    rw [h]
    refine Stream'.mem_append_stream_right _ (Stream'.mem_append_stream_right _ ?_)
    exact Stream'.mem_append_stream_right _ (Stream'.mem_cons _ _))
  -- Some token of the expression lies between them, and it takes bytes.
  obtain ⟨t, ht, -⟩ := e.exists_start
  obtain ⟨hb, hr⟩ := List.pairwise_cons.mp hi.behind
  have hot : opening.span.stop ≤ t.span.start := hb t (List.mem_append_left _ ht)
  have htn := hi.nonempty t (List.mem_cons_of_mem _ (List.mem_append_left _ ht))
  have htc : t.span.stop ≤ closing.span.start :=
    (List.pairwise_append.mp hr).2.2 t ht _ List.mem_cons_self
  refine ⟨?_, ?_, hop.stops, hcp.starts⟩
  · exact Nat.le_trans hop.behind (Nat.le_of_lt hop.nonempty)
  · exact Nat.lt_of_le_of_lt hot (Nat.lt_of_lt_of_le htn htc)

theorem proceeds_assertion (ho : opens text = true) (ha : Ahead text l)
    (hk : l.upcoming.head.kind = .keyword .staticAssert) :
    Proceeds text (fun s => assertion ⟨l, s⟩) fun _ _ => True := by
  have hl (e : LexError) : l.upcoming.head.kind ≠ .lexError e := by rw [hk]; nofun
  have hline := hasLine_of_mem_unitTokens ho ha.head_mem
  obtain ⟨before, hb, -⟩ := ha.advance hl
  simp only [assertion_eq]
  refine (proceeds_expect (ha.advance hl) .leftParen).andThen ?_
  rintro opening l₁ ⟨hok, h₁⟩ ha₁
  refine (proceeds_evaluate ho ha₁ _).andThen ?_
  rintro value l₂ ⟨e, h₂⟩ ha₂
  refine (proceeds_expect ha₂ .rightParen).andThen ?_
  rintro closing l₃ ⟨hck, h₃⟩ ha₃
  refine (proceeds_expect ha₃ .semicolon).andThen ?_
  rintro _ l₄ - ha₄
  rw [h₁, h₂, h₃] at hb
  exact proceeds_judge ha₄ value hline (placed_between ho hok hck hb)

theorem proceeds_body (ho : opens text = true) (ha : Ahead text l) :
    Proceeds text (fun s => body ⟨l, s⟩) fun _ _ => True := by
  induction l using body_induction with
  | @statement l hk ih =>
    obtain ⟨t, ht, hot, -⟩ := proceeds_assertion ho ha hk
    have hp : Proceeds text (fun s => assertion ⟨l, s⟩) fun _ l' =>
        Ahead text l' → Proceeds text (fun s => body ⟨l', s⟩) fun _ _ => True :=
      ⟨t, ht, hot, fun _ _ => ih t ht⟩
    simp only [body_of_assertion hk]
    exact hp.andThen fun _ _ h ha' => h ha'
  | ended he =>
    simp only [body_of_end he]
    exact .ok ha.fill trivial
  | @other l he hk =>
    by_cases hl : ∃ error, l.upcoming.head.kind = .lexError error
    · obtain ⟨error, hl⟩ := hl
      simp only [body_of_lexical hl]
      exact .stopAt ha hl
    · simp only [body_of_other he hk (not_exists.mp hl)]
      exact .error ha.fill rfl

end Parser

theorem ahead_bodyTokens (text : String) : Ahead text (bodyTokens text) :=
  ⟨[], (upcoming_bodyTokens text).symm, by simp⟩

theorem proceeds_compilation (text : String) :
    Proceeds text (compilation text) fun _ _ => True := by
  unfold compilation
  split
  next ho => exact Parser.proceeds_body ho (ahead_bodyTokens text)
  next => exact .error (ahead_bodyTokens text) rfl

/-- The token at which a compilation stops is the first lexical error of the unit, and both the
last record and the answer name it. -/
structure LexicalStop (text : String) (sink : Sink) (ds : List Diagnostic) (t : Token)
    (error : LexError) : Prop where
  last : ∃ clean, ds = clean ++ [.lexError error t.line t.span] ∧
    ∀ d ∈ clean, d.issue.isLexical = false
  first : ∃ before, unitTokens text = before ++ₛ (compilation text sink).parser.upcoming ∧
    ∀ t' ∈ before, t'.lexError? = none
  next : (compilation text sink).parser.upcoming.head = t
  kind : t.kind = .lexError error
  answer : (compile text sink).1 = .error (.ofLexError error t.line)

theorem lexical_stop_of_compile (text : String) (sink : Sink) :
    ∃ ds : List Diagnostic, (compile text sink).2 = sink.append ds ∧
      ((∀ d ∈ ds, d.issue.isLexical = false) ∧
          (∀ e, (compile text sink).1 = .error e → e.isLexical = false) ∨
        ∃ t error, LexicalStop text sink ds t error) := by
  obtain ⟨t, hd, ho, -⟩ := proceeds_compilation text
  have hc := compile_of_describes hd sink
  refine ⟨t.records.take sink.free, by rw [hc], ?_⟩
  cases ho with
  | @quiet records result tokens ha hq he =>
    refine .inl ⟨fun d hd => (hq d (List.mem_of_mem_take hd)).issue, fun e h => ?_⟩
    rw [hc] at h
    split at h
    · exact he e h
    · cases h
      rfl
  | @stopped records tokens error ha hq hk =>
    by_cases hf : (records ++ [Diagnostic.lexError error tokens.upcoming.head.line
        tokens.upcoming.head.span]).length ≤ sink.free
    · have hr := hd.room sink hf
      obtain ⟨before, hb, hn⟩ := ha
      refine .inr ⟨tokens.upcoming.head, error, ?_⟩
      refine
        { last := ⟨records, List.take_of_length_le hf, fun d hd => (hq d hd).issue⟩
          first := ⟨before, ?_, hn⟩
          next := ?_
          kind := hk
          answer := ?_ }
      · rw [hr]
        exact hb
      · rw [hr]
        rfl
      · rw [hc, if_pos hf]
    · rw [List.length_append, List.length_singleton] at hf
      dsimp only
      rw [List.take_append_of_le_length (by omega)]
      refine .inl ⟨fun d hd => (hq d (List.mem_of_mem_take hd)).issue, fun e h => ?_⟩
      rw [hc, if_neg (by simpa using hf)] at h
      cases h
      rfl

/-- A lexical error is recorded once and last, if at all, and just if it is answered. -/
theorem lexical_record_of_compile (text : String) (sink : Sink) :
    ∃ ds : List Diagnostic, (compile text sink).2 = sink.append ds ∧
      ((∃ d ∈ ds, d.issue.isLexical = true) ↔
        ∃ e, (compile text sink).1 = .error e ∧ e.isLexical = true) ∧
      ∀ d ∈ ds, d.issue.isLexical = true →
        ∃ t error, LexicalStop text sink ds t error ∧ d = .lexError error t.line t.span ∧
          (CompileError.ofLexError error t.line).line? = some d.line := by
  obtain ⟨ds, hs, ⟨hq, he⟩ | ⟨t, error, h⟩⟩ := lexical_stop_of_compile text sink
  · refine ⟨ds, hs, ⟨?_, ?_⟩, ?_⟩
    · rintro ⟨d, hd, hl⟩
      cases (hq d hd).symm.trans hl
    · rintro ⟨e, hr, hl⟩
      cases (he e hr).symm.trans hl
    · intro d hd hl
      cases (hq d hd).symm.trans hl
  · obtain ⟨clean, hds, hclean⟩ := h.last
    have hl := Diagnostic.isLexical_lexError error t.line t.span
    have hm : Diagnostic.lexError error t.line t.span ∈ ds := by
      rw [hds]
      exact List.mem_append_right _ List.mem_cons_self
    refine ⟨ds, hs, iff_of_true ⟨_, hm, hl⟩ ⟨_, h.answer, ?_⟩, ?_⟩
    · exact CompileError.isLexical_ofLexError error t.line
    intro d hd hdl
    have hde : d = .lexError error t.line t.span := by
      rw [hds] at hd
      rcases List.mem_append.mp hd with hd | hd
      · cases (hclean d hd).symm.trans hdl
      · exact List.mem_singleton.mp hd
    refine ⟨t, error, h, hde, ?_⟩
    rw [hde, (Diagnostic.line_lexError error t.line t.span).1]
    exact CompileError.line?_ofLexError error t.line

end StaticAssert
