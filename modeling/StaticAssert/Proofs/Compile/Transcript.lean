import StaticAssert.Compile.Parser

/-!
# What a parsing function does whatever sink it is given

Whether a record finds room decides only how far a parse gets. A transcript lists the
records that a parsing function has for a sink, with its answer and the tokens it
leaves when all of them find room. It describes the function if every sink with room
receives exactly these records, and every other sink receives those that fit, with
the refusal of the next one as the answer. Transcripts of a sequence are joined.
-/

set_option autoImplicit false

namespace StaticAssert

theorem Diagnostic.issue_lexError_ne (error : LexError) (line : Nat) (span : Span) :
    (lexError error line span).issue ≠ .assertionFailed := by
  cases error <;> nofun

namespace Sink

def free (s : Sink) : Nat := s.capacity - s.size

def append (s : Sink) (ds : List Diagnostic) : Sink := ⟨s.capacity, s.records ++ ds.toArray⟩

@[simp] theorem append_nil (s : Sink) : s.append [] = s := by
  simp [append]

@[simp] theorem append_append (s : Sink) (ds es : List Diagnostic) :
    (s.append ds).append es = s.append (ds ++ es) := by
  simp [append]

theorem append_inj {s : Sink} {ds es : List Diagnostic} (h : s.append ds = s.append es) :
    ds = es := by
  have hs : s.records.toList ++ ds = s.records.toList ++ es := by
    have hl := congrArg (fun s' : Sink => s'.records.toList) h
    simpa only [append, Array.toList_append] using hl
  exact List.append_cancel_left hs

theorem eq_nil_of_append_eq_self {s : Sink} {ds : List Diagnostic} (h : s.append ds = s) :
    ds = [] :=
  append_inj (h.trans s.append_nil.symm)

@[simp] theorem capacity_append (s : Sink) (ds : List Diagnostic) :
    (s.append ds).capacity = s.capacity := rfl

@[simp] theorem free_append (s : Sink) (ds : List Diagnostic) :
    (s.append ds).free = s.free - ds.length := by
  simp only [free, append, size, Array.size_append, List.size_toArray]
  omega

@[simp] theorem free_empty (capacity : Nat) : (empty capacity).free = capacity := rfl

theorem push_of_free {s : Sink} (d : Diagnostic) (h : 0 < s.free) :
    s.push d = .ok (s.append [d]) := by
  rw [push_of_lt d (by unfold free at h; omega), append]
  simp

theorem push_of_no_free {s : Sink} (d : Diagnostic) (h : s.free = 0) :
    s.push d = .error ⟨s.capacity⟩ :=
  push_of_le d (by unfold free at h; omega)

end Sink

namespace Outcome

variable {α β : Type}

@[simp] theorem andThen_ok (a : α) (p : Parser) (f : α → Parser → Outcome β) :
    andThen ⟨.ok a, p⟩ f = f a p := rfl

theorem ok_of_andThen {o : Outcome α} {f : α → Parser → Outcome β} {b : β}
    (h : (o.andThen f).result = .ok b) :
    ∃ a, o.result = .ok a ∧ o.andThen f = f a o.parser := by
  obtain ⟨result, parser⟩ := o
  cases result with
  | ok a => exact ⟨a, rfl, rfl⟩
  | error e => cases h

end Outcome

structure Transcript (α : Type) where
  records : List Diagnostic
  result : Except CompileError α
  tokens : Lookahead

namespace Transcript

variable {α β : Type}

structure Describes (t : Transcript α) (f : Sink → Outcome α) : Prop where
  room : ∀ s : Sink, t.records.length ≤ s.free →
    f s = ⟨t.result, ⟨t.tokens, s.append t.records⟩⟩
  refused : ∀ s : Sink, s.free < t.records.length →
    (f s).result = .error (.sinkFull s.capacity) ∧
      (f s).parser.sink = s.append (t.records.take s.free)

theorem describes_const (result : Except CompileError α) (tokens : Lookahead) :
    Describes ⟨[], result, tokens⟩ fun s => ⟨result, ⟨tokens, s⟩⟩ where
  room s _ := by rw [Sink.append_nil]
  refused s h := absurd h (Nat.not_lt_zero _)

theorem describes_report (tokens : Lookahead) (d : Diagnostic) :
    Describes ⟨[d], .ok (), tokens⟩ fun s => Parser.report ⟨tokens, s⟩ d where
  room s h := by
    have hs : s.push d = .ok (s.append [d]) := Sink.push_of_free d h
    simp only [Parser.report, hs]
  refused s h := by
    have hf : s.free = 0 := Nat.lt_one_iff.mp h
    simp only [Parser.report, Sink.push_of_no_free d hf, hf, List.take_zero, Sink.append_nil]
    exact ⟨rfl, trivial⟩

theorem describes_stopAt (tokens : Lookahead) (error : LexError) (token : Token) :
    Describes (α := α)
      ⟨[.lexError error token.line token.span], .error (.ofLexError error token.line), tokens⟩
      fun s => .failed (Parser.stopAt ⟨tokens, s⟩ error token) where
  room s h := by
    have hs := Sink.push_of_free (.lexError error token.line token.span) h
    simp only [Parser.stopAt, hs, Outcome.failed]
  refused s h := by
    have hf : s.free = 0 := Nat.lt_one_iff.mp h
    simp only [Parser.stopAt, Sink.push_of_no_free _ hf, hf, Outcome.failed, List.take_zero,
      Sink.append_nil]
    exact ⟨rfl, trivial⟩

structure Leads (records : List Diagnostic) (f g : Sink → Outcome α) : Prop where
  room : ∀ s : Sink, records.length ≤ s.free → f s = g (s.append records)
  refused : ∀ s : Sink, s.free < records.length →
    (f s).result = .error (.sinkFull s.capacity) ∧
      (f s).parser.sink = s.append (records.take s.free)

namespace Leads

variable {f g h : Sink → Outcome α} {ds es : List Diagnostic}

theorem of_eq (he : ∀ s, f s = g s) : Leads [] f g where
  room s _ := by rw [Sink.append_nil, he]
  refused s hs := absurd hs (Nat.not_lt_zero _)

theorem trans (hf : Leads ds f g) (hg : Leads es g h) : Leads (ds ++ es) f h where
  room s hs := by
    rw [List.length_append] at hs
    rw [hf.room s (by omega), hg.room _ (by rw [Sink.free_append]; omega), Sink.append_append]
  refused s hs := by
    rw [List.length_append] at hs
    by_cases hd : ds.length ≤ s.free
    · have hr := hg.refused (s.append ds) (by rw [Sink.free_append]; omega)
      rw [Sink.append_append, Sink.free_append, Sink.capacity_append] at hr
      rw [hf.room s hd, List.take_append, List.take_of_length_le hd]
      exact hr
    · rw [List.take_append_of_le_length (by omega)]
      exact hf.refused s (by omega)

theorem describes {u : Transcript α} (hf : Leads ds f g) (hu : u.Describes g) :
    Describes ⟨ds ++ u.records, u.result, u.tokens⟩ f where
  room s hs := by
    rw [List.length_append] at hs
    rw [hf.room s (by omega), hu.room _ (by rw [Sink.free_append]; omega), Sink.append_append]
  refused s hs := by
    rw [List.length_append] at hs
    by_cases hd : ds.length ≤ s.free
    · have hr := hu.refused (s.append ds) (by rw [Sink.free_append]; omega)
      rw [Sink.append_append, Sink.free_append, Sink.capacity_append] at hr
      rw [hf.room s hd, List.take_append, List.take_of_length_le hd]
      exact hr
    · rw [List.take_append_of_le_length (by omega)]
      exact hf.refused s (by omega)

theorem eq_of_error {e : CompileError} {s : Sink} (hf : Leads ds f g)
    (he : (f s).result = .error e) (hn : ∀ n, e ≠ .sinkFull n) : f s = g (s.append ds) := by
  by_cases hs : ds.length ≤ s.free
  · exact hf.room s hs
  · rw [(hf.refused s (Nat.lt_of_not_le hs)).1] at he
    cases he
    exact absurd rfl (hn s.capacity)

end Leads

section Sequence

variable {t : Transcript α} {f : Sink → Outcome α} {g : α → Parser → Outcome β}

theorem leads_andThen {a : α} (ht : t.Describes f) (ha : t.result = .ok a) :
    Leads t.records (fun s => (f s).andThen g) fun s => g a ⟨t.tokens, s⟩ where
  room s h := by rw [ht.room s h, Outcome.andThen, ha]
  refused s h := by
    have hs := ht.refused s h
    rw [Outcome.andThen, hs.1]
    exact ⟨rfl, hs.2⟩

theorem describes_andThen_ok {a : α} {u : Transcript β} (ht : t.Describes f)
    (ha : t.result = .ok a) (hu : u.Describes fun s => g a ⟨t.tokens, s⟩) :
    Describes ⟨t.records ++ u.records, u.result, u.tokens⟩ fun s => (f s).andThen g :=
  (leads_andThen ht ha).describes hu

theorem describes_andThen_error {e : CompileError} (ht : t.Describes f)
    (he : t.result = .error e) :
    Describes (α := β) ⟨t.records, .error e, t.tokens⟩ fun s => (f s).andThen g where
  room s h := by
    rw [ht.room s h, Outcome.andThen, he]
  refused s h := by
    have hs := ht.refused s h
    rw [Outcome.andThen, hs.1]
    exact ⟨rfl, hs.2⟩

theorem describes_andThen_const (ht : t.Describes f) (g : α → Except CompileError β) :
    Describes ⟨t.records, t.result.bind g, t.tokens⟩
      fun s => (f s).andThen fun a p => ⟨g a, p⟩ := by
  cases hr : t.result with
  | ok a =>
    have h := describes_andThen_ok (g := fun a p => ⟨g a, p⟩) ht hr
      (describes_const (g a) t.tokens)
    rwa [List.append_nil] at h
  | error e => exact describes_andThen_error ht hr

/-- A sequence has a transcript. What holds of the records of its first part whatever the
result will be, and of those of its second part, holds of all. -/
theorem exists_describes_andThen {P : Except CompileError β → Diagnostic → Prop}
    (ht : t.Describes f) (hp : ∀ r, ∀ d ∈ t.records, P r d)
    (hg : ∀ a, t.result = .ok a → ∃ u : Transcript β,
      (u.Describes fun s => g a ⟨t.tokens, s⟩) ∧ ∀ d ∈ u.records, P u.result d) :
    ∃ u : Transcript β,
      (u.Describes fun s => (f s).andThen g) ∧ ∀ d ∈ u.records, P u.result d := by
  cases hr : t.result with
  | ok a =>
    obtain ⟨u, hu, hd⟩ := hg a hr
    exact ⟨_, describes_andThen_ok ht hr hu, List.forall_mem_append.mpr ⟨hp _, hd⟩⟩
  | error e => exact ⟨_, describes_andThen_error ht hr, hp _⟩

end Sequence

namespace Describes

variable {t : Transcript α} {f : Sink → Outcome α}

theorem leads (h : t.Describes f) : Leads t.records f fun s => ⟨t.result, ⟨t.tokens, s⟩⟩ where
  room := h.room
  refused := h.refused

/-- A function has one transcript only. -/
theorem unique {u : Transcript α} (h : t.Describes f) (hu : u.Describes f) : t = u := by
  have ht := h.room (.empty (t.records.length + u.records.length)) (Nat.le_add_right _ _)
  rw [hu.room _ (Nat.le_add_left _ _), Outcome.mk.injEq, Parser.mk.injEq] at ht
  obtain ⟨records, result, tokens⟩ := t
  obtain ⟨hr, hl, hs⟩ := ht
  cases Sink.append_inj hs
  cases hr
  cases hl
  rfl

theorem result_eq (h : t.Describes f) (s : Sink) :
    (f s).result =
      if t.records.length ≤ s.free then t.result else .error (.sinkFull s.capacity) := by
  by_cases hf : t.records.length ≤ s.free
  · rw [h.room s hf, if_pos hf]
  · rw [(h.refused s (Nat.lt_of_not_le hf)).1, if_neg hf]

theorem sink_eq (h : t.Describes f) (s : Sink) :
    (f s).parser.sink = s.append (t.records.take s.free) := by
  by_cases hf : t.records.length ≤ s.free
  · rw [h.room s hf, List.take_of_length_le hf]
  · exact (h.refused s (Nat.lt_of_not_le hf)).2

theorem result_eq_ok_iff (h : t.Describes f) {s : Sink} {a : α} :
    (f s).result = .ok a ↔ t.result = .ok a ∧ t.records.length ≤ s.free := by
  rw [h.result_eq]
  split
  next hf => exact ⟨fun hr => ⟨hr, hf⟩, fun hr => hr.1⟩
  next hf =>
    constructor
    · intro hr
      cases hr
    · rintro ⟨-, hr⟩
      exact absurd hr hf

end Describes

end Transcript
end StaticAssert
