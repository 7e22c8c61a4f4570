import StaticAssert.Proofs.Compile.Body

/-!
# The capacity of a sink only truncates

A unit has the records that a run with plenty of room appends to an empty sink. Any
other sink receives, behind what it already holds, as many of them as fit; if one
does not fit, the answer is that the sink is full, and otherwise it is the answer of
the run with room. Units that are compiled one after the other into one sink have
their records there in the same order.
-/

set_option autoImplicit false

namespace StaticAssert

theorem compile_of_describes {text : String} {t : Transcript Unit}
    (ht : t.Describes (compilation text)) (sink : Sink) :
    compile text sink =
      (if t.records.length ≤ sink.free then t.result else .error (.sinkFull sink.capacity),
        sink.append (t.records.take sink.free)) := by
  rw [compile_eq, ht.result_eq, ht.sink_eq]

def recordsWithin (capacity : Nat) (text : String) : List Diagnostic :=
  (compile text (.empty capacity)).2.records.toList

/-- The capacity is more than a run on an empty sink can fill. -/
def Ample (capacity : Nat) (text : String) : Prop :=
  (compile text (.empty capacity)).2.size < capacity

instance (capacity : Nat) (text : String) : Decidable (Ample capacity text) :=
  inferInstanceAs (Decidable (_ < _))

theorem recordsWithin_of_describes {text : String} {t : Transcript Unit}
    (ht : t.Describes (compilation text)) (capacity : Nat) :
    recordsWithin capacity text = t.records.take capacity := by
  rw [recordsWithin, compile_of_describes ht]
  simp [Sink.append, Sink.empty, Sink.free, Sink.size]

theorem ample_iff_of_describes {text : String} {t : Transcript Unit}
    (ht : t.Describes (compilation text)) (capacity : Nat) :
    Ample capacity text ↔ t.records.length < capacity := by
  have hs : (compile text (.empty capacity)).2.size = (recordsWithin capacity text).length := by
    rw [recordsWithin, Array.length_toList, Sink.size]
  rw [Ample, hs, recordsWithin_of_describes ht, List.length_take]
  omega

theorem transcript_of_ample {text : String} {t : Transcript Unit}
    (ht : t.Describes (compilation text)) {capacity : Nat} (h : Ample capacity text) :
    t.records = recordsWithin capacity text ∧ t.result = (compile text (.empty capacity)).1 := by
  have hl : t.records.length ≤ capacity :=
    Nat.le_of_lt ((ample_iff_of_describes ht capacity).mp h)
  rw [recordsWithin_of_describes ht, List.take_of_length_le hl, compile_of_describes ht,
    Sink.free_empty, if_pos hl]
  exact ⟨rfl, rfl⟩

theorem exists_ample (text : String) : ∃ capacity, Ample capacity text := by
  obtain ⟨t, ht⟩ := exists_describes_compilation text
  exact ⟨t.records.length + 1, (ample_iff_of_describes ht _).mpr (Nat.lt_succ_self _)⟩

theorem sink_compile {capacity : Nat} {text : String} (h : Ample capacity text) (sink : Sink) :
    (compile text sink).2 = sink.append ((recordsWithin capacity text).take sink.free) := by
  obtain ⟨t, ht⟩ := exists_describes_compilation text
  rw [compile_of_describes ht, (transcript_of_ample ht h).1]

def compileAll (texts : List String) (sink : Sink) : Sink :=
  texts.foldl (fun s text => (compile text s).2) sink

theorem compileAll_eq {capacity : Nat} {texts : List String}
    (h : ∀ text ∈ texts, Ample capacity text) (sink : Sink) :
    compileAll texts sink =
      sink.append ((texts.flatMap (recordsWithin capacity)).take sink.free) := by
  induction texts generalizing sink with
  | nil => simp [compileAll]
  | cons text texts ih =>
    have hr := ih (fun t ht => h t (List.mem_cons_of_mem text ht)) (compile text sink).2
    rw [sink_compile (h text List.mem_cons_self) sink] at hr
    rw [compileAll, List.foldl_cons, sink_compile (h text List.mem_cons_self) sink]
    refine hr.trans ?_
    rw [Sink.append_append, Sink.free_append, List.length_take, List.flatMap_cons,
      List.take_append]
    congr 3
    omega

/-- The records of a unit do not depend on the sink; a sink takes as many as it has room for,
behind those it holds, and answers for itself only if it refuses one. -/
theorem compile_truncates :
    (∀ text, ∃ capacity, Ample capacity text) ∧
    (∀ capacity text, Ample capacity text →
      ∀ sink : Sink, sink.size ≤ sink.capacity →
        compile text sink =
          if sink.size + (recordsWithin capacity text).length ≤ sink.capacity then
            ((compile text (.empty capacity)).1, sink.append (recordsWithin capacity text))
          else
            (.error (.sinkFull sink.capacity), sink.append
              ((recordsWithin capacity text).take (sink.capacity - sink.size)))) ∧
    (∀ capacity texts, (∀ text ∈ texts, Ample capacity text) →
      ∀ sink : Sink, sink.size ≤ sink.capacity →
        compileAll texts sink = sink.append
          ((texts.flatMap (recordsWithin capacity)).take (sink.capacity - sink.size))) := by
  refine ⟨exists_ample, ?_, fun capacity texts h sink _ => compileAll_eq h sink⟩
  intro capacity text h sink hs
  obtain ⟨t, ht⟩ := exists_describes_compilation text
  obtain ⟨hr, ha⟩ := transcript_of_ample ht h
  rw [compile_of_describes ht, hr, ha]
  by_cases hf : (recordsWithin capacity text).length ≤ sink.free
  · rw [if_pos hf, if_pos (by unfold Sink.free at hf; omega), List.take_of_length_le hf]
  · rw [if_neg hf, if_neg (by unfold Sink.free at hf; omega), Sink.free]

theorem compile_truncates_full :
    Ample 3 "void main()\x7bstatic_assert(0);static_assert(1==2);\x7d" ∧
      Sink.size (.empty 1) ≤ (Sink.empty 1).capacity ∧
      compile "void main()\x7bstatic_assert(0);static_assert(1==2);\x7d" (.empty 1) =
        (.error (.sinkFull 1), ⟨1, #[.assertionFailed 1 ⟨26, 27⟩]⟩) := by
  have h : Ample 3 "void main()\x7bstatic_assert(0);static_assert(1==2);\x7d" := by
    decide +kernel
  have hr : recordsWithin 3 "void main()\x7bstatic_assert(0);static_assert(1==2);\x7d" =
      [.assertionFailed 1 ⟨26, 27⟩, .assertionFailed 1 ⟨43, 47⟩] := by
    decide +kernel
  refine ⟨h, by decide, ?_⟩
  rw [compile_truncates.2.1 3 _ h (.empty 1) (by decide), hr]
  rfl

end StaticAssert
