import StaticAssert.Proofs.Compile.Statements
import StaticAssert.Proofs.Expr.Postorder

/-!
# Units that leave no record

An assertion holds if its value is not zero and no node of its expression overflows. These
are the assertions that record nothing, so that compiling gives back the sink it was given,
whatever sink that is, just if the unit consists of assertions that hold.
-/

set_option autoImplicit false

namespace StaticAssert

namespace Tree

theorem records_eq_nil_iff {e : Tree} : e.records = [] ↔ ∀ x ∈ e.nodes, ¬ x.Overflows := by
  induction e with
  | literal n p =>
    have h : ¬ (literal n p).Overflows := fun ⟨⟨_, hm, _⟩, _⟩ => by cases hm
    exact iff_of_true rfl (List.forall_mem_singleton.mpr h)
  | unary op p x ih =>
    rw [records, nodes, List.append_eq_nil_iff, List.forall_mem_append, ih, overflow_eq_nil_iff,
      List.forall_mem_singleton, unary_overflows_iff, not_not]
  | binary op p x y ihx ihy =>
    rw [records, nodes, List.append_eq_nil_iff, List.append_eq_nil_iff, List.forall_mem_append,
      List.forall_mem_append, ihx, ihy, overflow_eq_nil_iff, List.forall_mem_singleton,
      binary_overflows_iff, not_not]

end Tree

/-- The statement is true, and nothing in its expression overflows. -/
structure Statement.Holds (s : Statement) : Prop where
  value : s.value.value ≠ 0
  exact : ∀ e ∈ s.value.nodes, ¬ e.Overflows

theorem Statement.recordsOn_eq_nil_iff {s : Statement} {line : Nat} :
    s.recordsOn line = [] ↔ s.Holds := by
  have hv : (if s.value.value = 0 then [Diagnostic.assertionFailed line s.span] else []) = [] ↔
      s.value.value ≠ 0 := by
    split
    next h => exact iff_of_false nofun (not_not.mpr h)
    next h => exact iff_of_true rfl h
  rw [recordsOn, List.append_eq_nil_iff, hv, Tree.records_eq_nil_iff]
  exact ⟨fun ⟨he, hv⟩ => ⟨hv, he⟩, fun h => ⟨h.exact, h.value⟩⟩

theorem unitRecords_eq_nil_iff {text : String} {statements : List Statement} :
    unitRecords text statements = [] ↔ ∀ s ∈ statements, s.Holds := by
  rw [unitRecords, List.flatMap_eq_nil_iff]
  exact forall₂_congr fun s _ => Statement.recordsOn_eq_nil_iff

/-- Compiling succeeds and changes no sink just if all assertions of the unit hold. -/
theorem compile_eq_self_iff {text : String} {sink : Sink} :
    compile text sink = (.ok (), sink) ↔
      ∃ statements, Asserts text statements ∧ ∀ s ∈ statements, s.Holds := by
  constructor
  · intro h
    have hr : (compilation text sink).result = .ok () := by
      rw [compile_eq, Prod.mk.injEq] at h
      exact h.1
    obtain ⟨statements, ha⟩ := exists_asserts_of_compilation hr
    exact ⟨statements, ha, unitRecords_eq_nil_iff.mp (ha.unitRecords_eq_nil h)⟩
  · rintro ⟨statements, ha, hs⟩
    obtain ⟨tokens, hd⟩ := ha.exists_describes
    rw [unitRecords_eq_nil_iff.mpr hs] at hd
    rw [compile_eq, hd.room sink (Nat.zero_le _), Sink.append_nil]

end StaticAssert
