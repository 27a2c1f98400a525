import GraphQuery.Binding.Directives
import GraphQuery.Proofs.Success

/-!
# Applicable directives

When the use of a directive is in order. Main statement: the directives of a node can decide about
it exactly if each of them is applicable.
-/

namespace GraphQuery

namespace Bindings

variable {bindings : Bindings} {location : DirectiveLocation}

/-- The directive is known and allowed at the location, its arguments can be bound, and its
predicate does not refuse them. -/
def Applicable (bindings : Bindings) (location : DirectiveLocation) (use : DirectiveUse) : Prop :=
  ∃ spec arguments kept, bindings.schema.directive? use.name = some spec ∧
    location ∈ spec.locations ∧
      bindings.bindArguments spec.arguments use.arguments = .ok arguments ∧
    spec.includes arguments bindings.schema.toBoundSystem = .ok kept

theorem keeps_nil (bindings : Bindings) (location : DirectiveLocation) :
    bindings.keeps location [] = .ok true := rfl

theorem bindDirective_eq_ok_iff {use : DirectiveUse} {directive : BoundDirective} :
    bindings.bindDirective location use = .ok directive ↔
      ∃ spec arguments, bindings.schema.directive? use.name = some spec ∧
        location ∈ spec.locations ∧
        bindings.bindArguments spec.arguments use.arguments = .ok arguments ∧
        directive = { spec, arguments, position := use.position } := by
  unfold bindDirective
  cases bindings.schema.directive? use.name with
  | none => simp
  | some spec =>
    by_cases hallowed : location ∈ spec.locations
    · have hcontains : spec.isAllowedAt location = true := List.contains_iff_mem.2 hallowed
      cases hbound : bindings.bindArguments spec.arguments use.arguments with
      | error fault => simp [hcontains, hbound]
      | ok arguments => simp [hcontains, hbound, hallowed, eq_comm]
    · have hcontains : spec.isAllowedAt location = false := by
        simpa [DirectiveSpec.isAllowedAt] using hallowed
      simp [hcontains, hallowed]

private theorem exists_keeps_eq_ok_iff {directive : BoundDirective} {system : BoundSystem} :
    (∃ kept, directive.keeps system = .ok kept) ↔
      ∃ kept, directive.spec.includes directive.arguments system = .ok kept := by
  unfold BoundDirective.keeps
  cases directive.spec.includes directive.arguments system <;> simp

private theorem exists_keepAll_eq_ok_iff {system : BoundSystem} {directives : List BoundDirective} :
    (∃ kept, BoundDirective.keepAll system directives = .ok kept) ↔
      ∀ directive ∈ directives, ∃ kept, directive.keeps system = .ok kept := by
  induction directives with
  | nil => simp [BoundDirective.keepAll]
  | cons directive rest ih =>
    rw [List.forall_mem_cons, ← ih]
    simp only [BoundDirective.keepAll, bind_eq_ok_iff, pure_eq_ok_iff]
    exact ⟨fun ⟨_, kept, hkept, others, hothers, _⟩ => ⟨⟨kept, hkept⟩, others, hothers⟩,
      fun ⟨⟨kept, hkept⟩, others, hothers⟩ => ⟨_, kept, hkept, others, hothers, rfl⟩⟩

/-- Whether a node is kept can be decided exactly if all its directives are applicable. -/
theorem exists_keeps_iff {uses : List DirectiveUse} :
    (∃ kept, bindings.keeps location uses = .ok kept) ↔
      ∀ use ∈ uses, bindings.Applicable location use := by
  have happlicable (use : DirectiveUse) : bindings.Applicable location use ↔
      ∃ directive, bindings.bindDirective location use = .ok directive ∧
        ∃ kept, directive.keeps bindings.schema.toBoundSystem = .ok kept := by
    simp only [bindDirective_eq_ok_iff, exists_keeps_eq_ok_iff]
    constructor
    · rintro ⟨spec, arguments, kept, hspec, hallowed, hbound, hkept⟩
      exact ⟨_, ⟨spec, arguments, hspec, hallowed, hbound, rfl⟩, kept, hkept⟩
    · rintro ⟨_, ⟨spec, arguments, hspec, hallowed, hbound, rfl⟩, kept, hkept⟩
      exact ⟨spec, arguments, kept, hspec, hallowed, hbound, hkept⟩
  simp only [happlicable]
  rw [← exists_mapM_eq_ok_iff]
  simp only [← exists_keepAll_eq_ok_iff, keeps, bind_eq_ok_iff]
  exact ⟨fun ⟨kept, directives, hbound, hkept⟩ => ⟨directives, hbound, kept, hkept⟩,
    fun ⟨directives, hbound, kept, hkept⟩ => ⟨kept, directives, hbound, hkept⟩⟩

end Bindings

end GraphQuery
