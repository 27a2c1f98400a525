import GraphQuery.Proofs.Schema.Defaults

/-!
# Well-typed arguments

The arguments that resolvers and directives see. Main statement: under a schema that was finished
with the standard translator, whatever is bound to declared parameters is well-typed, whether it is
written out, comes from a variable or a default, or is left out.
-/

namespace GraphQuery

/-- The arguments are those of the parameters, in the same order, each with a value of its type. -/
def WellTyped (system : TypeSystem) : Admissible := fun parameters arguments =>
  List.Forall₂ (fun parameter argument =>
    argument.1 = parameter.name ∧ system.InputValue parameter.type argument.2) parameters arguments

theorem WellTyped.names {system : TypeSystem} {parameters : List Parameter}
    {arguments : ArgumentValues} (h : WellTyped system parameters arguments) :
    arguments.map Prod.fst = parameters.map Parameter.name := by
  induction h with
  | nil => rfl
  | cons hfirst _ ih => rw [List.map_cons, List.map_cons, hfirst.1, ih]

namespace Bindings

variable {bindings : Bindings}

private theorem inputValue_of_bindParameter (htranslator : bindings.schema.translator = .standard)
    {parameter : Parameter} (hsettled : parameter.Settled bindings.schema.toTypeSystem)
    {arguments : List Argument} {value : Value}
    (h : bindings.bindParameter arguments parameter = .ok value) :
    bindings.schema.InputValue parameter.type value := by
  unfold bindParameter at h
  split at h
  · obtain ⟨read, -, h⟩ := bind_eq_ok_iff.1 h
    rw [Schema.coerce, htranslator] at h
    split at h
    · next coerced hcoerced =>
      obtain rfl := Except.ok.inj h
      exact TypeSystem.inputValue_of_coerceInput hcoerced
    · cases h
  · split at h
    · next default hdefault => exact Except.ok.inj h ▸ hsettled default hdefault
    · split at h
      · next hnullable => exact Except.ok.inj h ▸ .null hnullable
      · cases h

private theorem wellTyped_of_bindArguments (htranslator : bindings.schema.translator = .standard)
    {parameters : List Parameter}
    (hsettled : ∀ parameter ∈ parameters, parameter.Settled bindings.schema.toTypeSystem)
    {uses : List Argument} {arguments : ArgumentValues}
    (h : bindings.bindArguments parameters uses = .ok arguments) :
    WellTyped bindings.schema.toTypeSystem parameters arguments := by
  unfold bindArguments at h
  split at h
  · cases h
  · have hbound := List.forall₂_iff_get.1 (mapM_eq_ok_iff.1 h)
    refine List.forall₂_iff_get.2 ⟨hbound.1, fun i hparameter hargument => ?_⟩
    have hi := hbound.2 i hparameter hargument
    simp only [bind_eq_ok_iff, pure_eq_ok_iff] at hi
    obtain ⟨value, hvalue, heq⟩ := hi
    rw [← heq]
    exact ⟨rfl, inputValue_of_bindParameter htranslator (hsettled _ (List.get_mem ..)) hvalue⟩

end Bindings

/-- Whatever is bound to declared parameters is well-typed. -/
theorem ensures_wellTyped {draft : SchemaDraft} {schema : ExecutableSchema}
    (hfinish : draft.finish = .ok schema) (htranslator : schema.translator = .standard) :
    schema.toSchema.Ensures (WellTyped schema.toTypeSystem) := by
  intro values parameters uses arguments hdeclares hbound
  have hsettled := SchemaDraft.settled_of_finish hfinish htranslator hdeclares
  exact Bindings.wellTyped_of_bindArguments htranslator hsettled hbound

end GraphQuery
