import GraphQuery.Proofs.Completion.Accepted
import GraphQuery.Proofs.Completion.InStep
import GraphQuery.Proofs.Selection.Agreement

/-!
# Serialized leaves

Two schemas that differ at most in how they serialize values of types that are no leaves. Main
statement: they execute every request alike, event by event, since a run serializes values of leaf
types only.
-/

namespace GraphQuery

/-- The schemas have the same types, resolvers and directives, read inputs alike and serialize the
values of leaf types alike. -/
structure Schema.SameLeaves (schema other : Schema) : Prop where
  bound : other.toBoundSystem = schema.toBoundSystem
  directives : other.directives = schema.directives
  literal : other.translator.literal = schema.translator.literal
  coerce : other.translator.coerce = schema.translator.coerce
  leaf : ∀ system type, type.isLeaf = true →
    other.translator.leaf system type = schema.translator.leaf system type

namespace Schema.SameLeaves

variable {schema other : Schema}

private theorem system (h : schema.SameLeaves other) : other.toTypeSystem = schema.toTypeSystem :=
  congrArg BoundSystem.toTypeSystem h.bound

private theorem resolvers (h : schema.SameLeaves other) : other.resolvers = schema.resolvers :=
  congrArg BoundSystem.resolvers h.bound

private theorem coerce_eq (h : schema.SameLeaves other) : other.coerce = schema.coerce := by
  funext type value
  rw [Schema.coerce, Schema.coerce, h.bound, h.coerce]

private theorem leaf_eq (h : schema.SameLeaves other) {type : TypeDefinition}
    (hleaf : type.isLeaf = true) : other.leaf type = schema.leaf type := by
  funext value
  rw [Schema.leaf, Schema.leaf, h.bound, h.leaf _ type hleaf]

section

variable (h : schema.SameLeaves other) (values : Keyed Value)

include h

private theorem bindArguments_eq :
    Bindings.bindArguments ⟨other, values⟩ = Bindings.bindArguments ⟨schema, values⟩ :=
  Bindings.bindArguments_congr h.literal h.coerce_eq rfl

private theorem bindDirectives_eq :
    Bindings.bindDirectives ⟨other, values⟩ = Bindings.bindDirectives ⟨schema, values⟩ := by
  have hdirective :
      Bindings.bindDirective ⟨other, values⟩ = Bindings.bindDirective ⟨schema, values⟩ := by
    funext location use
    simp only [Bindings.bindDirective, directive?, h.directives, h.bindArguments_eq]
  funext location uses
  rw [Bindings.bindDirectives, hdirective, Bindings.bindDirectives]

private theorem keeps_eq : Bindings.keeps ⟨other, values⟩ = Bindings.keeps ⟨schema, values⟩ := by
  funext location uses
  unfold Bindings.keeps
  rw [h.bindDirectives_eq, h.bound]

private theorem wrapProducer_eq :
    Bindings.wrapProducer ⟨other, values⟩ = Bindings.wrapProducer ⟨schema, values⟩ := by
  funext producer parent uses
  rw [Bindings.wrapProducer, h.bindDirectives_eq, Bindings.wrapProducer]

private theorem agrees (fragments : List Fragment) :
    Scope.Agrees ⟨⟨schema, values⟩, fragments⟩ ⟨⟨other, values⟩, fragments⟩ :=
  ⟨h.system, rfl, h.keeps_eq values⟩

end

private theorem coerceVariables_eq (h : schema.SameLeaves other) (inputs : Variables) :
    inputs.coerce other = inputs.coerce schema := by
  have hdefinition (definition : VariableDefinition) :
      definition.coerce other inputs = definition.coerce schema inputs := by
    simp only [VariableDefinition.coerce, h.system, h.coerce_eq]
  funext definitions
  simp only [Variables.coerce, hdefinition]

end Schema.SameLeaves

namespace Plan

/-- The plan under another schema. -/
def withSchema (plan : Plan) (schema : Schema) : Plan := { plan with schema }

/-- The same selections, at any depth. -/
def Unchanged (_ : Nat) (selections selections' : List (List Selection)) : Prop :=
  selections' = selections

section

variable {plan : Plan} {other : Schema} (h : plan.schema.SameLeaves other)

include h

private theorem readsAlike_withSchema : plan.ReadsAlike (plan.withSchema other) where
  system := h.system
  arguments := h.bindArguments_eq plan.values
  wraps := h.wrapProducer_eq plan.values
  leaf := fun _ hleaf => h.leaf_eq hleaf
  resolvers := h.resolvers
  delays := rfl

private theorem collect_inStep_withSchema (depth : Nat) (object : String)
    (selections selections' : List (List Selection))
    (hsame : Unchanged (depth + 1) selections selections') :
    Related (List.Forall₂ (FieldGroup.InStep plan.toBindings (Unchanged depth)))
      (plan.collect object selections) ((plan.withSchema other).collect object selections') := by
  have hscope : plan.toScope.Agrees (plan.withSchema other).toScope :=
    h.agrees plan.values plan.fragments
  rw [show selections' = selections from hsame, hscope.collect]
  cases plan.collect object selections with
  | error fault => exact .error
  | ok groups => exact .ok (List.forall₂_same.2 fun group _ => ⟨rfl, .refl _ _, rfl⟩)

private theorem runUnder_withSchema (schedule : Schedule) :
    (plan.withSchema other).runUnder schedule = plan.runUnder schedule := by
  have hsystem : (plan.withSchema other).system = plan.system := h.system
  have hquery : rootTypeOf (plan.withSchema other).system plan.operation =
      rootTypeOf plan.system plan.operation := by rw [hsystem]
  exact runWith_inStep schedule (readsAlike_withSchema h) (collect_inStep_withSchema h) hquery
    rfl rfl rfl

end

private theorem ofRequest_of_sameLeaves {schema other : ExecutableSchema}
    (h : schema.toSchema.SameLeaves other.toSchema) (hdelays : other.delays = schema.delays)
    (settings : Settings) (request : Request) :
    ofRequest other settings request =
      (fun plan => plan.withSchema other.toSchema) <$> ofRequest schema settings request := by
  simp only [ofRequest_eq, h.system, h.coerceVariables_eq, hdelays, map_bind, map_pure]
  refine bind_congr fun operation => bind_congr fun rootType => bind_congr fun values => ?_
  have hscope := h.agrees values request.document.fragments
  simp only [h.bindDirectives_eq, hscope.depth]
  rfl

end Plan

/-- What a schema would make of the values of types that are no leaves never shows. -/
theorem executeUnder_of_sameLeaves {schema other : ExecutableSchema}
    (h : schema.toSchema.SameLeaves other.toSchema) (hdelays : other.delays = schema.delays)
    (buffering : Future.Buffering ResponsePath Event Completion) (settings : Settings)
    (request : Request) :
    executeUnder buffering other settings request =
      executeUnder buffering schema settings request := by
  unfold executeUnder
  rw [Plan.ofRequest_of_sameLeaves h hdelays]
  cases hplan : Plan.ofRequest schema settings request with
  | error fault => rfl
  | ok plan =>
    have hschema : plan.schema = schema.toSchema := (Plan.accepted_of_ofRequest hplan).1
    exact Plan.runUnder_withSchema (hschema ▸ h) _

end GraphQuery
