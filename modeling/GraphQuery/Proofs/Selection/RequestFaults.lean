import GraphQuery.Proofs.Selection.Breaks

/-!
# Faults of requests

What is read before a request is executed fails with faults of the whole request only, and so do
directives, wherever they stand. The arguments of directives are bound like those of fields, but
their faults are turned into violations. Main statements: a request that is not accepted has a
violation or a faulty variable, and so has a selection that cannot be collected.
-/

namespace GraphQuery

variable {α : Type}

/-- The computation fails with nothing but faults that end the request. -/
abbrev OnlyFatal (x : Except ExecutionFault α) : Prop :=
  FailsOnly (fun fault => fault.isFatal = true) x

private theorem onlyFatal_mapError {x : Except Violation α} : OnlyFatal
    (x.mapError .validation) := by
  cases x with
  | ok a => exact .ok a
  | error violation => exact .error rfl

private theorem BoundDirective.onlyFatal_keeps (directive : BoundDirective) (system : BoundSystem) :
    OnlyFatal (directive.keeps system) := by
  unfold BoundDirective.keeps
  cases directive.spec.includes directive.arguments system with
  | ok kept => exact .ok kept
  | error message => exact .error rfl

private theorem BoundDirective.onlyFatal_keepAll (system : BoundSystem)
    (directives : List BoundDirective) :
    OnlyFatal (keepAll system directives) := by
  induction directives with
  | nil => exact .ok true
  | cons directive rest ih =>
    exact (directive.onlyFatal_keeps system).bind fun kept => ih.bind fun others => .ok _

namespace Bindings

variable (bindings : Bindings)

private theorem onlyFatal_bindDirective (location : DirectiveLocation) (use : DirectiveUse) :
    OnlyFatal (bindings.bindDirective location use) := by
  unfold bindDirective
  cases bindings.schema.directive? use.name with
  | none => exact .error rfl
  | some spec =>
    simp only
    split
    · cases bindings.bindArguments spec.arguments use.arguments with
      | ok arguments => exact .ok _
      | error fault => exact .error rfl
    · exact .error rfl

private theorem onlyFatal_bindDirectives (location : DirectiveLocation) (uses : List DirectiveUse) :
    OnlyFatal (bindings.bindDirectives location uses) :=
  .mapM fun use _ => bindings.onlyFatal_bindDirective location use

private theorem onlyFatal_keeps (location : DirectiveLocation) (uses : List DirectiveUse) :
    OnlyFatal (bindings.keeps location uses) :=
  (bindings.onlyFatal_bindDirectives location uses).bind fun directives =>
    BoundDirective.onlyFatal_keepAll _ directives

end Bindings

private theorem VariableDefinition.onlyFatal_checkType (definition : VariableDefinition)
    (system : TypeSystem) : OnlyFatal (definition.checkType system) := by
  unfold checkType
  cases system.innermost? definition.type with
  | none => exact .error rfl
  | some type =>
    simp only
    split
    · exact .ok ()
    · exact .error rfl

private theorem VariableDefinition.onlyFatal_coerce (definition : VariableDefinition)
    (schema : Schema)
    (inputs : Variables) : OnlyFatal (definition.coerce schema inputs) := by
  refine (definition.onlyFatal_checkType _).bind fun _ => ?_
  cases schema.coerce definition.type (definition.supplied inputs) with
  | ok value => exact .ok value
  | error source => exact .error rfl

private theorem Variables.onlyFatal_coerce (inputs : Variables) (schema : Schema)
    (definitions : List VariableDefinition) : OnlyFatal (inputs.coerce schema definitions) :=
  .foldlM (fun _ definition _ => (definition.onlyFatal_coerce schema inputs).bind fun _ => .ok _) []

namespace Scope

variable (scope : Scope)

private theorem Unsuited.isFatal {scope : Scope} {parent : TypeDefinition}
    {condition : TypeCondition}
    {fault : ExecutionFault} (h : scope.Unsuited parent condition fault) :
    fault.isFatal = true := by
  cases h <;> rfl

private theorem Breaks.isFatal {scope : Scope} {parent : TypeDefinition} {selection : Selection}
    {fault : ExecutionFault} (h : scope.Breaks parent selection fault) : fault.isFatal = true := by
  cases h with
  | fieldDirectives h | inlineDirectives h | spreadDirectives h | definitionDirectives _ h =>
    exact scope.onlyFatal_keeps _ _ fault h
  | inlineCondition _ h | spreadCondition _ h => exact h.isFatal
  | typenameSelections | unknownField | leafSelections | missingSelections | unknownFragment
  | cycle => rfl

private theorem onlyFatal_depth (root : TypeDefinition) (selections : List Selection) :
    OnlyFatal (scope.depth root selections) := by
  intro fault h
  obtain ⟨_, _, -, hbreaks | huntyped⟩ := blames_depth root selections fault h
  · exact hbreaks.isFatal
  · cases huntyped
    rfl

variable {splice : SpreadNode → Collector}

mutual

private theorem onlyFatal_collectSelection (hsplice : ∀ node groups, OnlyFatal (splice node groups))
    (object : String) : ∀ selection groups,
      OnlyFatal (scope.collectSelection splice object selection groups)
  | .field node selections, groups => by
    rw [collectSelection]
    refine (scope.onlyFatal_keeps _ _).bind fun kept => ?_
    split <;> exact .ok _
  | .spread node, groups => by
    rw [collectSelection]
    refine (scope.onlyFatal_keeps _ _).bind fun kept => ?_
    split
    · exact hsplice node groups
    · exact .ok groups
  | .inline node selections, groups => by
    rw [collectSelection]
    refine (scope.onlyFatal_keeps _ _).bind fun kept => ?_
    split
    · split
      · exact onlyFatal_collectSelections hsplice object selections groups
      · exact .ok groups
    · exact .ok groups

private theorem onlyFatal_collectSelections
    (hsplice : ∀ node groups, OnlyFatal (splice node groups))
    (object : String) : ∀ selections groups,
      OnlyFatal (scope.collectSelections splice object selections groups)
  | [], groups => by
    rw [collectSelections]
    exact .ok groups
  | selection :: rest, groups => by
    rw [collectSelections]
    exact (onlyFatal_collectSelection hsplice object selection groups).bind fun groups =>
      onlyFatal_collectSelections hsplice object rest groups

end

private theorem onlyFatal_collectSpread (object : String) (budget : Nat) (node : SpreadNode)
    (groups : List FieldGroup) : OnlyFatal (scope.collectSpread object budget node groups) := by
  induction budget using Nat.strongRecOn generalizing node groups with
  | ind budget ih =>
    rw [collectSpread.eq_def]
    cases scope.fragment? node.name with
    | none => exact .error rfl
    | some fragment =>
      refine (scope.onlyFatal_keeps _ _).bind fun kept => ?_
      split
      · cases budget with
        | zero => exact .error rfl
        | succ less =>
          exact scope.onlyFatal_collectSelections (ih less (Nat.lt_succ_self less)) object
            fragment.selections groups
      · exact .ok groups

theorem onlyFatal_collect (object : String) (selections : List (List Selection)) :
    OnlyFatal (scope.collect object selections) :=
  .foldlM (fun groups list _ => scope.onlyFatal_collectSelections
    (scope.onlyFatal_collectSpread object scope.fragments.length) object list groups) []

end Scope

namespace Plan

private theorem onlyFatal_walk (scope : Scope) (settings : Settings) (operation : Operation) :
    OnlyFatal (walk scope settings operation) := by
  unfold walk
  refine .bind onlyFatal_mapError fun root => ?_
  split
  · exact .ok 0
  · exact (Scope.onlyFatal_depth _ _ _).bind fun depth => .bind onlyFatal_mapError fun _ => .ok _

/-- A request that is not accepted fails as a whole. -/
theorem onlyFatal_ofRequest (schema : ExecutableSchema) (settings : Settings)
    (request : Request) : OnlyFatal (ofRequest schema settings request) := by
  unfold ofRequest
  refine .bind onlyFatal_mapError fun operation => .bind onlyFatal_mapError fun rootType => ?_
  refine (request.inputs.onlyFatal_coerce _ _).bind fun values => ?_
  refine (Bindings.onlyFatal_bindDirectives _ _ _).bind fun _ => ?_
  refine .bind (.forM fun definition _ => ?_) fun _ => ?_
  · exact (Bindings.onlyFatal_bindDirectives _ _ _).bind fun _ => .ok ()
  · exact (onlyFatal_walk _ _ _).bind fun depth => .ok _

end Plan

end GraphQuery
