import GraphQuery.Proofs.Binding.Routes
import GraphQuery.Proofs.Completion.Arguments
import GraphQuery.Proofs.Completion.Fatal
import GraphQuery.Proofs.Schema.AnotherDefault

/-!
# Routes of values in a run

What becomes of one value that a parameter gets as a literal, through a variable or as its default.
Main statement: if the value can be coerced, the parameter gets the same on all routes; else all of
them fail with the same fault, a literal at its field, a variable before anything is executed, and a
default when the draft is finished.
-/

namespace GraphQuery

namespace Plan

section

variable {plan : Plan}

private theorem Completes.error_mem {place inner : Place} {path rest : ResponsePath}
    {completion : Completion} (h : plan.Completes place path completion)
    (hfollow : plan.follow place path rest = some inner) {failure : Failure}
    (hview : plan.view inner (path ++ rest) = .failed failure) :
    failure.error (path ++ rest) ∈ completion.errors := by
  obtain ⟨below, hbelow, herrors, -⟩ := h.exists_below hfollow
  refine herrors ?_
  rw [hbelow.eq_of_failed hview, Completion.errors_absorb]
  exact List.mem_singleton_self _

/-- The run comes to the field that the nodes of the group select, below the object at the path. -/
def ComesTo (plan : Plan) (path : ResponsePath) (field : FieldDefinition) (group : FieldGroup) :
    Prop :=
  ∃ place object groups value, plan.place? path = some place ∧
    plan.view place path = .fields object groups value ∧ group ∈ groups ∧
    group.first.node.name ≠ "__typename" ∧ object.field? group.first.node.name = some field

/-- The run comes to a field that its object does not have. -/
def ComesToUndefined (plan : Plan) : Prop :=
  ∃ path object node, plan.place? path = some (.undefined object node)

private theorem ComesTo.failed {path : ResponsePath} {field : FieldDefinition} {group : FieldGroup}
    (h : plan.ComesTo path field group) {fault : ExecutionFault}
    (hfault : plan.bindArguments field.arguments group.first.node.arguments = .error fault) :
    ∃ place, plan.place? (path.child (.field group.key)) = some place ∧
      plan.view place (path.child (.field group.key)) =
        .failed (.ofFault fault group.first.node.position) := by
  obtain ⟨place, object, groups, value, hplace, hview, hgroup, hname, hfield⟩ := h
  obtain ⟨i, hi⟩ := List.mem_iff_getElem?.1 hgroup
  have hchild := (getElem?_inside_fields hview).2 ⟨group, hi, rfl, rfl⟩
  refine ⟨_, place?_child hplace (lookup_inside hchild), ?_⟩
  have hanswer : plan.answer object field value group.first.node
      (path.child (.field group.key)) = .error fault := by
    rw [answer, producer, hfault]
    rfl
  have hfatal := Bindings.not_fatal_of_bindArguments hfault
  rw [placeOf_field hname hfield, hanswer, view, View.ofFault, hfatal]
  rfl

variable {schema : ExecutableSchema} {settings : Settings} {request : Request}

private theorem ComesTo.error_mem_of_execute (hwell : schema.toTypeSystem.WellFormed)
    (hplan : ofRequest schema settings request = .ok plan) {path : ResponsePath}
    {field : FieldDefinition} {group : FieldGroup} (h : plan.ComesTo path field group)
    {fault : ExecutionFault}
    (hfault : plan.bindArguments field.arguments group.first.node.arguments = .error fault) :
    (∃ response, (execute schema settings request).value = .ok response ∧
      .ofFieldFault fault group.first.node.position (path.child (.field group.key)) ∈
        response.errors) ∨ plan.ComesToUndefined := by
  cases hexecute : (execute schema settings request).value with
  | error other =>
    have hrun : plan.run.value = .error other := by rw [← hexecute, execute, hplan]
    exact .inr ((run_error_iff hwell hplan).1.1 ⟨other, hrun⟩)
  | ok response =>
    obtain ⟨_, completion, data, hplan', hcompletes, -, rfl⟩ := exists_completes_of_execute hexecute
    obtain rfl := Except.ok.inj (hplan.symm.trans hplan')
    obtain ⟨place, hplace, hview⟩ := h.failed hfault
    exact .inl ⟨_, rfl, hcompletes.error_mem hplace hview⟩

private theorem execute_of_variable {operation : Operation} {rootType : ObjectType}
    (hselect : request.document.operations.select request.operationName = .ok operation)
    (hroot : rootTypeOf schema.toTypeSystem operation = .ok rootType) {fault : ExecutionFault}
    (hfault : request.inputs.coerce schema.toSchema operation.definitions = .error fault) :
    execute schema settings request = .done (.error fault) := by
  have hplan : ofRequest schema settings request = .error fault := by
    simp only [ofRequest, hselect, hroot, hfault, Except.mapError, bind, Except.bind]
  rw [execute, hplan]

end

end Plan

/-- The parameter gets the result for the value, as a literal or through a variable. -/
structure Parameter.Receives (parameter : Parameter) (schema : Schema) (value result : Value) :
    Prop where
  ofLiteral : ∀ values arguments, parameter.Written arguments (.ofValue value) →
    Bindings.bindParameter { schema, values } arguments parameter = .ok result
  ofVariable : ∀ (inputs : Variables) (before after : List VariableDefinition)
    (definition : VariableDefinition), definition.type = parameter.type →
    definition.Holds inputs value → (∀ earlier ∈ before, earlier.Accepts schema inputs) →
    (∀ later ∈ after, later.Accepts schema inputs ∧ later.name ≠ definition.name) →
    ∃ values, inputs.coerce schema (before ++ definition :: after) = .ok values ∧
      ∀ arguments, parameter.Written arguments (.variable definition.name) →
        Bindings.bindParameter { schema, values } arguments parameter = .ok result

namespace SchemaDraft

/-- All routes of the value to the parameter lead to the result: also with the value as its default,
which is settled when the draft is finished, and bound where nothing is written. -/
structure RoutesAgree (draft : SchemaDraft) (schema : ExecutableSchema) (place : ParameterPlace)
    (referrer : Referrer) (parameter : Parameter) (value result : Value) : Prop where
  receives : parameter.Receives schema.toSchema value result
  finish : (draft.withDefault place value).finish = .ok (schema.withDefault place result)
  find? : place.find? (schema.withDefault place result).types
      (schema.withDefault place result).directives =
    some (referrer, parameter.withDefault result)
  receives_default :
    (parameter.withDefault result).Receives (schema.withDefault place result).toSchema value result
  omitted : ∀ values arguments, parameter.Omitted arguments →
    Bindings.bindParameter { schema := (schema.withDefault place result).toSchema, values }
      arguments (parameter.withDefault result) = .ok result

/-- All routes of the value to the parameter fail with the same source. -/
structure RoutesFail (draft : SchemaDraft) (schema : ExecutableSchema) (place : ParameterPlace)
    (referrer : Referrer) (parameter : Parameter) (value : Value) (source : InputFault) : Prop where
  /-- A literal is an invalid argument. -/
  ofLiteral : ∀ values arguments, parameter.Written arguments (.ofValue value) →
    Bindings.bindParameter { schema := schema.toSchema, values } arguments parameter =
      .error (.coercion (.invalidArgument parameter.name source))
  /-- The invalid argument is recorded at its field, and does not keep the run from returning a
  response. -/
  field : ∀ settings request plan path field group before after,
    Plan.ofRequest schema settings request = .ok plan → plan.ComesTo path field group →
    field.arguments = before ++ parameter :: after →
    Bindings.undeclared? field.arguments group.first.node.arguments = none →
    (∀ earlier ∈ before, ∃ bound,
      plan.bindParameter group.first.node.arguments earlier = .ok bound) →
    parameter.Written group.first.node.arguments (.ofValue value) →
    (∃ response, (execute schema settings request).value = .ok response ∧
      .ofFieldFault (.coercion (.invalidArgument parameter.name source))
        group.first.node.position (path.child (.field group.key)) ∈ response.errors) ∨
      plan.ComesToUndefined
  /-- A variable fails the request, and nothing is executed. -/
  ofVariable : ∀ settings request operation before after definition,
    request.document.operations.select request.operationName = .ok operation →
    operation.kind = .query → operation.definitions = before ++ definition :: after →
    (∀ earlier ∈ before, earlier.Accepts schema.toSchema request.inputs) →
    definition.type = parameter.type → definition.Holds request.inputs value →
    execute schema settings request =
      .done (.error (.variable definition.name definition.position source))
  /-- A default fails the draft. -/
  finish : (draft.withDefault place value).finish = .error (.invalidDefaultValue referrer source)

end SchemaDraft

section

variable {draft : SchemaDraft} {schema : ExecutableSchema} {place : ParameterPlace}
  {referrer : Referrer} {parameter : Parameter} {value : Value}

private theorem receives_of_coerce (hfinish : draft.finish = .ok schema)
    (htranslator : schema.translator = .standard)
    (hplace : place.find? schema.types schema.directives = some (referrer, parameter))
    (hfree : value.ObjectFree) {result : Value}
    (hcoerce : schema.coerce parameter.type value = .ok result) :
    parameter.Receives schema.toSchema value result := by
  have hinput := SchemaDraft.isInput_of_finish hfinish hplace
  constructor
  case ofLiteral =>
    intro values arguments hwritten
    rw [Bindings.bindParameter_of_literal htranslator hfree hwritten, hcoerce]
    rfl
  case ofVariable =>
    intro inputs before after definition htype hholds hbefore hafter
    have hvalue : definition.coerce schema.toSchema inputs = .ok result := by
      rw [hholds.coerce_eq (htype ▸ hinput), htype, hcoerce]
      rfl
    obtain ⟨values, hvalues, hget⟩ := Variables.exists_coerce_eq_ok hvalue hbefore
      (fun later hmem => (hafter later hmem).1) (fun later hmem => (hafter later hmem).2)
    exact ⟨values, hvalues, fun arguments hwritten =>
      Bindings.bindParameter_of_variable htranslator hwritten hget hcoerce⟩

private theorem finish_of_default (hfinish : draft.finish = .ok schema)
    (htranslator : schema.translator = .standard)
    (hplace : place.find? schema.types schema.directives = some (referrer, parameter))
    (value : Value) :
    (draft.withDefault place value).finish = schema.withDefault place <$>
      (schema.coerce parameter.type value).mapError (.invalidDefaultValue referrer) := by
  have hdraft : draft.translator = .standard := by
    rw [← (SchemaDraft.finished_of_finish hfinish).translator, htranslator]
  obtain ⟨declared, hdeclared, -, hsame⟩ := SchemaDraft.exists_find?_of_finish hfinish hplace
  rw [← hsame]
  exact SchemaDraft.finish_withDefault hfinish hdraft hdeclared value

private theorem routesAgree_of_coerce (hfinish : draft.finish = .ok schema)
    (htranslator : schema.translator = .standard)
    (hplace : place.find? schema.types schema.directives = some (referrer, parameter))
    (hfree : value.ObjectFree) {result : Value}
    (hcoerce : schema.coerce parameter.type value = .ok result) :
    draft.RoutesAgree schema place referrer parameter value result := by
  have hsettled : (draft.withDefault place value).finish =
      .ok (schema.withDefault place result) := by
    rw [finish_of_default hfinish htranslator hplace, hcoerce]
    rfl
  have hfind : place.find? (schema.withDefault place result).types
      (schema.withDefault place result).directives =
        some (referrer, parameter.withDefault result) := by
    rw [ExecutableSchema.withDefault, ParameterPlace.find?_modify, hplace, Option.map_some]
  constructor
  case receives => exact receives_of_coerce hfinish htranslator hplace hfree hcoerce
  case finish => exact hsettled
  case find? => exact hfind
  case receives_default =>
    refine receives_of_coerce hsettled htranslator hfind hfree ?_
    rw [schema.coerce_withDefault htranslator]
    exact hcoerce
  case omitted =>
    intro values arguments homitted
    have homitted' : (parameter.withDefault result).Omitted arguments := homitted
    exact Bindings.bindParameter_of_omitted homitted' rfl

private theorem routesFail_of_coerce (hfinish : draft.finish = .ok schema)
    (htranslator : schema.translator = .standard)
    (hplace : place.find? schema.types schema.directives = some (referrer, parameter))
    (hfree : value.ObjectFree) {source : InputFault}
    (hcoerce : schema.coerce parameter.type value = .error source) :
    draft.RoutesFail schema place referrer parameter value source := by
  have hwell := SchemaDraft.wellFormed_of_finish hfinish
  constructor
  case ofLiteral =>
    intro values arguments hwritten
    rw [Bindings.bindParameter_of_literal htranslator hfree hwritten, hcoerce]
    rfl
  case field =>
    intro settings request plan path field group before after hplan hcomes harguments hdeclared
      hbefore hwritten
    refine hcomes.error_mem_of_execute hwell hplan ?_
    rw [harguments] at hdeclared ⊢
    refine Bindings.bindArguments_eq_error hdeclared hbefore ?_
    have hschema : plan.schema = schema.toSchema := (Plan.accepted_of_ofRequest hplan).1
    have hplanTranslator : plan.schema.translator = .standard := by rw [hschema, htranslator]
    rw [Bindings.bindParameter_of_literal hplanTranslator hfree hwritten, hschema, hcoerce]
    rfl
  case ofVariable =>
    intro settings request operation before after definition hselect hkind hdefinitions hbefore
      htype hholds
    obtain ⟨rootType, hquery⟩ := hwell.query
    have hroot : Plan.rootTypeOf schema.toTypeSystem operation = .ok rootType := by
      simp only [Plan.rootTypeOf, hkind, hquery]
    have hinput := SchemaDraft.isInput_of_finish hfinish hplace
    have hfault : definition.coerce schema.toSchema request.inputs =
        .error (.variable definition.name definition.position source) := by
      rw [hholds.coerce_eq (htype ▸ hinput), htype, hcoerce]
      rfl
    refine Plan.execute_of_variable hselect hroot ?_
    rw [hdefinitions]
    exact Variables.coerce_eq_error hfault hbefore
  case finish =>
    rw [finish_of_default hfinish htranslator hplace, hcoerce]
    rfl

/-- The routes of a value to a parameter agree. If the coercion of the value gives a result, then
the parameter gets this result for a literal, for a variable of its type that is supplied or has a
default, and for the parameter's own default where nothing is written. If it gives a fault, then a
literal is an invalid argument of its field, a variable fails the request, and a default fails the
draft, all of them with this fault. -/
theorem routes_of_finish (hfinish : draft.finish = .ok schema)
    (htranslator : schema.translator = .standard)
    (hplace : place.find? schema.types schema.directives = some (referrer, parameter))
    (hfree : value.ObjectFree) :
    (∀ result, schema.coerce parameter.type value = .ok result →
      draft.RoutesAgree schema place referrer parameter value result) ∧
    ∀ source, schema.coerce parameter.type value = .error source →
      draft.RoutesFail schema place referrer parameter value source :=
  ⟨fun _ => routesAgree_of_coerce hfinish htranslator hplace hfree,
    fun _ => routesFail_of_coerce hfinish htranslator hplace hfree⟩

end

def sizesParameter : Parameter := ⟨"sizes", .list (.named "Size" false) false, none, none⟩

/-- A single name becomes a list of one size on all routes, and fails on all of them if there is no
size of the name. -/
theorem routes_sizesParameter :
    countDraft.RoutesAgree countSchema (.field 6 0 1) (.argument "Query" "count" "sizes")
        sizesParameter (.string "LARGE") (.list [.enum "LARGE"]) ∧
      countDraft.RoutesFail countSchema (.field 6 0 1) (.argument "Query" "count" "sizes")
        sizesParameter (.list [.enum "SMALL", .string "HUGE"])
        (.unknownEnumValue "Size" "HUGE" [1]) := by
  have hfinish : countDraft.finish = .ok countSchema := rfl
  have hplace : (ParameterPlace.field 6 0 1).find? countSchema.types countSchema.directives =
      some (.argument "Query" "count" "sizes", sizesParameter) := rfl
  have hfree : (Value.list [.enum "SMALL", .string "HUGE"]).ObjectFree := by
    refine .list fun item hmem => ?_
    rcases List.mem_cons.1 hmem with rfl | hmem
    · exact .enum
    · exact List.mem_singleton.1 hmem ▸ .string
  exact ⟨(routes_of_finish hfinish rfl hplace .string).1 _ rfl,
    (routes_of_finish hfinish rfl hplace hfree).2 _ rfl⟩

end GraphQuery
