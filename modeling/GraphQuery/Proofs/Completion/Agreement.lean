import GraphQuery.Proofs.Completion.Accepted
import GraphQuery.Proofs.Selection.Agreement

/-!
# Agreeing executions

Two schemas whose resolvers and directives do the same with all arguments that are bound. Main
statement: executions with them return the same, however long resolvers and hooks take and in
whichever order siblings are run.
-/

namespace GraphQuery

/-- The schemas differ at most in what resolvers and directives do with arguments that are not
admissible, and in how long they take. -/
structure ExecutableSchema.Agrees (admissible : Admissible) (schema other : ExecutableSchema) :
    Prop where
  toSchema : schema.toSchema.Agrees admissible other.toSchema
  resolvers : ∀ object, .object object ∈ schema.types → ∀ field ∈ object.fields,
    ∀ path parent arguments, admissible field.arguments arguments →
      (other.resolvers object.name field.name).answer path
          { fieldName := field.name, parent, arguments } =
        (schema.resolvers object.name field.name).answer path
          { fieldName := field.name, parent, arguments }

namespace Plan

/-- The plans are of one request, for schemas that agree but for their resolvers. -/
structure Matches (admissible : Admissible) (plan other : Plan) : Prop where
  bindings : plan.toBindings.Agrees admissible other.toBindings
  fragments : other.fragments = plan.fragments
  operation : other.operation = plan.operation
  rootType : other.rootType = plan.rootType
  root : other.root = plan.root

/-- Besides, their resolvers differ at most in what they do with arguments that are not
admissible. -/
structure Agrees (admissible : Admissible) (plan other : Plan) : Prop
    extends plan.Matches admissible other where
  resolvers : ∀ object, .object object ∈ plan.system.types → ∀ field ∈ object.fields,
    ∀ path parent arguments, admissible field.arguments arguments →
      (other.schema.resolvers object.name field.name).answer path
          { fieldName := field.name, parent, arguments } =
        (plan.schema.resolvers object.name field.name).answer path
          { fieldName := field.name, parent, arguments }

/-- An object that stands at the place is one of the schema. -/
def Known (plan : Plan) : Place → Prop
  | .level object _ _ => .object object ∈ plan.system.types
  | _ => True

section

variable {admissible : Admissible} {plan other : Plan} {path : ResponsePath}

private theorem Known.object {place : Place} {object : ObjectType}
    {selections : List (List Selection)}
    {value : Json} (hknown : plan.Known place)
    (hat : plan.ObjectAt place path object selections value) :
    .object object ∈ plan.system.types := by
  cases hat with
  | level => exact hknown
  | object _ hget => exact List.mem_of_find?_eq_some hget
  | abstract _ _ _ hruntime =>
    obtain ⟨⟨name, hobject⟩, -⟩ := possible_of_runtimeType hruntime
    exact TypeSystem.mem_of_object? hobject

private theorem known_of_leads {place child : Place} (hleads : plan.Leads place path child) :
    plan.Known child := by
  cases hleads with
  | item => trivial
  | field =>
    simp only [placeOf]
    split
    · trivial
    · split <;> trivial

private theorem Matches.scope (h : plan.Matches admissible other) :
    plan.toScope.Agrees other.toScope :=
  ⟨h.bindings.schema.system, h.fragments, h.bindings.keeps⟩

theorem Matches.rootPlace_eq (h : plan.Matches admissible other) :
    other.rootPlace = plan.rootPlace := by
  rw [rootPlace, rootPlace, h.rootType, h.operation, h.root]

theorem Matches.view_eq (h : plan.Matches admissible other) : other.view = plan.view := by
  have hlevel : other.levelView = plan.levelView := by
    funext object selections value
    rw [levelView, levelView, h.scope.collect]
  have hruntime : other.runtimeType = plan.runtimeType := by
    funext site type value path
    simp only [runtimeType, h.scope.system]
  have hnamed : other.namedView = plan.namedView := by
    funext site name value path
    simp only [namedView, h.scope.system, hlevel, hruntime, h.bindings.schema.leaf]
  funext place path
  cases place with
  | level object selections value => exact congrFun (congrFun (congrFun hlevel _) _) _
  | undefined object node => rfl
  | typename object position produced => cases produced <;> rfl
  | value site type produced =>
    cases produced with
    | error fault => rfl
    | ok value => simp only [view, valueView, hnamed]

theorem Matches.typenameAnswer_eq (h : plan.Matches admissible other) (object : ObjectType)
    (parent : Json) (node : FieldNode) :
    other.typenameAnswer object parent node = plan.typenameAnswer object parent node := by
  have hvalues (plan : Plan) : plan.typenameAnswer object parent node = (do
      (← Future.value <$> plan.wrapProducer (.done (.ok (.string object.name))) parent
        node.directives).mapError .resolver) := by
    unfold typenameAnswer
    cases plan.wrapProducer (.done (.ok (.string object.name))) parent node.directives <;> rfl
  rw [hvalues, hvalues, Bindings.map_value_wrapProducer, Bindings.map_value_wrapProducer,
    h.bindings.answers]

theorem Matches.answer_eq (h : plan.Matches admissible other) {object : ObjectType}
    {field : FieldDefinition} {parent : Json} {node : FieldNode}
    (hanswer : ∀ arguments, plan.bindArguments field.arguments node.arguments = .ok arguments →
      (other.schema.resolvers object.name field.name).answer path
          { fieldName := field.name, parent, arguments } =
        (plan.schema.resolvers object.name field.name).answer path
          { fieldName := field.name, parent, arguments }) :
    other.answer object field parent node path = plan.answer object field parent node path := by
  rw [answer_of_producer, answer_of_producer, map_value_producer, map_value_producer,
    h.bindings.bindArguments]
  cases hbound : plan.bindArguments field.arguments node.arguments with
  | error fault => rfl
  | ok arguments =>
    simp only [bind, Except.bind, hanswer arguments hbound]
    rw [h.bindings.answers]

private theorem Agrees.placeOf_eq (h : plan.Agrees admissible other) {object : ObjectType}
    (hobject : .object object ∈ plan.system.types) (parent : Json) (group : FieldGroup) :
    other.placeOf object parent path group = plan.placeOf object parent path group := by
  by_cases hname : group.first.node.name = "__typename"
  · rw [placeOf_typename hname, placeOf_typename hname, h.typenameAnswer_eq]
  · cases hfield : object.field? group.first.node.name with
    | none => rw [placeOf_undefined hname hfield, placeOf_undefined hname hfield]
    | some field =>
      have hmem : field ∈ object.fields := List.mem_of_find?_eq_some hfield
      rw [placeOf_field hname hfield, placeOf_field hname hfield, h.answer_eq]
      intro arguments hbound
      exact h.resolvers object hobject field hmem _ parent arguments
        (h.bindings.ensures _ _ _ _ (.field hobject hmem) hbound)

private theorem Agrees.inside_eq (h : plan.Agrees admissible other) {place : Place}
    (hknown : plan.Known place) : other.inside place path = plan.inside place path := by
  have hshows := plan.shows_view place path
  rw [inside, inside, h.view_eq]
  cases hview : plan.view place path with
  | value | failed | fatal | items => rfl
  | fields object groups value =>
    rw [hview] at hshows
    cases hshows with
    | fields hat =>
      refine List.map_congr_left fun group _ => ?_
      rw [h.placeOf_eq (hknown.object hat)]

private theorem Agrees.completion_eq (h : plan.Agrees admissible other) {place : Place}
    {path : ResponsePath} {completion completion' : Completion}
    (hcompletes : plan.Completes place path completion)
    (hcompletes' : other.Completes place path completion') (hknown : plan.Known place) :
    completion' = completion := by
  have htransfer : other.Completes place path completion :=
    hcompletes.transfer plan.Known (fun place path _ => by rw [h.view_eq])
      (fun _ _ => h.inside_eq) (fun _ _ _ _ => known_of_leads) hknown
  exact htransfer.eq hcompletes'

variable {schema same : ExecutableSchema} {settings settings' : Settings}

private theorem coerce_eq_of_agrees (h : schema.toSchema.Agrees admissible same.toSchema)
    (inputs : Variables) :
    inputs.coerce same.toSchema = inputs.coerce schema.toSchema := by
  have hdefinition (definition : VariableDefinition) :
      definition.coerce same.toSchema inputs = definition.coerce schema.toSchema inputs := by
    simp only [VariableDefinition.coerce, h.system, h.coerce]
  funext definitions
  simp only [Variables.coerce, hdefinition]

theorem matches_of_ofRequest (h : schema.toSchema.Agrees admissible same.toSchema)
    (hensures : schema.toSchema.Ensures admissible)
    (hdepth : settings'.maxDepth = settings.maxDepth) (request : Request) :
    Related (Matches admissible) (ofRequest schema settings request)
      (ofRequest same settings' request) := by
  rw [ofRequest_eq, ofRequest_eq, h.system, coerce_eq_of_agrees h]
  refine (Related.of_eq rfl).bind fun operation _ hoperation => ?_
  subst hoperation
  refine (Related.of_eq rfl).bind fun rootType _ hroot => ?_
  subst hroot
  refine (Related.of_eq rfl).bind fun values _ hvalues => ?_
  subst hvalues
  have hbindings : Bindings.Agrees admissible ⟨schema.toSchema, values⟩ ⟨same.toSchema, values⟩ :=
    ⟨h, rfl, hensures⟩
  have hscope : Scope.Agrees ⟨⟨schema.toSchema, values⟩, request.document.fragments⟩
      ⟨⟨same.toSchema, values⟩, request.document.fragments⟩ :=
    ⟨h.system, rfl, hbindings.keeps⟩
  refine (hbindings.bindDirectives .query operation.directives).bind fun _ _ _ => ?_
  refine Related.bind (R := Eq) (related_forM fun definition _ => ?_) fun _ _ _ => ?_
  · have hbound := hbindings.bindDirectives .variableDefinition definition.directives
    exact hbound.bind fun _ _ _ => .of_eq rfl
  refine (Related.of_eq (congrFun (congrFun hscope.depth.symm _) _)).bind fun depth _ hequal => ?_
  subst hequal
  have hcheck : checkDepth settings' operation depth = checkDepth settings operation depth := by
    rw [checkDepth, checkDepth, hdepth]
  rw [hcheck]
  refine (Related.of_eq rfl).bind fun _ _ _ => ?_
  exact .ok ⟨hbindings, rfl, rfl, rfl, rfl⟩

end

end Plan

/-- Executions with agreeing schemas return the same, whatever the limits and the schedules. -/
theorem value_executeUnder_of_agrees {admissible : Admissible} {schema other : ExecutableSchema}
    (h : schema.Agrees admissible other) (hensures : schema.toSchema.Ensures admissible)
    {settings settings' : Settings} (hdepth : settings'.maxDepth = settings.maxDepth)
    (buffering buffering' : Future.Buffering ResponsePath Event Completion) (request : Request) :
    (executeUnder buffering' other settings' request).value =
      (executeUnder buffering schema settings request).value := by
  have hplans := Plan.matches_of_ofRequest h.toSchema hensures hdepth request
  unfold executeUnder
  cases hplan : Plan.ofRequest schema settings request with
  | error fault =>
    rw [hplan] at hplans
    generalize Plan.ofRequest other settings' request = result at hplans
    cases hplans
    rfl
  | ok plan =>
    cases hplan' : Plan.ofRequest other settings' request with
    | error fault =>
      rw [hplan, hplan'] at hplans
      cases hplans
    | ok plan' =>
      rw [hplan, hplan'] at hplans
      cases hplans with
      | ok hmatches =>
        obtain ⟨hschema, -, hroot, haccepted⟩ := Plan.accepted_of_ofRequest hplan
        obtain ⟨hschema', -, -, haccepted'⟩ := Plan.accepted_of_ofRequest hplan'
        have hagrees : plan.Agrees admissible plan' := by
          refine ⟨hmatches, ?_⟩
          rw [Scope.system, hschema, hschema']
          exact h.resolvers
        obtain ⟨completion, hcompletes, hrun⟩ := Plan.completes_runUnder buffering haccepted
        obtain ⟨completion', hcompletes', hrun'⟩ := Plan.completes_runUnder buffering' haccepted'
        have hknown : plan.Known plan.rootPlace := by
          rw [← hschema] at hroot
          exact TypeSystem.mem_of_object? hroot
        rw [hmatches.rootPlace_eq] at hcompletes'
        rw [hrun, hrun', hagrees.completion_eq hcompletes hcompletes' hknown]

end GraphQuery
