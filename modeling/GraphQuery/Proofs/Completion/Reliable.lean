import GraphQuery.Proofs.Binding.KnownInputs
import GraphQuery.Proofs.Completion.Leaves
import GraphQuery.Proofs.Completion.Reached
import GraphQuery.Proofs.Completion.Typed
import GraphQuery.Proofs.Selection.Breaks

/-!
# Excluded faults

What the checks of a draft and the acceptance of a request exclude for good. Main statement: with
the standard translator coercion always finds input types, queries have a root and the walk finds
the type of every field; a run finds the types of its values, collects whatever it selects, wraps
what it produces, and fails at nothing but a field that an object does not have.
-/

namespace GraphQuery

/-- The operation reaches everything in the selections. -/
def Operation.ReachesAll (operation : Operation) (fragments : List Fragment)
    (selections : List (List Selection)) : Prop :=
  ∀ list ∈ selections, ∀ selection ∈ list, operation.Reaches fragments selection

/-- What cannot go wrong any more when a plan runs. -/
structure Plan.Reliable (plan : Plan) : Prop where
  /-- The run finds its root again. -/
  root : rootTypeOf plan.system plan.operation = .ok plan.rootType
  /-- Whatever the operation reaches can be collected, on any object and with any selections merged.
  A group has fields, which the operation reaches again and whose directives can wrap a producer. -/
  collects : ∀ object selections, plan.operation.ReachesAll plan.fragments selections →
    ∃ groups, plan.collect object selections = .ok groups ∧
      ∀ group ∈ groups, group.fields ≠ [] ∧ ∀ field ∈ group.fields,
        plan.operation.Reaches plan.fragments (.field field.node field.selections) ∧
          ∀ producer parent, ∃ wrapped,
            plan.wrapProducer producer parent field.node.directives = .ok wrapped
  /-- At every level the operation reaches what is selected. -/
  levels : ∀ path place object selections value, plan.place? path = some place →
    plan.ObjectAt place path object selections value →
    plan.operation.ReachesAll plan.fragments selections
  /-- The types of fields and items are known. -/
  types : ∀ path site type produced, plan.place? path = some (.value site type produced) →
    ∃ found, plan.system.innermost? type = some found
  /-- Nothing is fatal but a field that its object does not have. -/
  views : ∀ path place fault, plan.place? path = some place → plan.view place path = .fatal fault →
    ∃ object node, place = .undefined object node
  /-- A run fails exactly if it comes to such a field, and reports one. -/
  runs : ∀ buffering : Future.Buffering ResponsePath Event Completion,
    ((∃ fault, (plan.runUnder (buffering.gather plan.limit)).value = .error fault) ↔
      ∃ path object node, plan.place? path = some (.undefined object node)) ∧
    ∀ fault, (plan.runUnder (buffering.gather plan.limit)).value = .error fault →
      ∃ path object node, plan.place? path = some (.undefined object node) ∧
        fault = .validation (.unknownField node.name object node.position)

/-- What cannot go wrong under a schema. -/
structure ExecutableSchema.Reliable (schema : ExecutableSchema) : Prop where
  /-- Variables are coerced into input types only. -/
  inputs : ∀ supplied definitions,
    FailsOnly ExecutionFault.Known (Variables.coerce supplied schema.toSchema definitions)
  /-- So are the arguments of fields and of directives. -/
  arguments : ∀ values parameters uses, schema.toSchema.Declares parameters →
    FailsOnly ExecutionFault.Known
      (Bindings.bindArguments { schema := schema.toSchema, values } parameters uses)
  /-- Only operations of another kind have no root. -/
  root : ∀ operation violation, Plan.rootTypeOf schema.toTypeSystem operation = .error violation →
    operation.kind ≠ .query ∧
      violation = .unsupportedOperation operation.kind operation.position
  /-- The walk does not miss the root that it has found. -/
  walkRoot : ∀ operation root, Plan.rootTypeOf schema.toTypeSystem operation = .ok root →
    schema.get? root.name = some (.object root)
  /-- The walk knows the types of all fields that it can come to. -/
  fields : ∀ (scope : Scope) root operation parent set name definition,
    scope.schema = schema.toSchema → schema.query? = some root →
    scope.Reachable (.object root) operation parent set →
    parent.field? name = some definition →
    ∃ type, scope.system.innermost? definition.type = some type
  /-- The walk fails only where a selection breaks a rule. -/
  walk : ∀ (scope : Scope) root operation fault, scope.schema = schema.toSchema →
    schema.query? = some root → scope.depth (.object root) operation = .error fault →
    ∃ parent selection, scope.Reached (.object root) operation parent selection ∧
      scope.Breaks parent selection fault
  /-- How values of types that are no leaves would be serialized does not matter. -/
  leaves : ∀ other : ExecutableSchema, schema.toSchema.SameLeaves other.toSchema →
    other.delays = schema.delays →
    ∀ (buffering : Future.Buffering ResponsePath Event Completion) settings request,
      executeUnder buffering other settings request =
        executeUnder buffering schema settings request
  plans : ∀ settings request plan, Plan.ofRequest schema settings request = .ok plan →
    plan.Reliable

namespace Plan

variable {plan : Plan}

/-- The operation reaches what is selected at the place. -/
def SelectsReached (plan : Plan) : Place → Prop
  | .level _ selections _ => plan.operation.ReachesAll plan.fragments selections
  | .value site _ _ => plan.operation.ReachesAll plan.fragments site.selections
  | _ => True

private theorem SelectsReached.objectAt {place : Place} {path : ResponsePath} {object : ObjectType}
    {selections : List (List Selection)} {value : Json} (h : plan.SelectsReached place)
    (hat : plan.ObjectAt place path object selections value) :
    plan.operation.ReachesAll plan.fragments selections := by
  cases hat with
  | level | object | abstract => exact h

section

variable (haccepted : plan.Accepted)

include haccepted

private theorem collect_of_reachesAll (object : String) {selections : List (List Selection)}
    (h : plan.operation.ReachesAll plan.fragments selections) :
    ∃ groups, plan.collect object selections = .ok groups ∧
      ∀ group ∈ groups, ∀ field ∈ group.fields,
        plan.operation.Reaches plan.fragments (.field field.node field.selections) := by
  have hoperation := Scope.valid_of_depth_eq_ok haccepted.depth
  have hvalid : ∀ list ∈ selections, ∀ selection ∈ list,
      ∃ parent depth, plan.Valid parent depth selection := fun list hlist selection hmem =>
    Scope.exists_valid_of_reaches hoperation (h list hlist selection hmem)
  obtain ⟨fields, hfields⟩ := Scope.exists_flattens hvalid object
  have hcollect := Scope.collect_eq_of_flattens hvalid hfields
  have hsame : plan.operation.SameFragments plan.fragments plan.fragments := fun _ _ => rfl
  exact ⟨_, hcollect, (Scope.collect_withFragments hsame hvalid h object).2 _ hcollect⟩

private theorem exists_wrapProducer_of_reaches {node : FieldNode} {selections : List Selection}
    (h : plan.operation.Reaches plan.fragments (.field node selections)) (producer : Producer)
    (parent : Json) :
    ∃ wrapped, plan.wrapProducer producer parent node.directives = .ok wrapped := by
  obtain ⟨_, _, hvalid⟩ :=
    Scope.exists_valid_of_reaches (Scope.valid_of_depth_eq_ok haccepted.depth) h
  obtain ⟨⟨kept, hkeeps⟩, -⟩ := keeps_of_valid hvalid
  exact Bindings.exists_wrapProducer_of_keeps hkeeps producer parent

/-- The step of the invariant: to an item with the selections of its list, or to a field with what
its group selects. -/
private theorem SelectsReached.leads {place child : Place} {path : ResponsePath}
    (h : plan.SelectsReached place) (hleads : plan.Leads place path child) :
    plan.SelectsReached child := by
  cases hleads with
  | item => exact h
  | @field place path object selections value groups group hat hcollect hgroup =>
    obtain ⟨found, hfound, hfields⟩ := collect_of_reachesAll haccepted object.name (h.objectAt hat)
    obtain rfl := Except.ok.inj (hcollect.symm.trans hfound)
    simp only [placeOf]
    split
    · trivial
    · split
      · trivial
      · exact Operation.reaches_selections (hfields group hgroup)

private theorem selectsReached_of_place {path : ResponsePath} {place : Place}
    (hplace : plan.place? path = some place) : plan.SelectsReached place := by
  have hroot : plan.SelectsReached plan.rootPlace := (fitsReached_operation haccepted).2
  exact place_induction hroot (fun _ _ _ _ h hleads => h.leads haccepted hleads) hplace

end

private theorem reliable_of_ofRequest {schema : ExecutableSchema} {settings : Settings}
    {request : Request}
    (hwell : schema.toTypeSystem.WellFormed)
    (hplan : ofRequest schema settings request = .ok plan) : plan.Reliable := by
  obtain ⟨-, -, -, haccepted⟩ := accepted_of_ofRequest hplan
  constructor
  case root => exact haccepted.root
  case collects =>
    intro object selections hreached
    obtain ⟨groups, hcollect, hfields⟩ := collect_of_reachesAll haccepted object hreached
    refine ⟨groups, hcollect, fun group hgroup => ⟨List.cons_ne_nil _ _, fun field hfield => ?_⟩⟩
    have hfield' := hfields group hgroup field hfield
    exact ⟨hfield', exists_wrapProducer_of_reaches haccepted hfield'⟩
  case levels =>
    intro path place object selections value hplace hat
    exact (selectsReached_of_place haccepted hplace).objectAt hat
  case types =>
    intro path site type produced hplace
    have hsane : plan.Sane (.value site type produced) := sane_of_ofRequest hwell hplan hplace
    exact hsane.1
  case views =>
    intro path place fault hplace hview
    have hsane : plan.Sane place := sane_of_ofRequest hwell hplan hplace
    obtain ⟨object, node, heq, -⟩ := hsane.undefined_of_fatal hview
    exact ⟨object, node, heq⟩
  case runs => exact runUnder_error_iff hwell hplan

private theorem unsupported_of_rootTypeOf {system : TypeSystem}
    (hquery : ∃ object, system.query? = some object)
    {operation : Operation} {violation : Violation}
    (h : rootTypeOf system operation = .error violation) :
    operation.kind ≠ .query ∧
      violation = .unsupportedOperation operation.kind operation.position := by
  obtain ⟨object, hobject⟩ := hquery
  unfold rootTypeOf at h
  split at h
  · rw [hobject] at h
    cases h
  · next hkind =>
    cases h
    exact ⟨hkind, rfl⟩

end Plan

/-- What the checks exclude does not happen. With the standard translator a draft never fails with a
default whose type is no input type, and under its schema neither do variables and arguments; the
walk of an operation fails at broken rules only; and the run of an accepted plan, whatever resolvers
answer, has all types, collects and wraps whatever it comes to, serializes leaves only and fails at
nothing but a field that an object does not have. -/
theorem reliable_of_finish {draft : SchemaDraft} (htranslator : draft.translator = .standard) :
    FailsOnly SchemaFault.Known draft.finish ∧
      ∀ schema, draft.finish = .ok schema → schema.Reliable := by
  refine ⟨SchemaDraft.known_finish htranslator, fun schema hfinish => ?_⟩
  have hwell := SchemaDraft.wellFormed_of_finish hfinish
  have hstandard : schema.translator = .standard :=
    (SchemaDraft.finished_of_finish hfinish).translator.trans htranslator
  constructor
  case inputs => exact fun inputs definitions => inputs.known_coerce hstandard definitions
  case arguments =>
    intro values parameters uses hdeclares
    exact Bindings.known_bindArguments hstandard
      (SchemaDraft.knowsInput_of_declares hfinish hdeclares) uses
  case root => exact fun operation violation => Plan.unsupported_of_rootTypeOf hwell.query
  case walkRoot => exact fun operation root => Plan.get?_of_rootTypeOf
  case fields =>
    intro scope root operation parent set name definition hschema hroot hset hfield
    exact hset.known_field (Scope.wellFormed_of_finish hschema hfinish)
      (Scope.get?_root hschema hroot) hfield
  case walk =>
    intro scope root operation fault hschema hroot hfault
    exact Scope.breaks_of_depth (Scope.wellFormed_of_finish hschema hfinish)
      (Scope.get?_root hschema hroot) hfault
  case leaves => exact fun other => executeUnder_of_sameLeaves
  case plans => exact fun settings request plan => Plan.reliable_of_ofRequest hwell

/-- A page gives the field `link` of its interface another type, which has no field `a`. The walk
accepts it on the type that the interface declares, and the run can fail at nothing else. -/
theorem reliable_linkSchema :
    (linkDraft "B").translator = .standard ∧ (linkDraft "B").finish = .ok (linkSchema "B") ∧
      (linkSchema "B").Reliable ∧
      ∃ plan, Plan.ofRequest (linkSchema "B") .default (linkRequest "a") = .ok plan ∧
        plan.Reliable ∧
        plan.run.value = .error (.validation (.unknownField "a" "B" ⟨1, 17⟩)) := by
  have htranslator : (linkDraft "B").translator = .standard := rfl
  have hfinish : (linkDraft "B").finish = .ok (linkSchema "B") := rfl
  have hreliable : (linkSchema "B").Reliable := (reliable_of_finish htranslator).2 _ hfinish
  have hplan := hreliable.plans .default (linkRequest "a") _ rfl
  exact ⟨htranslator, hfinish, hreliable, _, rfl, hplan, rfl⟩

end GraphQuery
