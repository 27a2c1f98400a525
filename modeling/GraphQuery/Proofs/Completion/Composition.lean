import GraphQuery.Proofs.Completion.Conforms
import GraphQuery.Proofs.Completion.Fatal
import GraphQuery.Proofs.Selection.Composition

/-!
# Composed operations

An operation whose selections are those of two others. Main statement: if the two have no response
key in common, then the execution of the composed operation succeeds exactly if theirs do, and it
returns their errors and their data one after the other.
-/

namespace GraphQuery

/-- The request is one for an operation, with these fragments, variables and root value, whatever
other operations are in its document. -/
structure Request.IsFor (request : Request) (operation : Operation) (fragments : List Fragment)
    (inputs : Variables) (root : Json) : Prop where
  selects : request.document.operations.select request.operationName = .ok operation
  fragments : request.document.fragments = fragments
  inputs : request.inputs = inputs
  root : request.root = root

/-- The response consists of two others. A null in place of the data of either of them is in place
of the data of both. -/
structure Response.Joins (response first second : Response) : Prop where
  errors : response.errors = first.errors ++ second.errors
  data : ((first.data = some .null ∨ second.data = some .null) ∧ response.data = some .null) ∨
    ∃ entries others, first.data = some (.object entries) ∧ second.data = some (.object others) ∧
      response.data = some (.object (entries ++ others))

/-- The execution of a request succeeds exactly if those of two others do, and then its response
consists of theirs. -/
structure Request.Composes (schema : ExecutableSchema) (settings : Settings)
    (request request₁ request₂ : Request) : Prop where
  succeeds : (∃ response, (execute schema settings request).value = .ok response) ↔
    (∃ response₁, (execute schema settings request₁).value = .ok response₁) ∧
      ∃ response₂, (execute schema settings request₂).value = .ok response₂
  joins : ∀ response response₁ response₂, (execute schema settings request).value = .ok response →
    (execute schema settings request₁).value = .ok response₁ →
    (execute schema settings request₂).value = .ok response₂ → response.Joins response₁ response₂

/-- What selections ask of the root has no response key in common. -/
def Scope.KeysDisjoint (schema : ExecutableSchema) (operation : Operation)
    (fragments : List Fragment) (inputs : Variables) (first second : List Selection) : Prop :=
  ∀ values rootType groups others, schema.query? = some rootType →
    inputs.coerce schema.toSchema operation.definitions = .ok values →
    Scope.collect ⟨⟨schema.toSchema, values⟩, fragments⟩ rootType.name [first] = .ok groups →
    Scope.collect ⟨⟨schema.toSchema, values⟩, fragments⟩ rootType.name [second] = .ok others →
    ∀ group ∈ groups, ∀ other ∈ others, group.key ≠ other.key

namespace Plan

open Completion (ofFields)

section

variable {completion : Completion} {completions others : List Completion}
  {keys more : List String} {response first second : Response}

private theorem exists_respond_iff :
    (∃ response, respond completion = .ok response) ↔ ¬ completion.IsFatal := by
  unfold respond Completion.IsFatal
  rcases completion.outcome with (_ | fault) | value <;> simp

private theorem respond_ofFields (h : respond (ofFields keys completions) = .ok response) :
    response.errors = completions.flatMap Completion.errors ∧
      ((∃ completion ∈ completions, completion.Propagates) ∧ response.data = some .null ∨
        ∃ values : List Value, completions.map Completion.outcome = values.map .ok ∧
          response.data = some (.object (keys.zip values))) := by
  have hfatal : ¬ (ofFields keys completions).IsFatal := exists_respond_iff.1 ⟨response, h⟩
  unfold respond at h
  rcases Completion.ok_or_propagates hfatal with ⟨value, hvalue⟩ | hpropagates
  · rw [hvalue] at h
    obtain rfl := Except.ok.inj h
    obtain ⟨values, hvalues, rfl⟩ := map_eq_ok_iff.1 hvalue
    exact ⟨rfl, .inr ⟨values, Completion.outcomes_eq_ok_iff.1 hvalues, rfl⟩⟩
  · rw [hpropagates] at h
    obtain rfl := Except.ok.inj h
    exact ⟨rfl, .inl ⟨Completion.exists_propagates_of_join hpropagates, rfl⟩⟩

private theorem joins_of_respond (hlength : keys.length = completions.length)
    (h : respond (ofFields (keys ++ more) (completions ++ others)) = .ok response)
    (hfirst : respond (ofFields keys completions) = .ok first)
    (hsecond : respond (ofFields more others) = .ok second) : response.Joins first second := by
  obtain ⟨herrors, hdata⟩ := respond_ofFields h
  obtain ⟨herrors₁, hdata₁⟩ := respond_ofFields hfirst
  obtain ⟨herrors₂, hdata₂⟩ := respond_ofFields hsecond
  refine ⟨by rw [herrors, List.flatMap_append, herrors₁, herrors₂], ?_⟩
  rcases hdata with ⟨⟨completion, hmem, hpropagates⟩, hnull⟩ | ⟨values, hvalues, hobject⟩
  · refine .inl ⟨?_, hnull⟩
    rcases List.mem_append.1 hmem with hmem | hmem
    · refine .inl (hdata₁.elim And.right fun ⟨values, hvalues, _⟩ => ?_)
      exact absurd ⟨completion, hmem, hpropagates⟩ (Completion.not_exists_propagates hvalues)
    · refine .inr (hdata₂.elim And.right fun ⟨values, hvalues, _⟩ => ?_)
      exact absurd ⟨completion, hmem, hpropagates⟩ (Completion.not_exists_propagates hvalues)
  · have hnone := Completion.not_exists_propagates hvalues
    rcases hdata₁ with ⟨⟨completion, hmem, hpropagates⟩, -⟩ | ⟨values₁, hvalues₁, hobject₁⟩
    · exact absurd ⟨completion, List.mem_append_left others hmem, hpropagates⟩ hnone
    rcases hdata₂ with ⟨⟨completion, hmem, hpropagates⟩, -⟩ | ⟨values₂, hvalues₂, hobject₂⟩
    · exact absurd ⟨completion, List.mem_append_right completions hmem, hpropagates⟩ hnone
    refine .inr ⟨_, _, hobject₁, hobject₂, ?_⟩
    have hsame : values.map Except.ok = (values₁ ++ values₂).map (Except.ok (ε := Abort)) := by
      rw [← hvalues, List.map_append, List.map_append, hvalues₁, hvalues₂]
    obtain rfl := List.map_injective_iff.2 (fun _ _ => Except.ok.inj) hsame
    have hlength' : keys.length = values₁.length :=
      hlength.trans (Completion.length_of_map_eq hvalues₁).symm
    rw [hobject, List.zip_append hlength']

end

/-- The plan of the operation with other selections. -/
def selecting (plan : Plan) (selections : List Selection) (depth : Nat) : Plan :=
  { plan with operation := { plan.operation with selections }, depth }

section

variable {plan : Plan}

private theorem view_selecting (selections : List Selection) (depth : Nat) (place : Place)
    (path : ResponsePath) :
    (plan.selecting selections depth).view place path = plan.view place path := rfl

private theorem inside_selecting (selections : List Selection) (depth : Nat) (place : Place)
    (path : ResponsePath) :
    (plan.selecting selections depth).inside place path = plan.inside place path := rfl

private theorem completes_of_selecting {selections : List Selection} {depth : Nat} {place : Place}
    {path : ResponsePath} {completion : Completion}
    (h : (plan.selecting selections depth).Completes place path completion) :
    plan.Completes place path completion :=
  h.transfer (fun _ => True)
    (fun place path _ => (view_selecting selections depth place path).symm)
    (fun place path _ => (inside_selecting selections depth place path).symm)
    (fun _ _ _ _ _ => trivial) trivial

/-- The completions of the fields of groups. -/
def CompletesGroups (plan : Plan) (object : ObjectType) (value : Json) (path : ResponsePath) :
    List FieldGroup → List Completion → Prop :=
  List.Forall₂ fun group completion =>
    plan.Completes (plan.placeOf object value path group) (path.child (.field group.key)) completion

private theorem completes_level_iff {object : ObjectType} {selections : List (List Selection)}
    {value : Json} {path : ResponsePath} {groups : List FieldGroup} {completion : Completion}
    (hcollect : plan.collect object.name selections = .ok groups) :
    plan.Completes (.level object selections value) path completion ↔
      ∃ completions, plan.CompletesGroups object value path groups completions ∧
        completion = (ofFields (groups.map FieldGroup.key) completions).absorb true := by
  have hview : plan.view (.level object selections value) path = .fields object groups value :=
    view_of_shows (.fields .level hcollect)
  have hlength : (plan.inside (.level object selections value) path).length = groups.length := by
    simp [inside, hview, children]
  constructor
  · intro h
    have hinner : (plan.view (.level object selections value) path).isInner = true := by
      rw [hview, View.isInner]
    obtain ⟨completions, hcompletions, hinside, rfl⟩ := h.exists_join hinner
    rw [hview]
    refine ⟨completions, forall₂_iff_getElem?.2 ⟨(hcompletions.trans hlength).symm, ?_⟩, rfl⟩
    intro i group completion hgroup hcompletion
    exact hinside i _ _ completion ((getElem?_inside_fields hview).2 ⟨group, hgroup, rfl, rfl⟩)
      hcompletion
  · rintro ⟨completions, hcompletions, rfl⟩
    obtain ⟨hcompletions, hgroups⟩ := forall₂_iff_getElem?.1 hcompletions
    refine completes_of_inner hview rfl (hcompletions.symm.trans hlength.symm) ?_
    intro i segment child completion hchild hcompletion
    obtain ⟨group, hgroup, rfl, rfl⟩ := (getElem?_inside_fields hview).1 hchild
    exact hgroups i group completion hgroup hcompletion

/-- Selections without a common key, one after the other, are completed with the completions of
both. -/
theorem exists_completes_append {object : ObjectType} {first second : List Selection} {value : Json}
    {completion completion' : Completion}
    (hvalid : ∀ selection ∈ first ++ second, ∃ parent depth, plan.Valid parent depth selection)
    (hdisjoint : ∀ groups others, plan.collect object.name [first] = .ok groups →
      plan.collect object.name [second] = .ok others →
      ∀ group ∈ groups, ∀ other ∈ others, group.key ≠ other.key)
    (h : plan.Completes (.level object [first] value) [] completion)
    (h' : plan.Completes (.level object [second] value) [] completion') :
    ∃ both, plan.Completes (.level object [first ++ second] value) [] both ∧
      (both.IsFatal ↔ completion.IsFatal ∨ completion'.IsFatal) ∧
      ∀ response response₁ response₂, respond both = .ok response →
        respond completion = .ok response₁ → respond completion' = .ok response₂ →
        response.Joins response₁ response₂ := by
  obtain ⟨hvalid₁, hvalid₂⟩ := List.forall_mem_append.1 hvalid
  obtain ⟨fields, -, hgroups⟩ := Scope.exists_collect_singleton object.name hvalid₁
  obtain ⟨more, -, hothers⟩ := Scope.exists_collect_singleton object.name hvalid₂
  have hboth := Scope.collect_append hvalid hgroups hothers (hdisjoint _ _ hgroups hothers)
  obtain ⟨completions, hcompletions, rfl⟩ := (completes_level_iff hgroups).1 h
  obtain ⟨completions', hcompletions', rfl⟩ := (completes_level_iff hothers).1 h'
  have hlength : ((FieldGroup.addAll [] fields).map FieldGroup.key).length =
      completions.length := by
    rw [List.length_map, hcompletions.length_eq]
  refine ⟨_, (completes_level_iff hboth).2
    ⟨_, List.rel_append hcompletions hcompletions', rfl⟩, ?_, ?_⟩
  · simp only [Completion.isFatal_absorb_iff, ofFields, Completion.join_isFatal_iff,
      List.mem_append, or_and_right, exists_or]
  · intro response response₁ response₂
    simp only [respond_absorb, List.map_append]
    exact joins_of_respond hlength

end

section

variable {schema : ExecutableSchema} {settings : Settings} {operation : Operation}
  {first second : List Selection} {fragments : List Fragment} {inputs : Variables} {root : Json}
  {request other : Request} {plan plan' : Plan} {depth : Nat}

theorem scope_of_ofRequest (h : request.IsFor operation fragments inputs root)
    (hplan : ofRequest schema settings request = .ok plan) :
    ∃ values, inputs.coerce schema.toSchema operation.definitions = .ok values ∧
      plan.toScope = ⟨⟨schema.toSchema, values⟩, fragments⟩ := by
  simp only [ofRequest, h.selects, h.fragments, h.inputs, bind_eq_ok_iff, mapError_eq_ok_iff,
    pure_eq_ok_iff, Except.ok.injEq, exists_eq_left'] at hplan
  obtain ⟨rootType, -, values, hvalues, _, -, _, -, depth, -, rfl⟩ := hplan
  exact ⟨values, hvalues, rfl⟩

private theorem ofRequest_selecting
    (h : request.IsFor { operation with selections := first } fragments inputs root)
    (h' : other.IsFor { operation with selections := second } fragments inputs root)
    (hplan : ofRequest schema settings request = .ok plan) :
    ofRequest schema settings other = .ok plan' ↔
      ∃ depth, plan.toScope.depth (.object plan.rootType) second = .ok depth ∧
        checkDepth settings operation depth = .ok () ∧ plan.selecting second depth = plan' := by
  simp only [ofRequest_eq, h.selects, h.fragments, h.inputs, h.root, bind_eq_ok_iff,
    mapError_eq_ok_iff, pure_eq_ok_iff, Except.ok.injEq, exists_eq_left'] at hplan
  obtain ⟨rootType, hroot, values, hvalues, bound, hbound, done, hdefinitions, _, -, _, -, rfl⟩ :=
    hplan
  simp only [ofRequest_eq, h'.selects, h'.fragments, h'.inputs, h'.root, bind_eq_ok_iff,
    mapError_eq_ok_iff, pure_eq_ok_iff, Except.ok.injEq, exists_eq_left']
  constructor
  · rintro ⟨rootType', hroot', values', hvalues', _, -, _, -, depth, hdepth, _, hcheck, rfl⟩
    obtain rfl : rootType = rootType' := Except.ok.inj (hroot.symm.trans hroot')
    obtain rfl : values = values' := Except.ok.inj (hvalues.symm.trans hvalues')
    exact ⟨depth, hdepth, hcheck, rfl⟩
  · rintro ⟨depth, hdepth, hcheck, rfl⟩
    exact ⟨rootType, hroot, values, hvalues, bound, hbound, done, hdefinitions, depth, hdepth, (),
      hcheck, rfl⟩

private theorem exists_completes_of_depth
    (hroot : rootTypeOf plan.system plan.operation = .ok plan.rootType)
    (hdepth : plan.toScope.depth (.object plan.rootType) first = .ok depth) :
    ∃ completion, plan.Completes (.level plan.rootType [first] plan.root) [] completion ∧
      (plan.selecting first depth).run.value = respond completion := by
  have hrun : ∃ completion, (plan.selecting first depth).Completes
      (.level plan.rootType [first] plan.root) [] completion ∧
      (plan.selecting first depth).run.value = respond completion := completes_run ⟨hroot, hdepth⟩
  obtain ⟨completion, hcompletes, hvalue⟩ := hrun
  exact ⟨completion, completes_of_selecting hcompletes, hvalue⟩

/-- The plan of a request returns the response if other selections take the place of those of its
operation. -/
def Responds (settings : Settings) (operation : Operation) (plan : Plan)
    (selections : List Selection) (response : Response) : Prop :=
  ∃ depth completion, plan.toScope.depth (.object plan.rootType) selections = .ok depth ∧
    checkDepth settings operation depth = .ok () ∧
    plan.Completes (.level plan.rootType [selections] plan.root) [] completion ∧
    respond completion = .ok response

private theorem execute_selecting_eq_ok_iff
    (h : request.IsFor { operation with selections := first } fragments inputs root)
    (h' : other.IsFor { operation with selections := second } fragments inputs root)
    (hplan : ofRequest schema settings request = .ok plan) {response : Response} :
    (execute schema settings other).value = .ok response ↔
      plan.Responds settings operation second response := by
  obtain ⟨-, -, -, hroot, -⟩ := accepted_of_ofRequest hplan
  unfold execute Responds
  constructor
  · intro hexecute
    cases hother : ofRequest schema settings other with
    | error fault =>
      rw [hother] at hexecute
      cases hexecute
    | ok plan' =>
      obtain ⟨depth, hdepth, hcheck, rfl⟩ := (ofRequest_selecting h h' hplan).1 hother
      obtain ⟨completion, hcompletes, hrun⟩ := exists_completes_of_depth hroot hdepth
      rw [hother] at hexecute
      exact ⟨depth, completion, hdepth, hcheck, hcompletes, hrun.symm.trans hexecute⟩
  · rintro ⟨depth, completion, hdepth, hcheck, hcompletes, hrespond⟩
    obtain ⟨completion', hcompletes', hrun⟩ := exists_completes_of_depth hroot hdepth
    rw [(ofRequest_selecting h h' hplan).2 ⟨depth, hdepth, hcheck, rfl⟩]
    rw [hcompletes.eq hcompletes'] at hrun
    exact hrun.trans hrespond

private theorem checkDepth_max_eq_ok_iff {less more : Nat} :
    checkDepth settings operation (max less more) = .ok () ↔
      checkDepth settings operation less = .ok () ∧
        checkDepth settings operation more = .ok () := by
  unfold checkDepth
  cases settings.maxDepth with
  | none => simp
  | some limit =>
    have hif (depth : Nat) :
        (if limit < depth then
          .error (.tooDeep limit operation.position) else .ok () : Except Violation Unit) = .ok () ↔
          depth ≤ limit := by
      split
      · next hlt => simp [Nat.not_le.2 hlt]
      · next hle => simp [Nat.not_lt.1 hle]
    simp only [hif, Nat.max_le]

private theorem exists_composed (hroot : rootTypeOf plan.system plan.operation = .ok plan.rootType)
    {less more : Nat}
    (hless : plan.toScope.depth (.object plan.rootType) first = .ok less)
    (hmore : plan.toScope.depth (.object plan.rootType) second = .ok more)
    (hdisjoint : ∀ groups others, plan.collect plan.rootType.name [first] = .ok groups →
      plan.collect plan.rootType.name [second] = .ok others →
      ∀ group ∈ groups, ∀ other ∈ others, group.key ≠ other.key) :
    ∃ completion completion' both,
      plan.Completes (.level plan.rootType [first] plan.root) [] completion ∧
      plan.Completes (.level plan.rootType [second] plan.root) [] completion' ∧
      plan.Completes (.level plan.rootType [first ++ second] plan.root) [] both ∧
      (both.IsFatal ↔ completion.IsFatal ∨ completion'.IsFatal) ∧
      ∀ response response₁ response₂, respond both = .ok response →
        respond completion = .ok response₁ → respond completion' = .ok response₂ →
        response.Joins response₁ response₂ := by
  obtain ⟨completion, hcompletes, -⟩ := exists_completes_of_depth hroot hless
  obtain ⟨completion', hcompletes', -⟩ := exists_completes_of_depth hroot hmore
  have hvalid : ∀ selection ∈ first ++ second,
      ∃ parent depth, plan.Valid parent depth selection := by
    refine List.forall_mem_append.2 ⟨fun selection hmem => ?_, fun selection hmem => ?_⟩
    · exact ⟨_, _, Scope.valid_of_depth_eq_ok hless selection hmem⟩
    · exact ⟨_, _, Scope.valid_of_depth_eq_ok hmore selection hmem⟩
  obtain ⟨both, hboth, hresult⟩ :=
    exists_completes_append hvalid hdisjoint hcompletes hcompletes'
  exact ⟨completion, completion', both, hcompletes, hcompletes', hboth, hresult⟩

/-- Both selections together return a response exactly if each of the two does. -/
theorem exists_responds_append_iff (hwell : plan.system.WellFormed)
    (hroot : rootTypeOf plan.system plan.operation = .ok plan.rootType)
    (hdisjoint : ∀ groups others, plan.collect plan.rootType.name [first] = .ok groups →
      plan.collect plan.rootType.name [second] = .ok others →
      ∀ group ∈ groups, ∀ other ∈ others, group.key ≠ other.key) :
    (∃ response, plan.Responds settings operation (first ++ second) response) ↔
      (∃ response, plan.Responds settings operation first response) ∧
        ∃ response, plan.Responds settings operation second response := by
  have hget : plan.system.get? (TypeDefinition.object plan.rootType).name =
      some (.object plan.rootType) := get?_of_rootTypeOf hroot
  have happend {depth : Nat} : plan.toScope.depth (.object plan.rootType) (first ++ second) =
      .ok depth ↔ _ :=
    Scope.depth_append_eq_ok_iff hwell hget
  constructor
  · rintro ⟨response, depth, both, hdepth, hcheck, hboth, hresponse⟩
    obtain ⟨less, more, hless, hmore, rfl⟩ := happend.1 hdepth
    obtain ⟨hcheck₁, hcheck₂⟩ := checkDepth_max_eq_ok_iff.1 hcheck
    obtain ⟨completion, completion', both', hcompletes, hcompletes', hboth', hfatal, -⟩ :=
      exists_composed hroot hless hmore hdisjoint
    have hnot : ¬ both.IsFatal := exists_respond_iff.1 ⟨response, hresponse⟩
    rw [hboth'.eq hboth, hfatal, not_or] at hnot
    obtain ⟨response₁, hresponse₁⟩ := exists_respond_iff.2 hnot.1
    obtain ⟨response₂, hresponse₂⟩ := exists_respond_iff.2 hnot.2
    exact ⟨⟨response₁, less, completion, hless, hcheck₁, hcompletes, hresponse₁⟩,
      response₂, more, completion', hmore, hcheck₂, hcompletes', hresponse₂⟩
  · rintro ⟨⟨response₁, less, completion, hless, hcheck₁, hcompletes, hresponse₁⟩,
      response₂, more, completion', hmore, hcheck₂, hcompletes', hresponse₂⟩
    obtain ⟨found, found', both, hfound, hfound', hboth, hfatal, -⟩ :=
      exists_composed hroot hless hmore hdisjoint
    have hnot : ¬ both.IsFatal := by
      rw [hfatal, not_or, hcompletes.eq hfound, hcompletes'.eq hfound']
      exact ⟨exists_respond_iff.1 ⟨response₁, hresponse₁⟩,
        exists_respond_iff.1 ⟨response₂, hresponse₂⟩⟩
    obtain ⟨response, hresponse⟩ := exists_respond_iff.2 hnot
    exact ⟨response, max less more, both, happend.2 ⟨less, more, hless, hmore, rfl⟩,
      checkDepth_max_eq_ok_iff.2 ⟨hcheck₁, hcheck₂⟩, hboth, hresponse⟩

private theorem joins_of_responds
    (hroot : rootTypeOf plan.system plan.operation = .ok plan.rootType)
    {response response₁ response₂ : Response}
    (hdisjoint : ∀ groups others, plan.collect plan.rootType.name [first] = .ok groups →
      plan.collect plan.rootType.name [second] = .ok others →
      ∀ group ∈ groups, ∀ other ∈ others, group.key ≠ other.key)
    (h : plan.Responds settings operation (first ++ second) response)
    (h₁ : plan.Responds settings operation first response₁)
    (h₂ : plan.Responds settings operation second response₂) :
    response.Joins response₁ response₂ := by
  obtain ⟨-, both, -, -, hboth, hresponse⟩ := h
  obtain ⟨less, completion, hless, -, hcompletes, hresponse₁⟩ := h₁
  obtain ⟨more, completion', hmore, -, hcompletes', hresponse₂⟩ := h₂
  obtain ⟨found, found', both', hfound, hfound', hboth', -, hjoins⟩ :=
    exists_composed hroot hless hmore hdisjoint
  rw [hboth'.eq hboth] at hresponse
  rw [hfound.eq hcompletes] at hresponse₁
  rw [hfound'.eq hcompletes'] at hresponse₂
  exact hjoins response response₁ response₂ hresponse hresponse₁ hresponse₂

end

end Plan

section

variable {draft : SchemaDraft} {schema : ExecutableSchema} {settings : Settings}
  {operation : Operation} {first second : List Selection} {fragments : List Fragment}
  {inputs : Variables} {root : Json} {request request₁ request₂ : Request}

/-- The composition of executions, if a request for the operation with some selections is
accepted. -/
private theorem composes_of_ofRequest (hfinish : draft.finish = .ok schema)
    (h : request.IsFor { operation with selections := first ++ second } fragments inputs root)
    (h₁ : request₁.IsFor { operation with selections := first } fragments inputs root)
    (h₂ : request₂.IsFor { operation with selections := second } fragments inputs root)
    (hdisjoint : Scope.KeysDisjoint schema operation fragments inputs first second)
    {selections : List Selection} {accepted : Request} {plan : Plan}
    (haccepted : accepted.IsFor { operation with selections } fragments inputs root)
    (hplan : Plan.ofRequest schema settings accepted = .ok plan) :
    Request.Composes schema settings request request₁ request₂ := by
  obtain ⟨hschema, -, hquery, hroot, -⟩ := Plan.accepted_of_ofRequest hplan
  obtain ⟨values, hvalues, hscope⟩ := Plan.scope_of_ofRequest haccepted hplan
  have hkeys (groups others : List FieldGroup)
      (hgroups : plan.collect plan.rootType.name [first] = .ok groups)
      (hothers : plan.collect plan.rootType.name [second] = .ok others) :
      ∀ group ∈ groups, ∀ other ∈ others, group.key ≠ other.key := by
    rw [hscope] at hgroups hothers
    exact hdisjoint values plan.rootType groups others hquery hvalues hgroups hothers
  have hexecute {response : Response} :
      (execute schema settings request).value = .ok response ↔ _ :=
    Plan.execute_selecting_eq_ok_iff haccepted h hplan
  have hexecute₁ {response : Response} :
      (execute schema settings request₁).value = .ok response ↔ _ :=
    Plan.execute_selecting_eq_ok_iff haccepted h₁ hplan
  have hexecute₂ {response : Response} :
      (execute schema settings request₂).value = .ok response ↔ _ :=
    Plan.execute_selecting_eq_ok_iff haccepted h₂ hplan
  constructor
  · simp only [hexecute, hexecute₁, hexecute₂]
    exact Plan.exists_responds_append_iff (Scope.wellFormed_of_finish hschema hfinish) hroot hkeys
  · intro response response₁ response₂ hresponse hresponse₁ hresponse₂
    exact Plan.joins_of_responds hroot hkeys (hexecute.1 hresponse) (hexecute₁.1 hresponse₁)
      (hexecute₂.1 hresponse₂)

/-- Execution is compositional over the selections of the root. Of an operation with the selections
`first` before the selections `second`, which have no response key in common, the execution succeeds
exactly if it succeeds with `first` alone and with `second` alone, and it returns their responses
one after the other. -/
theorem execute_append (hfinish : draft.finish = .ok schema) (settings : Settings)
    (h : request.IsFor { operation with selections := first ++ second } fragments inputs root)
    (h₁ : request₁.IsFor { operation with selections := first } fragments inputs root)
    (h₂ : request₂.IsFor { operation with selections := second } fragments inputs root)
    (hdisjoint : Scope.KeysDisjoint schema operation fragments inputs first second) :
    Request.Composes schema settings request request₁ request₂ := by
  have hcomposes {selections : List Selection} {accepted : Request} {plan : Plan}
      (haccepted : accepted.IsFor { operation with selections } fragments inputs root)
      (hplan : Plan.ofRequest schema settings accepted = .ok plan) :=
    composes_of_ofRequest hfinish h h₁ h₂ hdisjoint haccepted hplan
  refine ⟨⟨?_, ?_⟩, ?_⟩
  · rintro ⟨response, hresponse⟩
    obtain ⟨plan, _, _, hplan, -⟩ := exists_completes_of_execute hresponse
    exact (hcomposes h hplan).succeeds.1 ⟨response, hresponse⟩
  · rintro ⟨⟨response₁, hresponse₁⟩, hsecond⟩
    obtain ⟨plan, _, _, hplan, -⟩ := exists_completes_of_execute hresponse₁
    exact (hcomposes h₁ hplan).succeeds.2 ⟨⟨response₁, hresponse₁⟩, hsecond⟩
  · intro response response₁ response₂ hresponse
    obtain ⟨plan, _, _, hplan, -⟩ := exists_completes_of_execute hresponse
    exact (hcomposes h hplan).joins response response₁ response₂ hresponse

end

/-- The request for boxes with other selections. -/
def boxesSelecting (selections : List Selection) : Request :=
  { Plan.boxRequest with
    document := { operations := .single ⟨⟨1, 1⟩, .query, [], [], selections⟩, fragments := [] } }

def countSelection : Selection := .field ⟨⟨1, 3⟩, none, "count", [], []⟩ []

/-- The selection `boxes { size }`. -/
def boxesSelection : Selection :=
  .field ⟨⟨1, 9⟩, none, "boxes", [], []⟩ [.field ⟨⟨1, 17⟩, none, "size", [], []⟩ []]

theorem composes_boxesSelecting :
    (execute Plan.boxSchema .default (boxesSelecting [countSelection])).value =
        .ok ⟨some (.object [("count", .number (.int 3))]), []⟩ ∧
      (execute Plan.boxSchema .default (boxesSelecting [boxesSelection])).value =
        .ok ⟨some (.object [("boxes", .list [.null, .object [("size", .number (.int 2))]])]),
          Plan.boxResponse.errors⟩ ∧
      Request.Composes Plan.boxSchema .default (boxesSelecting [countSelection, boxesSelection])
        (boxesSelecting [countSelection]) (boxesSelecting [boxesSelection]) := by
  have hfor (selections : List Selection) : (boxesSelecting selections).IsFor
      { (⟨⟨1, 1⟩, .query, [], [], []⟩ : Operation) with selections } [] .empty
      Plan.boxRequest.root := ⟨rfl, rfl, rfl, rfl⟩
  have hfinish : Plan.boxDraft.finish = .ok Plan.boxSchema := rfl
  refine ⟨rfl, rfl, execute_append hfinish .default (hfor ([countSelection] ++ [boxesSelection]))
    (hfor _) (hfor _) ?_⟩
  intro values rootType groups others _ _ hgroups hothers group hgroup other hother
  obtain rfl := Except.ok.inj hgroups
  obtain rfl := Except.ok.inj hothers
  rw [List.mem_singleton.1 hgroup, List.mem_singleton.1 hother]
  decide

end GraphQuery
