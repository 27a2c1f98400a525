import GraphQuery.Proofs.Binding.Faults
import GraphQuery.Proofs.Completion.Accepted
import GraphQuery.Proofs.Schema.WellFormed

/-!
# Fatal runs

How the run of an accepted plan can still fail the whole request. Main statement: it does exactly
if it comes to a field that its object does not have, whose name is then reported.
-/

namespace GraphQuery

namespace Plan

section

variable {plan : Plan}

theorem Completes.exists_fatal {place : Place} {path : ResponsePath} {completion : Completion}
    (h : plan.Completes place path completion) {fault : ExecutionFault}
    (hfatal : completion.outcome = .error (.fatal fault)) :
    ∃ rest inner, plan.follow place path rest = some inner ∧
      plan.view inner (path ++ rest) = .fatal fault := by
  induction h with
  | value => cases hfatal
  | failed => cases Completion.outcome_absorb_eq_fatal_iff.1 hfatal
  | @fatal place path shown hview =>
    cases hfatal
    exact ⟨[], place, rfl, by rwa [List.append_nil]⟩
  | @inner place path completions hinner hlength hinside ih =>
    rw [Completion.outcome_absorb_eq_fatal_iff, Completion.outcome_join, map_eq_error_iff] at hfatal
    obtain ⟨completion, hmem, hcompletion⟩ := Completion.exists_mem_of_outcomes_eq_error hfatal
    obtain ⟨i, hi⟩ := List.mem_iff_getElem?.1 hmem
    obtain ⟨⟨segment, child⟩, hchild⟩ := exists_getElem?_of_length_eq hlength hi
    obtain ⟨rest, inner, hfollow, hview⟩ := ih i segment child completion hchild hi hcompletion
    rw [ResponsePath.child, List.append_assoc] at hview
    exact ⟨segment :: rest, inner, by rw [follow_inside hchild, hfollow], hview⟩

private theorem Completes.isFatal_of_view {place inner : Place} {path rest : ResponsePath}
    {completion : Completion} (h : plan.Completes place path completion)
    (hfollow : plan.follow place path rest = some inner) {fault : ExecutionFault}
    (hview : plan.view inner (path ++ rest) = .fatal fault) : completion.IsFatal := by
  obtain ⟨below, hbelow, -, hfatal⟩ := h.exists_below hfollow
  exact hfatal ⟨fault, by rw [hbelow.eq_of_fatal hview]; rfl⟩

private theorem not_fatal_of_mapError {produced : Except ResolverFault Json}
    {fault : ExecutionFault}
    (h : produced.mapError .resolver = .error fault) : fault.isFatal = false := by
  cases produced with
  | ok value => cases h
  | error source =>
    cases h
    rfl

private theorem not_fatal_of_typenameAnswer {object : ObjectType} {parent : Json} {node : FieldNode}
    {kept : Bool} (hkeeps : plan.keeps .field node.directives = .ok kept) {fault : ExecutionFault}
    (h : plan.typenameAnswer object parent node = .error fault) : fault.isFatal = false := by
  obtain ⟨producer, hproducer⟩ := Bindings.exists_wrapProducer_of_keeps hkeeps
    (.done (.ok (.string object.name))) parent
  rw [typenameAnswer, hproducer] at h
  exact not_fatal_of_mapError h

private theorem not_fatal_of_answer {object : ObjectType} {field : FieldDefinition} {parent : Json}
    {node : FieldNode} {path : ResponsePath} {kept : Bool}
    (hkeeps : plan.keeps .field node.directives = .ok kept) {fault : ExecutionFault}
    (h : plan.answer object field parent node path = .error fault) : fault.isFatal = false := by
  rw [answer, bind_eq_error_iff] at h
  rcases h with h | ⟨producer, -, h⟩
  · rw [producer, bind_eq_error_iff] at h
    rcases h with h | ⟨arguments, -, h⟩
    · exact Bindings.not_fatal_of_bindArguments h
    · obtain ⟨producer, hproducer⟩ := Bindings.exists_wrapProducer_of_keeps hkeeps
        (plan.resolve object field parent arguments path) parent
      rw [hproducer] at h
      cases h
  · exact not_fatal_of_mapError h

end

/-- A production that may fail, but not with a fault that ends the request. -/
def Caught (produced : Except ExecutionFault Json) : Prop :=
  ∀ fault, produced = .error fault → fault.isFatal = false

/-- What holds of every place of an accepted plan. -/
def Sane (plan : Plan) : Place → Prop
  | .level object selections _ =>
    (∃ name, plan.system.object? name = some object) ∧ ∃ depth, plan.Fits depth selections
  | .typename _ _ produced => Caught produced
  | .undefined .. => True
  | .value site type produced =>
    (∃ found, plan.system.innermost? type = some found) ∧
      (∃ depth, plan.Fits depth site.selections) ∧ Caught produced

section

variable {plan : Plan} {path : ResponsePath}

private theorem object?_of_objectAt {place : Place} {object : ObjectType}
    {selections : List (List Selection)} {value : Json} (hsane : plan.Sane place)
    (hat : plan.ObjectAt place path object selections value) :
    (∃ name, plan.system.object? name = some object) ∧ ∃ depth, plan.Fits depth selections := by
  cases hat with
  | level => exact hsane
  | object _ hget => exact ⟨⟨_, TypeSystem.object?_eq_some_iff.2 hget⟩, hsane.2.1⟩
  | abstract _ _ _ hruntime => exact ⟨(possible_of_runtimeType hruntime).1, hsane.2.1⟩

/-- Only the fields that an object does not have are fatal. -/
theorem Sane.undefined_of_fatal {place : Place} (hsane : plan.Sane place) {fault : ExecutionFault}
    (hview : plan.view place path = .fatal fault) :
    ∃ object node, place = .undefined object node ∧
      fault = .validation (.unknownField node.name object node.position) := by
  have hshows := plan.shows_view place path
  rw [hview] at hshows
  cases hshows with
  | undefined => exact ⟨_, _, rfl, rfl⟩
  | typenameFatal hfatal =>
    rw [hsane _ rfl] at hfatal
    cases hfatal
  | fatal hfatal =>
    rw [hsane.2.2 _ rfl] at hfatal
    cases hfatal
  | uncollected hat hcollect =>
    obtain ⟨depth, hfits⟩ := (object?_of_objectAt hsane hat).2
    obtain ⟨groups, hgroups, -⟩ := collect_of_fits _ hfits
    rw [hcollect] at hgroups
    cases hgroups
  | unknown _ hget =>
    obtain ⟨found, hfound⟩ := hsane.1
    rw [TypeSystem.innermost?, TypeExpr.innermost, hget] at hfound
    cases hfound

theorem keeps_of_valid {parent : TypeDefinition} {depth : Nat} {node : FieldNode}
    {selections : List Selection} (h : plan.Valid parent depth (.field node selections)) :
    (∃ kept, plan.keeps .field node.directives = .ok kept) ∧ ∃ less, depth = less + 1 := by
  cases h with
  | typename hkeeps | leaf hkeeps | composite hkeeps => exact ⟨⟨_, hkeeps⟩, _, rfl⟩

private theorem sane_placeOf (hwell : plan.system.WellFormed) {object : ObjectType}
    (hobject : ∃ name, plan.system.object? name = some object) {depth : Nat} {group : FieldGroup}
    (hvalid : ∀ field ∈ group.fields, plan.ValidField (fun _ => True) depth field)
    (parent : Json) : plan.Sane (plan.placeOf object parent path group) := by
  obtain ⟨_, -, hfirst⟩ := hvalid group.first List.mem_cons_self
  obtain ⟨⟨kept, hkeeps⟩, less, rfl⟩ := keeps_of_valid hfirst
  by_cases hname : group.first.node.name = "__typename"
  · rw [placeOf_typename hname]
    exact fun fault => not_fatal_of_typenameAnswer hkeeps
  · cases hfield : object.field? group.first.node.name with
    | none =>
      rw [placeOf_undefined hname hfield]
      trivial
    | some field =>
      rw [placeOf_field hname hfield]
      obtain ⟨name, hobject⟩ := hobject
      have hmem := TypeSystem.mem_of_object? hobject
      refine ⟨hwell.known _ hmem field (List.mem_of_find?_eq_some hfield), ?_, ?_⟩
      · exact ⟨less, fits_selections hvalid⟩
      · exact fun fault => not_fatal_of_answer hkeeps

private theorem Sane.leads (hwell : plan.system.WellFormed) {place child : Place}
    (hsane : plan.Sane place) (hleads : plan.Leads place path child) : plan.Sane child := by
  cases hleads with
  | item => exact ⟨hsane.1, hsane.2.1, nofun⟩
  | @field place path object selections value groups group hat hcollect hgroup =>
    obtain ⟨hobject, depth, hfits⟩ := object?_of_objectAt hsane hat
    obtain ⟨found, hfound, hvalid⟩ := collect_of_fits object.name hfits
    obtain rfl := Except.ok.inj (hcollect.symm.trans hfound)
    exact sane_placeOf hwell hobject (hvalid group hgroup) value

theorem respond_eq_error_iff {completion : Completion} {fault : ExecutionFault} :
    respond completion = .error fault ↔ completion.outcome = .error (.fatal fault) := by
  unfold respond
  rcases completion.outcome with (_ | other) | value <;> simp

theorem sane_of_ofRequest {schema : ExecutableSchema} {settings : Settings} {request : Request}
    (hwell : schema.toTypeSystem.WellFormed)
    (hplan : ofRequest schema settings request = .ok plan) {path : ResponsePath} {place : Place}
    (hplace : plan.place? path = some place) : plan.Sane place := by
  obtain ⟨hschema, -, hroot, haccepted⟩ := accepted_of_ofRequest hplan
  have hsystem : plan.system = schema.toTypeSystem := by rw [Scope.system, hschema]
  have hsane : plan.Sane plan.rootPlace :=
    ⟨⟨_, hsystem ▸ hroot⟩, _, fits_operation haccepted⟩
  refine place_induction hsane (fun _ _ _ _ hsane hleads => ?_) hplace
  exact hsane.leads (hsystem ▸ hwell) hleads

/-- The run of an accepted plan fails exactly if it comes to a field that its object does not
have, and reports such a field, in whichever order its resolvers end. -/
theorem runUnder_error_iff {schema : ExecutableSchema} {settings : Settings} {request : Request}
    (hwell : schema.toTypeSystem.WellFormed)
    (hplan : ofRequest schema settings request = .ok plan)
    (buffering : Future.Buffering ResponsePath Event Completion) :
    ((∃ fault, (plan.runUnder (buffering.gather plan.limit)).value = .error fault) ↔
      ∃ path object node, plan.place? path = some (.undefined object node)) ∧
    ∀ fault, (plan.runUnder (buffering.gather plan.limit)).value = .error fault →
      ∃ path object node, plan.place? path = some (.undefined object node) ∧
        fault = .validation (.unknownField node.name object node.position) := by
  obtain ⟨-, -, -, haccepted⟩ := accepted_of_ofRequest hplan
  obtain ⟨completion, hcompletes, hrun⟩ := completes_runUnder buffering haccepted
  have hblame (fault : ExecutionFault)
      (hfault : (plan.runUnder (buffering.gather plan.limit)).value = .error fault) :
      ∃ path object node, plan.place? path = some (.undefined object node) ∧
        fault = .validation (.unknownField node.name object node.position) := by
    rw [hrun, respond_eq_error_iff] at hfault
    obtain ⟨path, inner, hplace, hview⟩ := hcompletes.exists_fatal hfault
    have hinner : plan.Sane inner := sane_of_ofRequest hwell hplan hplace
    obtain ⟨object, node, rfl, hunknown⟩ := hinner.undefined_of_fatal hview
    exact ⟨path, object, node, hplace, hunknown⟩
  refine ⟨⟨?_, ?_⟩, hblame⟩
  · rintro ⟨fault, hfault⟩
    obtain ⟨path, object, node, hplace, -⟩ := hblame fault hfault
    exact ⟨path, object, node, hplace⟩
  · rintro ⟨path, object, node, hplace⟩
    obtain ⟨fault, hfault⟩ := hcompletes.isFatal_of_view hplace rfl
    exact ⟨fault, hrun.trans (respond_eq_error_iff.2 hfault)⟩

theorem run_error_iff {schema : ExecutableSchema} {settings : Settings} {request : Request}
    (hwell : schema.toTypeSystem.WellFormed)
    (hplan : ofRequest schema settings request = .ok plan) :
    ((∃ fault, plan.run.value = .error fault) ↔
      ∃ path object node, plan.place? path = some (.undefined object node)) ∧
    ∀ fault, plan.run.value = .error fault → ∃ path object node,
      plan.place? path = some (.undefined object node) ∧
        fault = .validation (.unknownField node.name object node.position) :=
  runUnder_error_iff hwell hplan (.rounds ..)

end

end Plan

end GraphQuery
