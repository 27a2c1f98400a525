import GraphQuery.Proofs.Completion.Composition
import GraphQuery.Proofs.Completion.Reached
import GraphQuery.Proofs.Selection.Erasure

/-!
# Erased requests

Requests without what their directives exclude, and without the directives that wrap no producer.
Main statement: such a request, if it is accepted, is executed like the request with the directives,
so nothing below an excluded selection is resolved.
-/

namespace GraphQuery

/-- The operation that a request selects, and the scope in which its selections are read. -/
structure Request.Reads (request : Request) (schema : ExecutableSchema) (operation : Operation)
    (scope : Scope) : Prop where
  selects : request.document.operations.select request.operationName = .ok operation
  values : request.inputs.coerce schema.toSchema operation.definitions = .ok scope.values
  fragments : scope.fragments = request.document.fragments
  schema : scope.schema = schema.toSchema

namespace Plan

section

variable {plan : Plan} {schedule : Schedule}

private theorem Fits.mono {depth more : Nat} {selections : List (List Selection)}
    (h : plan.Fits depth selections) (hle : depth ≤ more) : plan.Fits more selections := by
  intro list hlist
  obtain ⟨parent, hall⟩ := h list hlist
  exact ⟨parent, fun selection hmem => (hall selection hmem).mono hle⟩

/-- All levels that are deep enough for selections complete them alike, if it takes no wait to run
no siblings. -/
theorem levelAt_of_fits (hidle : ∀ path, schedule path [] = .done []) {depth more : Nat}
    (hle : depth ≤ more) (object : ObjectType) {selections : List (List Selection)}
    (hfits : plan.Fits depth selections) (value : Json) (path : ResponsePath) :
    plan.levelAt schedule more object selections value path =
      plan.levelAt schedule depth object selections value path := by
  unfold levelAt
  induction depth generalizing more object selections value path with
  | zero =>
    cases more with
    | zero => rfl
    | succ more =>
      simp only [levelWith, collect_of_fits_zero object.name hfits, completeGroups, List.map_nil,
        hidle]
      rfl
  | succ depth ih =>
    obtain ⟨more, rfl⟩ := Nat.exists_eq_add_of_le' hle
    obtain ⟨groups, hcollect, hfields⟩ := collect_of_fits object.name hfits
    have hgroups : List.Forall₂ (FieldGroup.InStep plan.toBindings fun selections selections' =>
        selections' = selections ∧ plan.Fits depth selections) groups groups :=
      List.forall₂_same.2 fun group hgroup =>
        ⟨rfl, .refl _ _, rfl, fits_selections (hfields group hgroup)⟩
    simp only [levelWith, hcollect]
    refine completeGroups_inStep (SameBasis.refl plan).readsAlike hgroups ?_ object value path
    rintro selections _ ⟨rfl, hfits⟩ object value path
    exact ih (Nat.le_add_left depth more) object hfits value path

end

/-- The second plan is one of the operation that directives leave of the first. -/
structure Erases (plan other : Plan) : Prop where
  scope : other.toScope = plan.toScope.erased
  delays : other.delays = plan.delays
  settings : other.settings = plan.settings
  rootType : other.rootType = plan.rootType
  root : other.root = plan.root
  selections : other.operation.selections = plan.eraseSelections plan.operation.selections

/-- Selections that fit a depth, and what is left of them, which fits it too. -/
structure FitsErased (plan other : Plan) (depth : Nat)
    (selections selections' : List (List Selection)) : Prop where
  fits : plan.Fits depth selections
  left : other.Fits depth selections'
  erased : selections'.flatten = plan.eraseSelections selections.flatten

section

variable {plan other : Plan} {schedule : Schedule}

private theorem Erases.sameBasis (h : plan.Erases other) : plan.SameBasis other :=
  ⟨by rw [h.scope, Scope.toBindings_erased], h.delays⟩

private theorem runsAs_of_erasesTo {field field' : SelectedField} (h : plan.ErasesTo field field') :
    FieldNode.RunsAs plan.toBindings field.node field'.node := by
  rw [h.node]
  exact ⟨rfl, rfl, rfl, Bindings.wrapProducer_filter h.keeps⟩

private theorem Erases.collect_inStep (h : plan.Erases other) (depth : Nat) (object : String)
    (selections selections' : List (List Selection))
    (hfits : plan.FitsErased other (depth + 1) selections selections') :
    Related (List.Forall₂ (FieldGroup.InStep plan.toBindings (plan.FitsErased other depth)))
      (plan.collect object selections) (other.collect object selections') := by
  have hflattens : plan.toScope.FlattensAs other.toScope object plan.ErasesTo selections.flatten
      selections'.flatten := by
    rw [h.scope, hfits.erased]
    exact Scope.flattensAs_erased _ _ _
  have hunfolds : ∀ selection ∈ selections'.flatten,
      other.Unfolds other.fragments.length selection := by
    intro selection hmem
    obtain ⟨list, hlist, hselection⟩ := List.mem_flatten.1 hmem
    obtain ⟨parent, depth, hvalid⟩ := valid_of_fits hfits.left list hlist selection hselection
    exact hvalid.unfolds
  obtain ⟨groups, groups', hgroups, hgroups', hrelated⟩ := hflattens.collect
    (fun field field' hfield => by rw [hfield.node]; rfl) (valid_of_fits hfits.fits) hunfolds
  obtain ⟨_, hcollect, hfields⟩ := collect_of_fits object hfits.fits
  obtain ⟨_, hcollect', hfields'⟩ := collect_of_fits object hfits.left
  obtain rfl := Except.ok.inj (hgroups.symm.trans hcollect)
  obtain rfl := Except.ok.inj (hgroups'.symm.trans hcollect')
  rw [hgroups, hgroups']
  refine .ok (forall₂_iff_getElem?.2 ⟨hrelated.length_eq, fun i group group' hgroup hgroup' => ?_⟩)
  have hsame := (forall₂_iff_getElem?.1 hrelated).2 i group group' hgroup hgroup'
  refine ⟨hsame.key, runsAs_of_erasesTo hsame.first, ?_, ?_, Scope.flatten_erased hsame.fields⟩
  · exact fits_selections (hfields group (List.mem_of_getElem? hgroup))
  · exact fits_selections (hfields' group' (List.mem_of_getElem? hgroup'))

/-- What directives leave of an operation runs like the operation. The two nest to different
depths, so they are compared at a level that is deep enough for both. -/
theorem Erases.runUnder_eq (h : plan.Erases other) (haccepted : plan.Accepted)
    (haccepted' : other.Accepted) (hidle : ∀ path, schedule path [] = .done []) :
    other.runUnder schedule = plan.runUnder schedule := by
  have hfits := fits_operation haccepted
  have hfits' := fits_operation haccepted'
  have hle : plan.depth ≤ max plan.depth other.depth := Nat.le_max_left ..
  have hle' : other.depth ≤ max plan.depth other.depth := Nat.le_max_right ..
  have hroot : plan.FitsErased other (max plan.depth other.depth) [plan.operation.selections]
      [other.operation.selections] := by
    refine ⟨hfits.mono hle, hfits'.mono hle', ?_⟩
    rw [List.flatten_singleton, List.flatten_singleton, h.selections]
  have hlevel :=
    levelWith_inStep schedule h.sameBasis.readsAlike h.collect_inStep _ plan.rootType _ _
    plan.root [] hroot
  have hstart : other.levelAt schedule other.depth other.rootType [other.operation.selections]
        other.root [] =
      plan.levelAt schedule plan.depth plan.rootType [plan.operation.selections] plan.root [] := by
    rw [← levelAt_of_fits hidle hle' other.rootType hfits',
      ← levelAt_of_fits hidle hle plan.rootType hfits, h.rootType, h.root]
    exact hlevel
  rw [Plan.runUnder_eq haccepted.root, Plan.runUnder_eq haccepted'.root]
  exact congrArg (Future.bind · fun completion => .done (respond completion)) hstart

end

section

variable {schema : ExecutableSchema} {settings : Settings} {request other : Request}
  {plan plan' : Plan}

private theorem coerce_erased (inputs : Variables) (schema : Schema) (operation : Operation)
    (scope : Scope) :
    inputs.coerce schema (operation.erased scope).definitions =
      inputs.coerce schema operation.definitions := by
  unfold Variables.coerce Operation.erased
  rw [List.foldlM_map]
  rfl

private theorem erases_of_ofRequest {operation : Operation} {scope : Scope}
    (hreads : request.Reads schema operation scope)
    (h : other.IsFor (operation.erased scope) scope.erased.fragments request.inputs request.root)
    (hplan : ofRequest schema settings request = .ok plan)
    (hplan' : ofRequest schema settings other = .ok plan') : plan.Erases plan' := by
  obtain ⟨hselects, -⟩ := document_of_ofRequest hplan
  obtain ⟨hselects', -⟩ := document_of_ofRequest hplan'
  obtain ⟨-, hdelays, hroot, -⟩ := accepted_of_ofRequest hplan
  obtain ⟨-, hdelays', hroot', -⟩ := accepted_of_ofRequest hplan'
  obtain ⟨hsettings, hvalue⟩ := settings_of_ofRequest hplan
  obtain ⟨hsettings', hvalue'⟩ := settings_of_ofRequest hplan'
  obtain ⟨values, hvalues, hscope⟩ :=
    scope_of_ofRequest ⟨hreads.selects, hreads.fragments.symm, rfl, rfl⟩ hplan
  obtain ⟨values', hvalues', hscope'⟩ := scope_of_ofRequest h hplan'
  rw [coerce_erased, hreads.values] at hvalues'
  obtain rfl := Except.ok.inj hvalues'
  obtain rfl := Except.ok.inj (hreads.values.symm.trans hvalues)
  have hsame : plan.toScope = scope := by rw [hscope, ← hreads.schema]
  refine ⟨?_, hdelays'.trans hdelays.symm, hsettings'.trans hsettings.symm,
    Option.some.inj (hroot'.symm.trans hroot), ?_, ?_⟩
  · rw [hscope', hsame, ← hreads.schema]
    rfl
  · rw [hvalue', hvalue, h.root]
  · rw [hsame, ← Except.ok.inj (h.selects.symm.trans hselects'),
      ← Except.ok.inj (hreads.selects.symm.trans hselects)]
    rfl

end

end Plan

/-- Inclusion directives are erasable. Let a request be accepted, and let another one be left of it
if every selection that a directive excludes is deleted, also every spread of a fragment that a
directive of its definition excludes, and then every directive without a hook. If the other request
is accepted too, then it is executed like the first one, event by event: the same resolvers are
started and the response is the same. This also holds under any other way to run siblings, if that
waits for nothing where there are no siblings. -/
theorem execute_erased {schema : ExecutableSchema} {settings : Settings} {request other : Request}
    {operation : Operation} {scope : Scope} (hreads : request.Reads schema operation scope)
    (haccepted : ∃ plan, Plan.ofRequest schema settings request = .ok plan)
    (h : other.IsFor (operation.erased scope) scope.erased.fragments request.inputs request.root)
    (haccepted' : ∃ plan, Plan.ofRequest schema settings other = .ok plan) :
    execute schema settings other = execute schema settings request ∧
      ∀ buffering : Future.Buffering ResponsePath Event Completion,
        (∀ limit path, buffering.gather limit path [] = .done []) →
          executeUnder buffering schema settings other =
            executeUnder buffering schema settings request := by
  obtain ⟨plan, hplan⟩ := haccepted
  obtain ⟨plan', hplan'⟩ := haccepted'
  have herases := Plan.erases_of_ofRequest hreads h hplan hplan'
  obtain ⟨-, -, -, hfound⟩ := Plan.accepted_of_ofRequest hplan
  obtain ⟨-, -, -, hfound'⟩ := Plan.accepted_of_ofRequest hplan'
  have hlimit : plan'.limit = plan.limit := congrArg Settings.siblingLimit herases.settings
  have hunder (buffering : Future.Buffering ResponsePath Event Completion)
      (hidle : ∀ limit path, buffering.gather limit path [] = .done []) :
      executeUnder buffering schema settings other =
        executeUnder buffering schema settings request := by
    unfold executeUnder
    rw [hplan, hplan']
    simp only [hlimit]
    exact herases.runUnder_eq hfound hfound' (hidle plan.limit)
  refine ⟨?_, hunder⟩
  rw [← executeUnder_rounds, ← executeUnder_rounds]
  exact hunder _ fun limit _ => Future.buffered_nil limit

/-- The directive excludes the spreads of the fragment that is defined with it. -/
def hidden : DirectiveSpec :=
  { name := "hidden"
    description := none
    locations := [.fragmentDefinition]
    arguments := []
    predicate := some fun _ _ => .ok false
    hook := none }

/-- The directive replaces the value of a field. -/
def redacted : DirectiveSpec :=
  { name := "redacted"
    description := none
    locations := [.field]
    arguments := []
    predicate := none
    hook := some fun _ _ => .reply ⟨0, .ok (.string "-")⟩ }

def hidingSchema : ExecutableSchema :=
  { pageSchema with directives := DirectiveSpec.builtins ++ [hidden, redacted] }

/-- The fragment `fragment page on Page { next .. { id .. } }`. -/
def nextFragment (directives directives' : List DirectiveUse) : Fragment :=
  ⟨"page", ⟨"Page", ⟨1, 1⟩⟩, [], [markedField "next" directives [markedField "id" directives' []]]⟩

/-- The fragment `fragment secret on Page .. { next { next { id } } }`. -/
def secretFragment (directives : List DirectiveUse) : Fragment :=
  ⟨"secret", ⟨"Page", ⟨1, 1⟩⟩, directives,
    [pageField "next" [pageField "next" [pageField "id" []]]]⟩

/-- The operation `query ($deep: Boolean!) { node { .. } }`. -/
def deepOperation (selections : List Selection) : Operation :=
  { position := ⟨1, 1⟩
    kind := .query
    definitions := [⟨⟨1, 1⟩, "deep", .named "Boolean" false, ⟨1, 1⟩, [], none⟩]
    directives := []
    selections := [pageField "node" selections] }

/-- The operation `query ($deep: Boolean!) { node { id @redacted @include(if: true)
...page @skip(if: false) ...secret next @redacted @include(if: $deep) { id } } }`. -/
def hidingOperation : Operation :=
  deepOperation
    [markedField "id" [useOf redacted [], includeIf (.boolean true)] [],
      .spread ⟨⟨1, 1⟩, "page", [skipIf (.boolean false)]⟩,
      .spread ⟨⟨1, 1⟩, "secret", []⟩,
      markedField "next" [useOf redacted [], includeIf (.variable "deep")] [pageField "id" []]]

/-- The fragments are `fragment page on Page { next @include(if: true) { id @skip(if: $deep) } }`
and `fragment secret on Page @hidden { next { next { id } } }`. -/
def hidingScope : Scope :=
  { schema := hidingSchema.toSchema
    values := [("deep", .boolean false)]
    fragments :=
      [nextFragment [includeIf (.boolean true)] [skipIf (.variable "deep")],
        secretFragment [useOf hidden []]] }

def hidingRequest : Request :=
  { document := ⟨.single hidingOperation, hidingScope.fragments⟩
    operationName := none
    inputs := Variables.empty.insert "deep" (.boolean false)
    root := .object [("node", .object [("__typename", .string "Page"), ("id", .string "a"),
      ("next", .object [("__typename", .string "Page"), ("id", .string "b")])])] }

/-- The request with `query ($deep: Boolean!) { node { id @redacted ...page } }`. -/
def shownRequest : Request :=
  { hidingRequest with
    document :=
      { operations := .single <| deepOperation
          [markedField "id" [useOf redacted []] [], .spread ⟨⟨1, 1⟩, "page", []⟩]
        fragments := [nextFragment [] [], secretFragment []] } }

theorem execute_shownRequest :
    hidingRequest.Reads hidingSchema hidingOperation hidingScope ∧
      shownRequest.IsFor (hidingOperation.erased hidingScope) hidingScope.erased.fragments
        hidingRequest.inputs hidingRequest.root ∧
      (fun response => (response.data.map Value.text, response.errors)) <$>
          (execute hidingSchema .default hidingRequest).value =
        .ok (some "\x7bnode: \x7bid: \"-\", next: \x7bid: \"b\"\x7d\x7d\x7d", []) ∧
      execute hidingSchema .default shownRequest = execute hidingSchema .default hidingRequest := by
  have hreads : hidingRequest.Reads hidingSchema hidingOperation hidingScope :=
    ⟨rfl, rfl, rfl, rfl⟩
  have hfor : shownRequest.IsFor (hidingOperation.erased hidingScope) hidingScope.erased.fragments
      hidingRequest.inputs hidingRequest.root := ⟨rfl, rfl, rfl, rfl⟩
  have haccepted := exists_of_toBool
    (by decide +kernel : (Plan.ofRequest hidingSchema .default hidingRequest).toBool = true)
  have haccepted' := exists_of_toBool
    (by decide +kernel : (Plan.ofRequest hidingSchema .default shownRequest).toBool = true)
  exact ⟨hreads, hfor, by decide +kernel, (execute_erased hreads haccepted hfor haccepted').1⟩

end GraphQuery
