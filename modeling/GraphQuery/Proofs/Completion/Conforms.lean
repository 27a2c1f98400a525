import GraphQuery.Proofs.Completion.Accepted
import GraphQuery.Proofs.TypeSystem.LeafValue
import GraphQuery.Schema.Draft

/-!
# Conformance

Which values a response may hold under a schema with the standard translator: the keys of an
object are those that its selections collect, and every value fits the type of its field. Main
statement: what an execution returns is null or an object of the query type that conforms.
-/

namespace GraphQuery

namespace Plan

mutual

/-- The value is an object of the type, with a field for each response key that is selected. -/
inductive ObjectLevel (plan : Plan) : ObjectType → List (List Selection) → Value → Prop
  | fields {object selections groups} {fields : List (String × Value)}
      (hcollect : plan.collect object.name selections = .ok groups)
      (hkeys : fields.map Prod.fst = groups.map FieldGroup.key)
      (hvalues : ∀ (i : Nat) group key value, groups[i]? = some group →
        fields[i]? = some (key, value) → FieldConforms plan object group value) :
      ObjectLevel plan object selections (.object fields)

/-- The value is one of the field that the group asks of the object. -/
inductive FieldConforms (plan : Plan) : ObjectType → FieldGroup → Value → Prop
  | typename {object group text} (hname : group.first.node.name = "__typename") :
      FieldConforms plan object group (.string text)
  | field {object group field value} (hname : group.first.node.name ≠ "__typename")
      (hfield : object.field? group.first.node.name = some field)
      (hvalue : Conforms plan field.type group.selections value) :
      FieldConforms plan object group value

/-- The value is one of the type, and `selections` are made on the objects in it. -/
inductive Conforms (plan : Plan) : TypeExpr → List (List Selection) → Value → Prop
  | null {type selections} (hnullable : type.nullable = true) :
      Conforms plan type selections .null
  | list {item nullable selections items}
      (hitems : ∀ value ∈ items, Conforms plan item selections value) :
      Conforms plan (.list item nullable) selections (.list items)
  | leaf {name nullable type selections value} (hget : plan.system.get? name = some type)
      (hvalue : TypeSystem.LeafValue type value) :
      Conforms plan (.named name nullable) selections value
  | object {name nullable object selections value}
      (hget : plan.system.get? name = some (.object object))
      (hvalue : ObjectLevel plan object selections value) :
      Conforms plan (.named name nullable) selections value
  | abstract {name nullable type runtime object selections value}
      (hget : plan.system.get? name = some type) (habstract : type.isAbstract = true)
      (hruntime : plan.system.object? runtime = some object)
      (hpossible : plan.system.isPossible name object.name = true)
      (hvalue : ObjectLevel plan object selections value) :
      Conforms plan (.named name nullable) selections value

end

/-- The value is one that may stand at the place. -/
def ConformsAt (plan : Plan) (place : Place) (value : Value) : Prop :=
  match place with
  | .level object selections _ => value = .null ∨ plan.ObjectLevel object selections value
  | .typename .. => ∃ text, value = .string text
  | .undefined .. => False
  | .value site type _ => plan.Conforms type site.selections value

section

variable {plan : Plan} {path : ResponsePath}

private theorem conformsAt_null {place : Place} (hnullable : place.nullable = true) :
    plan.ConformsAt place .null := by
  cases place with
  | level => exact .inl rfl
  | typename | undefined => cases hnullable
  | value => exact .null hnullable

private theorem fieldConforms_of_conformsAt {object : ObjectType} {parent : Json}
    {group : FieldGroup}
    {value : Value} (h : plan.ConformsAt (plan.placeOf object parent path group) value) :
    plan.FieldConforms object group value := by
  by_cases hname : group.first.node.name = "__typename"
  · rw [placeOf_typename hname] at h
    obtain ⟨text, rfl⟩ := h
    exact .typename hname
  · cases hfield : object.field? group.first.node.name with
    | none =>
      rw [placeOf_undefined hname hfield] at h
      cases h
    | some field =>
      rw [placeOf_field hname hfield] at h
      exact .field hname hfield h

private theorem conformsAt_of_objectAt {place : Place} {object : ObjectType}
    {selections : List (List Selection)} {held : Json} {value : Value}
    (hat : plan.ObjectAt place path object selections held)
    (h : plan.ObjectLevel object selections value) : plan.ConformsAt place value := by
  cases hat with
  | level => exact .inr h
  | object _ hget => exact .object hget h
  | abstract _ hget habstract hruntime =>
    obtain ⟨⟨_, hobject⟩, hpossible⟩ := possible_of_runtimeType hruntime
    rw [TypeSystem.name_of_get? hget] at hpossible
    exact .abstract hget habstract hobject hpossible h

private theorem objectLevel_build {object : ObjectType} {groups : List FieldGroup}
    {held : Json} {selections : List (List Selection)} {values : List Value}
    (hcollect : plan.collect object.name selections = .ok groups)
    (hlength : values.length = groups.length)
    (h : ∀ (i : Nat) group value, groups[i]? = some group → values[i]? = some value →
      plan.ConformsAt (plan.placeOf object held path group) value) :
    plan.ObjectLevel object selections
      ((View.fields object groups held).build values) := by
  refine .fields hcollect (List.map_fst_zip (by simp [hlength])) ?_
  intro i group key value hgroup hfield
  rw [List.getElem?_zip_eq_some] at hfield
  exact fieldConforms_of_conformsAt (h i group value hgroup hfield.2)

private theorem conforms_build {place : Place} {site : FieldSite} {item : TypeExpr}
    {items : List Json}
    {values : List Value} {nullable : Bool}
    (hview : plan.view place path = .items (items.map fun value => .value site item (.ok value)))
    (hlength : values.length = (plan.inside place path).length)
    (h : ∀ (i : Nat) segment child value, (plan.inside place path)[i]? = some (segment, child) →
      values[i]? = some value → plan.ConformsAt child value) :
    plan.Conforms (.list item nullable) site.selections ((plan.view place path).build values) := by
  rw [hview]
  refine .list fun value hmem => ?_
  obtain ⟨i, hi, rfl⟩ := List.mem_iff_getElem.1 hmem
  have hitem : i < items.length := by
    rw [hlength, inside, hview] at hi
    simpa [children] using hi
  refine h i (.index i) (.value site item (.ok items[i])) values[i] ?_ (List.getElem?_eq_getElem hi)
  rw [getElem?_inside_items hview]
  simp [hitem]

/-- The values of completed places conform. -/
theorem Completes.conformsAt (htranslator : plan.schema.translator = .standard) {place : Place}
    {path : ResponsePath} {completion : Completion} (h : plan.Completes place path completion)
    {value : Value} (hvalue : completion.outcome = .ok value) : plan.ConformsAt place value := by
  induction h generalizing value with
  | @value place path shown hview =>
    obtain rfl : shown = value := Except.ok.inj hvalue
    have hshows := plan.shows_view place path
    rw [hview] at hshows
    cases hshows with
    | typename => exact ⟨_, rfl⟩
    | null _ hnullable => exact .null hnullable
    | leaf hnull hget _ hleaf =>
      rw [Schema.leaf, htranslator] at hleaf
      exact .leaf hget (TypeSystem.leafValue_of_serializeLeaf hnull hleaf)
  | failed =>
    rcases Completion.outcome_absorb_eq_ok_iff.1 hvalue with h | ⟨-, hnullable, rfl⟩
    · cases h
    · exact conformsAt_null hnullable
  | fatal => cases hvalue
  | @inner place path completions hinner hlength hinside ih =>
    rcases Completion.join_eq_ok hvalue with ⟨values, hvalues, rfl⟩ | ⟨hnullable, rfl, -⟩
    · have hlength' : values.length = (plan.inside place path).length :=
        (Completion.length_of_map_eq hvalues).trans hlength
      have hinside' (i : Nat) (segment : PathSegment) (child : Place) (result : Value)
          (hchild : (plan.inside place path)[i]? = some (segment, child))
          (hresult : values[i]? = some result) : plan.ConformsAt child result := by
        obtain ⟨completion, hcompletion, houtcome⟩ := Completion.outcome_of_map_eq hvalues hresult
        exact ih i segment child completion hchild hcompletion houtcome
      have hshows := plan.shows_view place path
      cases hview : plan.view place path with
      | value | failed | fatal =>
        rw [hview] at hinner
        cases hinner
      | items children =>
        rw [hview] at hshows
        cases hshows with
        | items => exact hview ▸ conforms_build hview hlength' hinside'
      | fields object groups held =>
        rw [hview] at hshows
        cases hshows with
        | fields hat hcollect =>
          have hfields (i : Nat) (group : FieldGroup) (result : Value)
              (hgroup : groups[i]? = some group) (hresult : values[i]? = some result) :
              plan.ConformsAt (plan.placeOf object held path group) result :=
            hinside' i _ _ result
              ((getElem?_inside_fields hview).2 ⟨group, hgroup, rfl, rfl⟩) hresult
          refine conformsAt_of_objectAt hat (objectLevel_build hcollect ?_ hfields)
          rw [hlength']
          simp [inside, hview, children]
    · exact conformsAt_null hnullable

/-- A response conforms to the schema and to the selections of its operation. -/
theorem conforms_of_execute {schema : ExecutableSchema} {settings : Settings}
    {request : Request} {response : Response} (htranslator : schema.translator = .standard)
    (h : (execute schema settings request).value = .ok response) :
    ∃ plan data, ofRequest schema settings request = .ok plan ∧
      schema.query? = some plan.rootType ∧ response.data = some data ∧
      (data = .null ∨ plan.ObjectLevel plan.rootType [plan.operation.selections] data) := by
  obtain ⟨plan, completion, data, hplan, hcompletes, houtcome, rfl⟩ :=
    exists_completes_of_execute h
  obtain ⟨hschema, -, hroot, -⟩ := accepted_of_ofRequest hplan
  have htranslator' : plan.schema.translator = .standard := by rw [hschema, htranslator]
  exact ⟨plan, data, hplan, hroot, rfl, hcompletes.conformsAt htranslator' houtcome⟩

end

/-- A schema with a list of boxes, each of which has a size. -/
def boxDraft : SchemaDraft :=
  [.object ⟨"Query", [⟨"count", .named "Int" true, []⟩,
      ⟨"boxes", .list (.named "Box" true) true, []⟩], []⟩,
    .object ⟨"Box", [⟨"size", .named "Int" false, []⟩, ⟨"label", .named "String" true, []⟩],
      []⟩].foldl SchemaDraft.register (.new "Query")

def boxSchema : ExecutableSchema :=
  { toTypeSystem := boxDraft.typeSystem
    resolvers := .parents
    directives := DirectiveSpec.builtins
    translator := .standard
    delays := .none }

/-- The request `{ count boxes { size label } }` for two boxes, one with a size that is none. -/
def boxRequest : Request :=
  let field (column : Nat) (name : String) (selections : List Selection) : Selection :=
    .field ⟨⟨1, column⟩, none, name, [], []⟩ selections
  { document :=
      { operations := .single ⟨⟨1, 1⟩, .query, [], [],
          [field 3 "count" [], field 9 "boxes" [field 17 "size" [], field 22 "label" []]]⟩
        fragments := [] }
    operationName := none
    inputs := .empty
    root := .object [("count", .number (.int 3)),
      ("boxes", .array [.object [("size", .string "wide"), ("label", .string "red")],
        .object [("size", .number (.int 2)), ("label", .null)]])] }

def boxResponse : Response :=
  { data := some (.object [("count", .number (.int 3)),
      ("boxes", .list [.null, .object [("size", .number (.int 2)), ("label", .null)]])])
    errors := [{
      message := "Int cannot represent value: \"wide\""
      code := .resolverError
      locations := [⟨1, 17⟩]
      path := some [.field "boxes", .index 0, .field "size"] }] }

theorem conforms_boxResponse :
    boxDraft.finish = .ok boxSchema ∧
      ∃ plan data, ofRequest boxSchema .default boxRequest = .ok plan ∧
        boxSchema.query? = some plan.rootType ∧ boxResponse.data = some data ∧
        (data = .null ∨ plan.ObjectLevel plan.rootType [plan.operation.selections] data) := by
  have hexecute : (execute boxSchema .default boxRequest).value = .ok boxResponse := rfl
  exact ⟨rfl, conforms_of_execute rfl hexecute⟩

/-- The schema in which counts are answered by a resolver that numbers its calls. -/
def numberedSchema : ExecutableSchema :=
  { boxSchema with
    resolvers := boxSchema.resolvers.update "Query" "count" <| .custom fun path _ =>
      .ok (.number (.int (if path = [.field "x"] then 1 else 2))) }

/-- The request `{ x: count y: count }`. -/
def numberedRequest : Request :=
  let count (key : String) : Selection := .field ⟨⟨1, 1⟩, some key, "count", [], []⟩ []
  { boxRequest with
    document := ⟨.single ⟨⟨1, 1⟩, .query, [], [], [count "x", count "y"]⟩, []⟩ }

example : (execute numberedSchema .default numberedRequest).value =
    .ok ⟨some (.object [("x", .number (.int 1)), ("y", .number (.int 2))]), []⟩ := rfl

end Plan

end GraphQuery
