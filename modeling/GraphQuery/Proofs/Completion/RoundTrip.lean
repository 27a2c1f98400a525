import GraphQuery.Proofs.Binding.Routes
import GraphQuery.Proofs.Completion.Arguments
import GraphQuery.Proofs.Completion.Outputs

/-!
# Outputs as inputs

Values of scalars and enums, in lists or not, that a response shows and that come back as inputs of
the same type. Main statement: under the standard translator they arrive unchanged, as native
values and through JSON.
-/

namespace GraphQuery

namespace Value

mutual

private theorem toJson_ofJson : ∀ value : Json, (ofJson value).toJson = value
  | .null | .bool _ | .number _ | .string _ => rfl
  | .array items => by rw [ofJson, toJson, itemsToJson_ofItems items]
  | .object fields => by rw [ofJson, toJson, fieldsToJson_ofFields fields]

private theorem itemsToJson_ofItems : ∀ items : List Json, itemsToJson (ofItems items) = items
  | [] => rfl
  | value :: rest => by rw [ofItems, itemsToJson, toJson_ofJson value, itemsToJson_ofItems rest]

private theorem fieldsToJson_ofFields :
    ∀ fields : List (String × Json), fieldsToJson (ofFields fields) = fields
  | [] => rfl
  | (key, value) :: rest => by
    rw [ofFields, fieldsToJson, toJson_ofJson value, fieldsToJson_ofFields rest]

end

private theorem ofJson_toJson_list (values : List Value) :
    ofJson (toJson (.list values)) = .list (values.map fun value => ofJson value.toJson) := by
  rw [toJson, ofJson, itemsToJson_eq_map, ofItems_eq_map, List.map_map]
  rfl

end Value

namespace TypeSystem

variable {system : TypeSystem} {held : Json} {value : Value}

private theorem ofJson_toJson_of_scalarLeaf? {kind : ScalarKind}
    (h : scalarLeaf? kind held = some value) :
    Value.ofJson value.toJson = value := by
  unfold scalarLeaf? at h
  split at h
  · obtain rfl := Option.some.inj h
    rw [Value.toJson_ofJson]
  · obtain ⟨i, -, rfl⟩ := Option.map_eq_some_iff.1 h
    rfl
  all_goals cases h
  all_goals rfl

private theorem coerceNamed_enum {name : String} {enum : EnumType}
    (hget : system.get? name = some (.enum enum)) {text : String} (hmem : text ∈ enum.values) :
    system.coerceNamed name (.string text) = .ok (.enum text) := by
  have hcontains : enum.values.contains text = true := List.contains_iff_mem.2 hmem
  simp only [coerceNamed, hget, coerceEnum, hcontains, if_true]

private theorem coerceNamed_of_serializeLeaf {name : String} {type : TypeDefinition}
    (hget : system.get? name = some type) (hheld : held.isNull = false)
    (h : serializeLeaf type held = .ok value) :
    Value.ofJson value.toJson ≠ .null ∧
      system.coerceNamed name (.ofJson value.toJson) = .ok value := by
  have hvalue := leafValue_of_serializeLeaf hheld h
  cases type with
  | object | interface | union => cases h
  | scalar scalar =>
    rw [ofJson_toJson_of_scalarLeaf? (scalarLeaf?_of_serializeLeaf h)]
    exact ⟨hvalue.ne_null, coerceNamed_of_leafValue hget hvalue⟩
  | enum enum =>
    cases hvalue with
    | enum hmem => exact ⟨nofun, coerceNamed_enum hget hmem⟩

end TypeSystem

namespace Plan

section

variable {plan : Plan} {type : TypeExpr} {held : Json} {result : Value}

private theorem serializeLeaf_of_standard (hstandard : plan.schema.translator = .standard)
    {definition : TypeDefinition} (h : plan.schema.leaf definition held = .ok result) :
    TypeSystem.serializeLeaf definition held = .ok result := by
  rwa [Schema.leaf, hstandard] at h

/-- An output comes back from every form of it that keeps lists and nulls and from which its leaves
come back. -/
theorem Output.coerceInput_eq (h : plan.Output type held result)
    (hstandard : plan.schema.translator = .standard) {definition : TypeDefinition}
    (htype : plan.system.innermost? type = some definition) (hleaf : definition.isLeaf = true)
    {form : Value → Value} (hnull : form .null = .null)
    (hlist : ∀ values, form (.list values) = .list (values.map form))
    (hleaves : ∀ name definition held value, plan.system.get? name = some definition →
      held.isNull = false → TypeSystem.serializeLeaf definition held = .ok value →
      form value ≠ .null ∧ plan.system.coerceNamed name (form value) = .ok value) :
    plan.system.coerceInput type (form result) = .ok result := by
  induction h with
  | @null type held hnullable =>
    rw [hnull]
    cases type with
    | named | list => exact if_pos hnullable
  | leaf hheld hget _ hvalue =>
    obtain ⟨hne, hcoerce⟩ :=
      hleaves _ _ _ _ hget hheld (serializeLeaf_of_standard hstandard hvalue)
    unfold TypeSystem.coerceInput
    split
    · next hform => exact absurd hform hne
    · exact hcoerce
  | object hget hnoleaf =>
    obtain rfl := Option.some.inj (hget.symm.trans htype)
    cases hleaf.symm.trans hnoleaf
  | @list item nullable held items values _ hlength _ ih =>
    have hitems : ∀ value ∈ values, plan.system.coerceInput item (form value) = .ok value := by
      intro value hmem
      obtain ⟨i, hvalue⟩ := List.mem_iff_getElem?.1 hmem
      obtain ⟨inner, hinner⟩ := exists_getElem?_of_length_eq hlength hvalue
      exact ih i inner value hinner hvalue htype
    simp only [hlist, TypeSystem.coerceInput, TypeSystem.coerceItems_map hitems]
    rfl

/-- Under the standard translator, what a position of scalars or enums returns is an input value of
the same type: coercion leaves it as it is, brings it back from its JSON, and gives it to every
variable of the type that is supplied with this JSON. -/
theorem coerce_of_completeValue (hstandard : plan.schema.translator = .standard)
    {definition : TypeDefinition} (htype : plan.system.innermost? type = some definition)
    (hleaf : definition.isLeaf = true)
    (buffering : Future.Buffering ResponsePath Event Completion) (depth : Nat) (site : FieldSite)
    (path : ResponsePath)
    (h : (plan.completeValue (buffering.gather plan.limit)
      (plan.levelAt (buffering.gather plan.limit) depth) site type held path).value.outcome =
        .ok result) :
    plan.schema.coerce type result = .ok result ∧
      plan.schema.coerce type (.ofJson result.toJson) = .ok result ∧
      ∀ (declared : VariableDefinition) (inputs : Variables), declared.type = type →
        inputs.get? declared.name = some (.ofJson result.toJson) →
        declared.coerce plan.schema inputs = .ok result := by
  have houtput := output_of_completeValue (ordered_gather buffering)
    (buildsObjects_levelAt _ depth) type h
  have hcoerce (value : Value) :
      plan.schema.coerce type value = plan.system.coerceInput type value := by
    rw [Schema.coerce, hstandard]
    rfl
  have hself : plan.schema.coerce type result = .ok result := by
    rw [hcoerce]
    refine houtput.coerceInput_eq hstandard htype hleaf rfl (fun values => by rw [List.map_id'])
      fun name definition held value hget hheld hvalue => ?_
    have hleaf := TypeSystem.leafValue_of_serializeLeaf hheld hvalue
    exact ⟨hleaf.ne_null, TypeSystem.coerceNamed_of_leafValue hget hleaf⟩
  have hjson : plan.schema.coerce type (.ofJson result.toJson) = .ok result := by
    rw [hcoerce]
    exact houtput.coerceInput_eq hstandard htype hleaf rfl Value.ofJson_toJson_list
      fun name definition held value => TypeSystem.coerceNamed_of_serializeLeaf
  refine ⟨hself, hjson, fun declared inputs hdeclared hsupplied => ?_⟩
  rw [VariableDefinition.Holds.coerce_eq (.supplied hsupplied)
    ⟨definition, hdeclared ▸ htype, hleaf⟩, hdeclared, hjson]
  rfl

end

/-- A plan under a schema with an enum. -/
def countPlan : Plan :=
  { schema := countSchema.toSchema
    values := []
    fragments := []
    delays := countSchema.delays
    settings := .default
    operation := ⟨⟨1, 1⟩, .query, [], [], []⟩
    rootType := countQuery
    root := .null
    depth := 0 }

/-- Sizes and a null among them are shown as they are, and come back as native values and as the
strings that a client reads. -/
theorem coerce_sizes :
    let sizes := TypeExpr.list (.named "Size" true) true
    (countPlan.completeValue countPlan.schedule (countPlan.levelAt countPlan.schedule 0)
        ⟨"Query", "sizes", ⟨1, 3⟩, []⟩ sizes (.array [.string "LARGE", .null]) []).value =
          .ok (.list [.enum "LARGE", .null]) ∧
      countSchema.coerce sizes (.list [.enum "LARGE", .null]) =
        .ok (.list [.enum "LARGE", .null]) ∧
      countSchema.coerce sizes (.list [.string "LARGE", .null]) =
        .ok (.list [.enum "LARGE", .null]) := by
  have h : (countPlan.completeValue countPlan.schedule (countPlan.levelAt countPlan.schedule 0)
      ⟨"Query", "sizes", ⟨1, 3⟩, []⟩ (.list (.named "Size" true) true)
      (.array [.string "LARGE", .null]) []).value = .ok (.list [.enum "LARGE", .null]) := rfl
  have hstandard : countPlan.schema.translator = .standard := rfl
  have htype : countPlan.system.innermost? (.list (.named "Size" true) true) =
      some (.enum ⟨"Size", ["SMALL", "LARGE"]⟩) := rfl
  obtain ⟨hself, hjson, -⟩ := coerce_of_completeValue hstandard htype rfl (.rounds ..) 0
    ⟨"Query", "sizes", ⟨1, 3⟩, []⟩ [] (congrArg Completion.outcome h)
  exact ⟨h, hself, hjson⟩

end Plan

end GraphQuery
