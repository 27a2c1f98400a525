import GraphQuery.Proofs.Schema.ParameterPlace

/-!
# Another default

A draft that can be finished, with another default for one of its parameters. Main statement: the
default is coerced on its own, and it becomes the default of the schema or is reported at its place.
-/

namespace GraphQuery

theorem ExecutableSchema.coerce_withDefault (schema : ExecutableSchema)
    (htranslator : schema.translator = .standard) (place : ParameterPlace) (value : Value) :
    (schema.withDefault place value).coerce = schema.coerce := by
  have hsystem : (schema.withDefault place value).toTypeSystem.withoutDefaults =
      schema.toTypeSystem.withoutDefaults :=
    congrArg (TypeSystem.mk _) (place.map_withoutDefaults_modifyTypes value schema.types)
  have htranslator' : (schema.withDefault place value).translator = .standard := htranslator
  funext type given
  rw [Schema.coerce, Schema.coerce, htranslator, htranslator']
  exact congrFun (congrFun (TypeSystem.coerceInput_congr hsystem) type) given

namespace SchemaDraft

section

variable {system : BoundSystem} (value : Value)

private theorem settleParameter_withDefault {referrer : String → Referrer}
    {parameter settled : Parameter}
    (h : settleParameter .standard system referrer parameter = .ok settled) :
    settleParameter .standard system referrer (parameter.withDefault value) =
      (fun coerced => settled.withDefault coerced) <$>
        (system.coerceInput parameter.type value).mapError
          (.invalidDefaultValue (referrer parameter.name)) := by
  have hcoerced := settleParameter_eq_ok_iff.1 h
  have hsettled (coerced : Value) :
      settled.withDefault coerced = parameter.withDefault coerced := by
    rw [Parameter.withDefault, hcoerced.name, hcoerced.type, hcoerced.description]
    rfl
  simp only [hsettled, settleParameter]
  cases hcoerced : system.coerceInput parameter.type value with
  | ok coerced => simp only [Parameter.withDefault, Translator.standard, hcoerced]; rfl
  | error source => simp only [Parameter.withDefault, Translator.standard, hcoerced]; rfl

variable {k : Nat} {parameter : Parameter}

private theorem settleField_withDefault {owner : String} {field settled : FieldDefinition}
    (h : settleField .standard system owner field = .ok settled)
    (hparameter : field.arguments[k]? = some parameter) :
    settleField .standard system owner (field.modifyArgument k (Parameter.withDefault value)) =
      (fun coerced => settled.modifyArgument k (Parameter.withDefault coerced)) <$>
        (system.coerceInput parameter.type value).mapError
          (.invalidDefaultValue (.argument owner field.name parameter.name)) := by
  simp only [settleField, bind_eq_ok_iff, pure_eq_ok_iff] at h
  obtain ⟨arguments, harguments, rfl⟩ := h
  have hmodify := mapM_modify harguments hparameter fun _ =>
    settleParameter_withDefault value
  simp only [settleField, FieldDefinition.modifyArgument, hmodify]
  cases system.coerceInput parameter.type value <;> rfl

private theorem settleDirective_withDefault {spec settled : DirectiveSpec}
    (h : settleDirective .standard system spec = .ok settled)
    (hparameter : spec.arguments[k]? = some parameter) :
    settleDirective .standard system (spec.modifyArgument k (Parameter.withDefault value)) =
      (fun coerced => settled.modifyArgument k (Parameter.withDefault coerced)) <$>
        (system.coerceInput parameter.type value).mapError
          (.invalidDefaultValue (.directiveArgument spec.name parameter.name)) := by
  simp only [settleDirective, bind_eq_ok_iff, pure_eq_ok_iff] at h
  obtain ⟨arguments, harguments, rfl⟩ := h
  have hmodify := mapM_modify harguments hparameter fun _ =>
    settleParameter_withDefault value
  simp only [settleDirective, DirectiveSpec.modifyArgument, hmodify]
  cases system.coerceInput parameter.type value <;> rfl

private theorem settleType_withDefault {j : Nat} {type settled : TypeDefinition}
    {field : FieldDefinition}
    (h : settleType .standard system type = .ok settled) (hfield : type.fields[j]? = some field)
    (hparameter : field.arguments[k]? = some parameter) :
    settleType .standard system (type.mapFields fun fields =>
        fields.modify j (FieldDefinition.modifyArgument k (Parameter.withDefault value))) =
      (fun coerced => settled.mapFields fun fields =>
        fields.modify j (FieldDefinition.modifyArgument k (Parameter.withDefault coerced))) <$>
        (system.coerceInput parameter.type value).mapError
          (.invalidDefaultValue (.argument type.name field.name parameter.name)) := by
  cases type with
  | union | enum | scalar => cases hfield
  | object | interface =>
    simp only [settleType, bind_eq_ok_iff, pure_eq_ok_iff] at h
    obtain ⟨fields, hfields, rfl⟩ := h
    have hmodify := mapM_modify hfields hfield fun _ hsettled =>
      settleField_withDefault value hsettled hparameter
    simp only [settleType, TypeDefinition.mapFields, hmodify]
    cases system.coerceInput parameter.type value <;> rfl

end

variable {draft : SchemaDraft} {schema : ExecutableSchema}

private theorem sameButDefaults_withDefault (draft : SchemaDraft) (place : ParameterPlace)
    (value : Value) :
    draft.SameButDefaults (draft.withDefault place value) :=
  ⟨rfl, place.map_withoutDefaults_modifyTypes value draft.types,
    place.map_withoutDefaults_modifyDirectives value draft.directives⟩

private theorem types_withPossibleTypes_withDefault (draft : SchemaDraft) (place : ParameterPlace)
    (value : Value) :
    (withPossibleTypes (draft.withDefault place value).typeSystem).types =
      place.modifyTypes (Parameter.withDefault value)
        (withPossibleTypes draft.typeSystem).types := by
  have hdeclarers (interface : String) :
      declarersOf (draft.withDefault place value).types interface =
        declarersOf draft.types interface := by
    rw [← declarersOf_withoutDefaults, (draft.sameButDefaults_withDefault place value).types,
      declarersOf_withoutDefaults]
  simp only [withPossibleTypes, typeSystem, hdeclarers]
  cases place with
  | directive i k => rfl
  | field i j k => exact map_modify (fun type => by cases type <;> rfl) draft.types i

private theorem settleTypes_withDefault {types : List TypeDefinition} (draft : SchemaDraft)
    (htypes : (withPossibleTypes draft.typeSystem).types.mapM
      (settleType .standard ⟨withPossibleTypes draft.typeSystem, draft.resolvers⟩) = .ok types)
    {i j k : Nat} {referrer : Referrer} {parameter : Parameter}
    (hplace : (ParameterPlace.field i j k).find? draft.types draft.directives =
      some (referrer, parameter)) (value : Value) :
    ((ParameterPlace.field i j k).modifyTypes (Parameter.withDefault value)
        (withPossibleTypes draft.typeSystem).types).mapM
        (settleType .standard ⟨withPossibleTypes draft.typeSystem, draft.resolvers⟩) =
      (fun coerced =>
          (ParameterPlace.field i j k).modifyTypes (Parameter.withDefault coerced) types) <$>
        ((withPossibleTypes draft.typeSystem).coerceInput parameter.type value).mapError
          (.invalidDefaultValue referrer) := by
  obtain ⟨type, field, htype, hfield, hparameter, rfl⟩ := ParameterPlace.of_find?_field hplace
  obtain ⟨shown, hshown, hfields, hname⟩ :
      ∃ shown, (withPossibleTypes draft.typeSystem).types[i]? = some shown ∧
        shown.fields = type.fields ∧ shown.name = type.name := by
    rw [withPossibleTypes, List.getElem?_map, typeSystem, htype]
    refine ⟨_, rfl, ?_, ?_⟩ <;> cases type <;> rfl
  rw [← hname]
  exact mapM_modify htypes hshown fun _ hsettled =>
    settleType_withDefault value hsettled (hfields ▸ hfield) hparameter

private theorem finish_withDefault_eq (hfinish : draft.finish = .ok schema)
    (htranslator : draft.translator = .standard) (place : ParameterPlace) (value : Value) :
    (draft.withDefault place value).finish = (do
      let types ← (place.modifyTypes (Parameter.withDefault value)
        (withPossibleTypes draft.typeSystem).types).mapM
          (settleType .standard ⟨withPossibleTypes draft.typeSystem, draft.resolvers⟩)
      let directives ← (place.modifyDirectives (Parameter.withDefault value) draft.directives).mapM
        (settleDirective .standard ⟨⟨draft.queryType, types⟩, draft.resolvers⟩)
      pure { queryType := draft.queryType, types, resolvers := draft.resolvers, directives,
             translator := .standard, delays := draft.delays }) := by
  have hsame := draft.sameButDefaults_withDefault place value
  have htranslator' : (draft.withDefault place value).translator = .standard := htranslator
  simp only [finish, bind_eq_ok_iff] at hfinish
  obtain ⟨⟨⟩, hdistinct, ⟨⟩, hquery, ⟨⟩, hchecks, ⟨⟩, hdirectivechecks, -⟩ := hfinish
  have hsettle : settleType .standard ⟨withPossibleTypes (draft.withDefault place value).typeSystem,
        (draft.withDefault place value).resolvers⟩ =
      settleType .standard ⟨withPossibleTypes draft.typeSystem, draft.resolvers⟩ :=
    settleType_congr hsame.withPossibleTypes
  rw [finish_of_checks (hsame.checkDistinct.trans hdistinct) (hsame.checkQueryType.trans hquery)
    (hsame.checkTypes.trans hchecks) (hsame.checkDirectives.trans hdirectivechecks), htranslator',
    hsettle, types_withPossibleTypes_withDefault]
  rfl

/-- Another default is coerced on its own, and becomes the default of the schema or is reported at
its place. -/
theorem finish_withDefault (hfinish : draft.finish = .ok schema)
    (htranslator : draft.translator = .standard) {place : ParameterPlace} {referrer : Referrer}
    {parameter : Parameter}
    (hplace : place.find? draft.types draft.directives = some (referrer, parameter))
    (value : Value) :
    (draft.withDefault place value).finish = schema.withDefault place <$>
      (schema.coerce parameter.type value).mapError (.invalidDefaultValue referrer) := by
  have hsettled := (withoutDefaults_of_finish hfinish).1
  rw [finish_withDefault_eq hfinish htranslator]
  simp only [finish, bind_eq_ok_iff, pure_eq_ok_iff] at hfinish
  obtain ⟨⟨⟩, -, ⟨⟩, -, ⟨⟩, -, ⟨⟩, -, types, htypes, directives, hdirectives, hschema⟩ := hfinish
  rw [htranslator] at htypes hdirectives
  rw [← hschema] at hsettled
  have hcoerce : (TypeSystem.mk draft.queryType types).coerceInput =
      (withPossibleTypes draft.typeSystem).coerceInput := TypeSystem.coerceInput_congr hsettled
  have hcoerceSchema : schema.coerce = (withPossibleTypes draft.typeSystem).coerceInput := by
    funext type value
    rw [← hcoerce, ← hschema]
    simp only [Schema.coerce, htranslator]
    rfl
  rw [hcoerceSchema, ← hschema, htranslator]
  cases place with
  | field i j k =>
    rw [settleTypes_withDefault draft htypes hplace value]
    cases (withPossibleTypes draft.typeSystem).coerceInput parameter.type value with
    | error fault => rfl
    | ok coerced =>
      -- The directives were settled with the types before, which differ in the default only.
      have hdirectives' : draft.directives.mapM (settleDirective .standard
          ⟨⟨draft.queryType, (ParameterPlace.field i j k).modifyTypes
            (Parameter.withDefault coerced) types⟩, draft.resolvers⟩) = .ok directives := by
        refine (congrArg draft.directives.mapM (settleDirective_congr ?_)).trans hdirectives
        simp only [TypeSystem.withoutDefaults, ParameterPlace.map_withoutDefaults_modifyTypes]
        rfl
      exact congrArg (Functor.map _) hdirectives'
  | directive i k =>
    obtain ⟨spec, hspec, hparameter, rfl⟩ := ParameterPlace.of_find?_directive hplace
    have hmodify := mapM_modify
      (f := settleDirective .standard ⟨⟨draft.queryType, types⟩, draft.resolvers⟩) hdirectives hspec
      fun _ hsettled => settleDirective_withDefault value hsettled hparameter
    rw [hcoerce] at hmodify
    rw [ParameterPlace.modifyTypes, htypes]
    refine (congrArg (Functor.map _) hmodify).trans ?_
    cases (withPossibleTypes draft.typeSystem).coerceInput parameter.type value <;> rfl

end SchemaDraft

end GraphQuery
