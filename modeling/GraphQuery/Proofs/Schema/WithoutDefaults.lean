import GraphQuery.Proofs.Schema.Coerced

/-!
# Types without defaults

Defaults are checked by the coercion of their values alone. Main statements: the other checks of a
draft, and the coercion itself, are the same for types whose defaults are left out.
-/

namespace GraphQuery

def Parameter.withoutDefault (parameter : Parameter) : Parameter :=
  { parameter with default := none }

def FieldDefinition.withoutDefaults (field : FieldDefinition) : FieldDefinition :=
  { field with arguments := field.arguments.map Parameter.withoutDefault }

/-- Changes the fields of an object or of an interface. -/
def TypeDefinition.mapFields (change : List FieldDefinition → List FieldDefinition) :
    TypeDefinition → TypeDefinition
  | .object type => .object { type with fields := change type.fields }
  | .interface type => .interface { type with fields := change type.fields }
  | type => type

def TypeDefinition.withoutDefaults : TypeDefinition → TypeDefinition :=
  mapFields (List.map FieldDefinition.withoutDefaults)

def DirectiveSpec.withoutDefaults (spec : DirectiveSpec) : DirectiveSpec :=
  { spec with arguments := spec.arguments.map Parameter.withoutDefault }

def TypeSystem.withoutDefaults (system : TypeSystem) : TypeSystem :=
  { system with types := system.types.map TypeDefinition.withoutDefaults }

namespace TypeDefinition

variable (change : List FieldDefinition → List FieldDefinition) (type : TypeDefinition)

@[simp] theorem name_mapFields : (type.mapFields change).name = type.name := by
  cases type <;> rfl

@[simp] theorem isInput_mapFields : (type.mapFields change).isInput = type.isInput := by
  cases type <;> rfl

theorem mapFields_mapFields (other : List FieldDefinition → List FieldDefinition) :
    (type.mapFields change).mapFields other =
      type.mapFields fun fields => other (change fields) := by
  cases type <;> rfl

@[simp] theorem name_withoutDefaults : type.withoutDefaults.name = type.name :=
  name_mapFields _ type

@[simp] theorem isInput_withoutDefaults : type.withoutDefaults.isInput = type.isInput :=
  isInput_mapFields _ type

theorem fields_withoutDefaults :
    type.withoutDefaults.fields = type.fields.map FieldDefinition.withoutDefaults := by
  cases type <;> rfl

end TypeDefinition

namespace TypeSystem

variable (system : TypeSystem)

private theorem queryType_withoutDefaults :
    system.withoutDefaults.queryType = system.queryType := rfl

private theorem get?_withoutDefaults (name : String) :
    system.withoutDefaults.get? name = (system.get? name).map TypeDefinition.withoutDefaults := by
  have hname : (fun type : TypeDefinition => type.name == name) ∘ TypeDefinition.withoutDefaults =
      fun type => type.name == name := by
    funext type
    rw [Function.comp, TypeDefinition.name_withoutDefaults]
  rw [get?, get?, withoutDefaults, List.find?_map, hname]

private theorem coerceInput_withoutDefaults :
    system.withoutDefaults.coerceInput = system.coerceInput := by
  refine coerceInput_of_leaves fun name leaf hleaf => ?_
  rw [get?_withoutDefaults]
  cases system.get? name with
  | none => rfl
  | some type =>
    cases type with
    | union | enum | scalar => rfl
    | object | interface =>
      simp only [Option.map_some, Option.some.injEq]
      exact eq_leaf_iff_of_not_leaf rfl rfl hleaf

theorem coerceInput_congr {system other : TypeSystem}
    (h : other.withoutDefaults = system.withoutDefaults) :
    other.coerceInput = system.coerceInput := by
  rw [← other.coerceInput_withoutDefaults, h, system.coerceInput_withoutDefaults]

end TypeSystem

namespace SchemaDraft

variable (system : TypeSystem)

private theorem checkDistinct_withoutDefaults (seen : List String) (types : List TypeDefinition) :
    checkDistinct seen (types.map TypeDefinition.withoutDefaults) = checkDistinct seen types := by
  induction types generalizing seen with
  | nil => rfl
  | cons type rest ih =>
    simp only [List.map_cons, checkDistinct, TypeDefinition.name_withoutDefaults, ih]

private theorem checkQueryType_withoutDefaults :
    checkQueryType system.withoutDefaults = checkQueryType system := by
  unfold checkQueryType
  rw [TypeSystem.get?_withoutDefaults, TypeSystem.queryType_withoutDefaults]
  cases system.get? system.queryType with
  | none => rfl
  | some type => cases type <;> rfl

private theorem checkReference_withoutDefaults (type : TypeExpr) (referrer : Referrer) :
    checkReference system.withoutDefaults type referrer = checkReference system type referrer := by
  unfold checkReference TypeSystem.innermost?
  rw [TypeSystem.get?_withoutDefaults]
  cases system.get? type.innermost <;> rfl

private theorem checkInputReference_withoutDefaults (type : TypeExpr) (referrer : Referrer) :
    checkInputReference system.withoutDefaults type referrer =
      checkInputReference system type referrer := by
  unfold checkInputReference TypeSystem.innermost?
  rw [TypeSystem.get?_withoutDefaults]
  cases system.get? type.innermost with
  | none => rfl
  | some found => simp only [Option.map_some, TypeDefinition.isInput_withoutDefaults]

theorem checkInputReference_congr {system other : TypeSystem}
    (h : other.withoutDefaults = system.withoutDefaults) (type : TypeExpr) (referrer : Referrer) :
    checkInputReference other type referrer = checkInputReference system type referrer := by
  rw [← checkInputReference_withoutDefaults, h, checkInputReference_withoutDefaults]

private theorem checkField_withoutDefaults (owner : String) (field : FieldDefinition) :
    checkField system.withoutDefaults owner field.withoutDefaults =
      checkField system owner field := by
  have harguments : (field.arguments.map Parameter.withoutDefault).forM (fun argument =>
        checkInputReference system argument.type (.argument owner field.name argument.name)) =
      field.arguments.forM fun argument =>
        checkInputReference system argument.type (.argument owner field.name argument.name) :=
    List.forM_map
  simp only [checkField, checkReference_withoutDefaults, checkInputReference_withoutDefaults]
  exact bind_congr fun _ => harguments

private theorem checkImplements_withoutDefaults (object : ObjectType) (interface : String) :
    checkImplements system.withoutDefaults
        { object with fields := object.fields.map FieldDefinition.withoutDefaults } interface =
      checkImplements system object interface := by
  have hfield (name : String) :
      ((FieldDefinition.find? (object.fields.map FieldDefinition.withoutDefaults) name).isNone) =
        (FieldDefinition.find? object.fields name).isNone := by
    rw [FieldDefinition.find?, List.find?_map, Option.isNone_map]
    rfl
  unfold checkImplements
  rw [TypeSystem.get?_withoutDefaults]
  cases system.get? interface with
  | none => rfl
  | some type =>
    cases type with
    | object | union | enum | scalar => rfl
    | interface type =>
      have hmissing : (type.fields.map FieldDefinition.withoutDefaults).find? (fun field =>
            (FieldDefinition.find? (object.fields.map FieldDefinition.withoutDefaults)
              field.name).isNone) =
          (type.fields.find? fun field =>
            (FieldDefinition.find? object.fields field.name).isNone).map
            FieldDefinition.withoutDefaults := by
        simp only [hfield, List.find?_map]
        rfl
      simp only [Option.map_some, TypeDefinition.withoutDefaults, TypeDefinition.mapFields,
        ObjectType.field?, hmissing]
      cases type.fields.find? fun field =>
        (FieldDefinition.find? object.fields field.name).isNone <;> rfl

private theorem checkMember_withoutDefaults (union member : String) :
    checkMember system.withoutDefaults union member = checkMember system union member := by
  unfold checkMember TypeSystem.object?
  rw [TypeSystem.get?_withoutDefaults]
  cases system.get? member with
  | none => rfl
  | some type => cases type <;> rfl

private theorem checkType_withoutDefaults (type : TypeDefinition) :
    checkType system.withoutDefaults type.withoutDefaults = checkType system type := by
  have hfields : (type.fields.map FieldDefinition.withoutDefaults).forM
        (checkField system.withoutDefaults type.name) =
      type.fields.forM (checkField system type.name) := by
    have hfield : (fun field => checkField system.withoutDefaults type.name
        (FieldDefinition.withoutDefaults field)) = checkField system type.name :=
      funext (checkField_withoutDefaults system type.name)
    exact List.forM_map.trans (congrArg type.fields.forM hfield)
  unfold checkType
  rw [TypeDefinition.fields_withoutDefaults, TypeDefinition.name_withoutDefaults, hfields]
  refine bind_congr fun _ => ?_
  cases type with
  | interface | enum | scalar => rfl
  | object object =>
    exact congrArg object.implements.forM (funext (checkImplements_withoutDefaults system object))
  | union union =>
    exact congrArg union.members.forM (funext (checkMember_withoutDefaults system union.name))

private theorem checkDirective_withoutDefaults (spec : DirectiveSpec) :
    checkDirective system.withoutDefaults spec.withoutDefaults = checkDirective system spec := by
  simp only [checkDirective, checkInputReference_withoutDefaults]
  exact List.forM_map

theorem declarersOf_withoutDefaults (types : List TypeDefinition) (interface : String) :
    declarersOf (types.map TypeDefinition.withoutDefaults) interface =
      declarersOf types interface := by
  rw [declarersOf, List.flatMap_map]
  refine congrArg (List.flatMap · types) (funext fun type => ?_)
  cases type <;> rfl

private theorem withPossibleTypes_withoutDefaults :
    withPossibleTypes system.withoutDefaults = (withPossibleTypes system).withoutDefaults := by
  unfold withPossibleTypes TypeSystem.withoutDefaults
  simp only [List.map_map, declarersOf_withoutDefaults]
  congr 1
  refine List.map_congr_left fun type _ => ?_
  cases type <;> rfl

/-- The drafts differ in their defaults at most. -/
structure SameButDefaults (draft other : SchemaDraft) : Prop where
  queryType : other.queryType = draft.queryType
  types : other.types.map TypeDefinition.withoutDefaults =
    draft.types.map TypeDefinition.withoutDefaults
  directives : other.directives.map DirectiveSpec.withoutDefaults =
    draft.directives.map DirectiveSpec.withoutDefaults

namespace SameButDefaults

variable {draft other : SchemaDraft}

private theorem typeSystem (h : draft.SameButDefaults other) :
    other.typeSystem.withoutDefaults = draft.typeSystem.withoutDefaults := by
  simp only [TypeSystem.withoutDefaults, SchemaDraft.typeSystem, h.queryType, h.types]

theorem withPossibleTypes (h : draft.SameButDefaults other) :
    (SchemaDraft.withPossibleTypes other.typeSystem).withoutDefaults =
      (SchemaDraft.withPossibleTypes draft.typeSystem).withoutDefaults := by
  rw [← withPossibleTypes_withoutDefaults, ← withPossibleTypes_withoutDefaults, h.typeSystem]

theorem checkDistinct (h : draft.SameButDefaults other) :
    SchemaDraft.checkDistinct [] other.types = SchemaDraft.checkDistinct [] draft.types := by
  rw [← checkDistinct_withoutDefaults, h.types, checkDistinct_withoutDefaults]

theorem checkQueryType (h : draft.SameButDefaults other) :
    SchemaDraft.checkQueryType other.typeSystem = SchemaDraft.checkQueryType draft.typeSystem := by
  rw [← checkQueryType_withoutDefaults, h.typeSystem, checkQueryType_withoutDefaults]

theorem checkTypes (h : draft.SameButDefaults other) :
    other.types.forM (checkType other.typeSystem) =
      draft.types.forM (checkType draft.typeSystem) := by
  have hforM (system : TypeSystem) (types : List TypeDefinition) :
      (types.map TypeDefinition.withoutDefaults).forM (checkType system.withoutDefaults) =
        types.forM (checkType system) :=
    List.forM_map.trans (congrArg types.forM (funext (checkType_withoutDefaults system)))
  rw [← hforM, h.types, h.typeSystem, hforM]

theorem checkDirectives (h : draft.SameButDefaults other) :
    other.directives.forM (checkDirective (SchemaDraft.withPossibleTypes other.typeSystem)) =
      draft.directives.forM
        (checkDirective (SchemaDraft.withPossibleTypes draft.typeSystem)) := by
  have hforM (system : TypeSystem) (directives : List DirectiveSpec) :
      (directives.map DirectiveSpec.withoutDefaults).forM (checkDirective system.withoutDefaults) =
        directives.forM (checkDirective system) :=
    List.forM_map.trans (congrArg directives.forM (funext (checkDirective_withoutDefaults system)))
  rw [← hforM, h.directives, h.withPossibleTypes, hforM]

end SameButDefaults

section

variable {system other : BoundSystem}

private theorem settleParameter_congr (h : other.withoutDefaults = system.withoutDefaults) :
    settleParameter .standard other = settleParameter .standard system := by
  funext referrer parameter
  simp only [settleParameter, Translator.standard, TypeSystem.coerceInput_congr h]

theorem settleType_congr (h : other.withoutDefaults = system.withoutDefaults) :
    settleType .standard other = settleType .standard system := by
  have hfield : settleField .standard other = settleField .standard system := by
    funext owner field
    rw [settleField, settleField, settleParameter_congr h]
  funext type
  cases type with
  | object | interface => rw [settleType, settleType, hfield]
  | union | enum | scalar => rfl

theorem settleDirective_congr (h : other.withoutDefaults = system.withoutDefaults) :
    settleDirective .standard other = settleDirective .standard system := by
  funext spec
  rw [settleDirective, settleDirective, settleParameter_congr h]

end

end SchemaDraft

section

variable {coerce : InputCoercion}

private theorem Parameter.Coerced.withoutDefault {declared coerced : Parameter}
    (h : declared.Coerced coerce coerced) : coerced.withoutDefault = declared.withoutDefault := by
  rw [Parameter.withoutDefault, h.name, h.type, h.description]
  rfl

private theorem Parameter.Coerced.map_withoutDefault {declared coerced : List Parameter}
    (h : List.Forall₂ (Parameter.Coerced coerce) declared coerced) :
    coerced.map Parameter.withoutDefault = declared.map Parameter.withoutDefault :=
  map_eq_of_forall₂ h fun _ _ => Parameter.Coerced.withoutDefault

private theorem FieldDefinition.Coerced.withoutDefaults {declared coerced : FieldDefinition}
    (h : declared.Coerced coerce coerced) : coerced.withoutDefaults = declared.withoutDefaults := by
  rw [FieldDefinition.withoutDefaults, h.name, h.type,
    Parameter.Coerced.map_withoutDefault h.arguments]
  rfl

private theorem TypeDefinition.Coerced.withoutDefaults {registered : List TypeDefinition}
    {declared coerced : TypeDefinition} (h : declared.Coerced registered coerce coerced) :
    coerced.withoutDefaults = (declared.withDeclarers registered).withoutDefaults := by
  have hmap {fields fields' : List FieldDefinition}
      (hfields : List.Forall₂ (FieldDefinition.Coerced coerce) fields fields') :
      fields'.map FieldDefinition.withoutDefaults = fields.map FieldDefinition.withoutDefaults :=
    map_eq_of_forall₂ hfields fun _ _ => FieldDefinition.Coerced.withoutDefaults
  cases h with
  | object hfields =>
    simp only [TypeDefinition.withDeclarers, TypeDefinition.withoutDefaults, mapFields,
      hmap hfields]
  | interface hfields =>
    simp only [TypeDefinition.withDeclarers, TypeDefinition.withoutDefaults, mapFields,
      hmap hfields, SchemaDraft.declarersOf_eq_flatMap]
  | union | enum | scalar => rfl

private theorem DirectiveSpec.Coerced.withoutDefaults {declared coerced : DirectiveSpec}
    (h : declared.Coerced coerce coerced) : coerced.withoutDefaults = declared.withoutDefaults := by
  rw [DirectiveSpec.withoutDefaults, h.name, h.description, h.locations, h.predicate, h.hook,
    Parameter.Coerced.map_withoutDefault h.arguments]
  rfl

end

namespace SchemaDraft

/-- The schema has what the draft has, but for possible types and defaults. -/
theorem withoutDefaults_of_finish {draft : SchemaDraft} {schema : ExecutableSchema}
    (hfinish : draft.finish = .ok schema) :
    schema.toTypeSystem.withoutDefaults =
        (withPossibleTypes draft.typeSystem).withoutDefaults ∧
      schema.directives.map DirectiveSpec.withoutDefaults =
        draft.directives.map DirectiveSpec.withoutDefaults := by
  simp only [finish, bind_eq_ok_iff, pure_eq_ok_iff] at hfinish
  obtain ⟨⟨⟩, -, ⟨⟩, -, ⟨⟩, -, ⟨⟩, -, types, htypes, directives, hdirectives, rfl⟩ := hfinish
  have htypes' := map_eq_of_forall₂ (settleTypes_eq_ok_iff.1 htypes)
    fun _ _ => TypeDefinition.Coerced.withoutDefaults
  have hdirectives' := map_eq_of_forall₂ (settleDirectives_eq_ok_iff.1 hdirectives)
    fun _ _ => DirectiveSpec.Coerced.withoutDefaults
  refine ⟨congrArg (TypeSystem.mk _) (htypes'.trans ?_), hdirectives'⟩
  rw [types_withPossibleTypes, List.map_map]
  rfl

end SchemaDraft

end GraphQuery
