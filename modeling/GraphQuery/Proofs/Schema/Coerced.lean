import GraphQuery.Proofs.Schema.Checks
import GraphQuery.Proofs.TypeSystem.InputValue

/-!
# Coerced defaults

What becomes of the types and directives of a draft. Main statements: settling coerces defaults,
each into the type of its own parameter, and changes nothing else; a draft that passes its checks is
finished into a schema that is related to it in this way, and into no other.
-/

namespace GraphQuery

open List (Forall₂)

/-- How input values are brought into a type. -/
abbrev InputCoercion := TypeExpr → Value → Except InputFault Value

/-- The parameter of a schema for a declared one: the default is coerced into the type. -/
structure Parameter.Coerced (coerce : InputCoercion) (declared coerced : Parameter) : Prop where
  name : coerced.name = declared.name
  type : coerced.type = declared.type
  description : coerced.description = declared.description
  default : Option.Rel (fun value result => coerce declared.type value = .ok result)
    declared.default coerced.default

/-- The field of a schema for a declared one. -/
structure FieldDefinition.Coerced (coerce : InputCoercion) (declared coerced : FieldDefinition) :
    Prop where
  name : coerced.name = declared.name
  type : coerced.type = declared.type
  arguments : Forall₂ (Parameter.Coerced coerce) declared.arguments coerced.arguments

/-- The entries that a type makes for an interface: an object has one for each declaration. -/
def TypeDefinition.declarations (interface : String) : TypeDefinition → List String
  | .object type => List.replicate (type.implements.count interface) type.name
  | _ => []

/-- The type with the possible types that the registered types declare for it. -/
def TypeDefinition.withDeclarers (registered : List TypeDefinition) :
    TypeDefinition → TypeDefinition
  | .interface type =>
    .interface { type with possibleTypes := SchemaDraft.declarersOf registered type.name }
  | type => type

theorem TypeDefinition.fields_withDeclarers (registered : List TypeDefinition)
    (type : TypeDefinition) : (type.withDeclarers registered).fields = type.fields := by
  cases type <;> rfl

/-- The type of a schema for a registered one. -/
inductive TypeDefinition.Coerced (registered : List TypeDefinition) (coerce : InputCoercion) :
    TypeDefinition → TypeDefinition → Prop
  | object {name implements fields fields'}
      (hfields : Forall₂ (FieldDefinition.Coerced coerce) fields fields') :
      Coerced registered coerce (.object ⟨name, fields, implements⟩)
        (.object ⟨name, fields', implements⟩)
  | interface {name possibleTypes typeResolver fields fields'}
      (hfields : Forall₂ (FieldDefinition.Coerced coerce) fields fields') :
      Coerced registered coerce (.interface ⟨name, fields, possibleTypes, typeResolver⟩)
        (.interface ⟨name, fields', registered.flatMap (declarations name), typeResolver⟩)
  | union {type} : Coerced registered coerce (.union type) (.union type)
  | enum {type} : Coerced registered coerce (.enum type) (.enum type)
  | scalar {type} : Coerced registered coerce (.scalar type) (.scalar type)

/-- The directive of a schema for a declared one. -/
structure DirectiveSpec.Coerced (coerce : InputCoercion) (declared coerced : DirectiveSpec) :
    Prop where
  name : coerced.name = declared.name
  description : coerced.description = declared.description
  locations : coerced.locations = declared.locations
  arguments : Forall₂ (Parameter.Coerced coerce) declared.arguments coerced.arguments
  predicate : coerced.predicate = declared.predicate
  hook : coerced.hook = declared.hook

/-- The parameters have defaults that can be coerced into their types, if any. -/
def DefaultsCoerce (coerce : InputCoercion) (parameters : List Parameter) : Prop :=
  ∀ parameter ∈ parameters, ∀ value, parameter.default = some value →
    ∃ result, coerce parameter.type value = .ok result

section

variable {α β : Type}

theorem exists_forall₂_iff {R : α → β → Prop} {items : List α} :
    (∃ results, Forall₂ R items results) ↔ ∀ item ∈ items, ∃ result, R item result := by
  induction items with
  | nil => simp
  | cons item rest ih =>
    rw [List.forall_mem_cons, ← ih]
    constructor
    · rintro ⟨_, _ | ⟨hresult, hrest⟩⟩
      exact ⟨⟨_, hresult⟩, _, hrest⟩
    · rintro ⟨⟨result, hresult⟩, results, hrest⟩
      exact ⟨result :: results, .cons hresult hrest⟩

end

section

variable {coerce : InputCoercion}

private theorem Parameter.exists_coerced_iff {declared : Parameter} :
    (∃ coerced, declared.Coerced coerce coerced) ↔
      ∀ value, declared.default = some value →
        ∃ result, coerce declared.type value = .ok result := by
  constructor
  · rintro ⟨coerced, h⟩ value hvalue
    have hdefault := h.default
    rw [hvalue] at hdefault
    obtain ⟨result, -, hresult⟩ := exists_of_rel_some hdefault
    exact ⟨result, hresult⟩
  · intro h
    cases hdefault : declared.default with
    | none =>
      refine ⟨declared, rfl, rfl, rfl, ?_⟩
      rw [hdefault]
      exact .none
    | some value =>
      obtain ⟨result, hresult⟩ := h value hdefault
      refine ⟨{ declared with default := some result }, rfl, rfl, rfl, ?_⟩
      rw [hdefault]
      exact .some hresult

private theorem exists_coerced_parameters_iff {declared : List Parameter} :
    (∃ coerced, Forall₂ (Parameter.Coerced coerce) declared coerced) ↔
      DefaultsCoerce coerce declared := by
  simp only [exists_forall₂_iff, Parameter.exists_coerced_iff, DefaultsCoerce]

private theorem FieldDefinition.exists_coerced_iff {declared : FieldDefinition} :
    (∃ coerced, declared.Coerced coerce coerced) ↔ DefaultsCoerce coerce declared.arguments := by
  rw [← exists_coerced_parameters_iff]
  constructor
  · rintro ⟨coerced, h⟩
    exact ⟨coerced.arguments, h.arguments⟩
  · rintro ⟨arguments, harguments⟩
    exact ⟨{ declared with arguments }, rfl, rfl, harguments⟩

theorem TypeDefinition.exists_coerced_iff {registered : List TypeDefinition}
    {declared : TypeDefinition} :
    (∃ coerced, declared.Coerced registered coerce coerced) ↔
      ∀ field ∈ declared.fields, DefaultsCoerce coerce field.arguments := by
  simp only [← FieldDefinition.exists_coerced_iff, ← exists_forall₂_iff]
  constructor
  · rintro ⟨coerced, h⟩
    cases h with
    | object hfields | interface hfields => exact ⟨_, hfields⟩
    | union | enum | scalar => exact ⟨[], .nil⟩
  · rintro ⟨fields, hfields⟩
    cases declared with
    | object type => exact ⟨_, .object hfields⟩
    | interface type => exact ⟨_, .interface hfields⟩
    | union type => exact ⟨_, .union⟩
    | enum type => exact ⟨_, .enum⟩
    | scalar type => exact ⟨_, .scalar⟩

theorem DirectiveSpec.exists_coerced_iff {declared : DirectiveSpec} :
    (∃ coerced, declared.Coerced coerce coerced) ↔ DefaultsCoerce coerce declared.arguments := by
  rw [← exists_coerced_parameters_iff]
  constructor
  · rintro ⟨coerced, h⟩
    exact ⟨coerced.arguments, h.arguments⟩
  · rintro ⟨arguments, harguments⟩
    exact ⟨{ declared with arguments }, rfl, rfl, rfl, harguments, rfl, rfl⟩

end

namespace SchemaDraft

variable {translator : Translator} {system : BoundSystem}

theorem settleParameter_eq_ok_iff {referrer : String → Referrer} {parameter settled : Parameter} :
    settleParameter translator system referrer parameter = .ok settled ↔
      parameter.Coerced (translator.coerce system) settled := by
  obtain ⟨name, type, default, description⟩ := parameter
  obtain ⟨name', type', default', description'⟩ := settled
  constructor
  · intro h
    cases default with
    | none =>
      simp only [settleParameter, Except.ok.injEq, Parameter.mk.injEq] at h
      obtain ⟨rfl, rfl, rfl, rfl⟩ := h
      exact ⟨rfl, rfl, rfl, .none⟩
    | some value =>
      simp only [settleParameter] at h
      split at h
      · next result hresult =>
        simp only [Except.ok.injEq, Parameter.mk.injEq] at h
        obtain ⟨rfl, rfl, rfl, rfl⟩ := h
        exact ⟨rfl, rfl, rfl, .some hresult⟩
      · cases h
  · rintro ⟨hname, htype, hdescription, hdefault⟩
    simp only at hname htype hdescription hdefault
    subst hname htype hdescription
    cases hdefault with
    | none => rfl
    | some hresult => simp only [settleParameter, hresult]

private theorem settleParameters_eq_ok_iff {referrer : String → Referrer}
    {parameters settled : List Parameter} :
    parameters.mapM (settleParameter translator system referrer) = .ok settled ↔
      Forall₂ (Parameter.Coerced (translator.coerce system)) parameters settled := by
  simp only [mapM_eq_ok_iff, settleParameter_eq_ok_iff]

private theorem settleField_eq_ok_iff {owner : String} {field settled : FieldDefinition} :
    settleField translator system owner field = .ok settled ↔
      field.Coerced (translator.coerce system) settled := by
  simp only [settleField, bind_eq_ok_iff, settleParameters_eq_ok_iff, pure_eq_ok_iff]
  constructor
  · rintro ⟨arguments, harguments, rfl⟩
    exact ⟨rfl, rfl, harguments⟩
  · rintro ⟨hname, htype, harguments⟩
    refine ⟨settled.arguments, harguments, ?_⟩
    rw [← hname, ← htype]

private theorem settleFields_eq_ok_iff {owner : String} {fields settled : List FieldDefinition} :
    fields.mapM (settleField translator system owner) = .ok settled ↔
      Forall₂ (FieldDefinition.Coerced (translator.coerce system)) fields settled := by
  simp only [mapM_eq_ok_iff, settleField_eq_ok_iff]

private theorem settleDirective_eq_ok_iff {spec settled : DirectiveSpec} :
    settleDirective translator system spec = .ok settled ↔
      spec.Coerced (translator.coerce system) settled := by
  simp only [settleDirective, bind_eq_ok_iff, settleParameters_eq_ok_iff, pure_eq_ok_iff]
  constructor
  · rintro ⟨arguments, harguments, rfl⟩
    exact ⟨rfl, rfl, rfl, harguments, rfl, rfl⟩
  · rintro ⟨hname, hdescription, hlocations, harguments, hpredicate, hhook⟩
    refine ⟨settled.arguments, harguments, ?_⟩
    rw [← hname, ← hdescription, ← hlocations, ← hpredicate, ← hhook]

theorem declarersOf_eq_flatMap (types : List TypeDefinition) (interface : String) :
    declarersOf types interface = types.flatMap (TypeDefinition.declarations interface) := by
  refine congrArg (List.flatMap · types) (funext fun type => ?_)
  cases type with
  | object object => simp [TypeDefinition.declarations, List.filter_beq]
  | interface | union | enum | scalar => rfl

theorem types_withPossibleTypes (system : TypeSystem) :
    (withPossibleTypes system).types =
      system.types.map (TypeDefinition.withDeclarers system.types) := by
  refine List.map_congr_left fun type _ => ?_
  cases type <;> rfl

private theorem settleType_eq_ok_iff {registered : List TypeDefinition}
    {type settled : TypeDefinition} :
    settleType translator system (type.withDeclarers registered) = .ok settled ↔
      type.Coerced registered (translator.coerce system) settled := by
  cases type with
  | object type =>
    simp only [TypeDefinition.withDeclarers, settleType, bind_eq_ok_iff, settleFields_eq_ok_iff,
      pure_eq_ok_iff]
    constructor
    · rintro ⟨fields, hfields, rfl⟩
      exact .object hfields
    · rintro (_ | _)
      next fields hfields => exact ⟨fields, hfields, rfl⟩
  | interface type =>
    simp only [TypeDefinition.withDeclarers, settleType, bind_eq_ok_iff, settleFields_eq_ok_iff,
      pure_eq_ok_iff, declarersOf_eq_flatMap]
    constructor
    · rintro ⟨fields, hfields, rfl⟩
      exact .interface hfields
    · rintro (_ | _)
      next fields hfields => exact ⟨fields, hfields, rfl⟩
  | union type | enum type | scalar type =>
    simp only [TypeDefinition.withDeclarers, settleType, Except.ok.injEq]
    constructor
    · rintro rfl
      constructor
    · rintro (_ | _)
      rfl

theorem settleTypes_eq_ok_iff {registered : TypeSystem} {settled : List TypeDefinition} :
    (withPossibleTypes registered).types.mapM (settleType translator system) = .ok settled ↔
      Forall₂ (TypeDefinition.Coerced registered.types (translator.coerce system))
        registered.types settled := by
  rw [types_withPossibleTypes, mapM_eq_ok_iff, List.forall₂_map_left_iff]
  simp only [settleType_eq_ok_iff]

theorem settleDirectives_eq_ok_iff {specs settled : List DirectiveSpec} :
    specs.mapM (settleDirective translator system) = .ok settled ↔
      Forall₂ (DirectiveSpec.Coerced (translator.coerce system)) specs settled := by
  simp only [mapM_eq_ok_iff, settleDirective_eq_ok_iff]

theorem leaf_withPossibleTypes_iff (system : TypeSystem) (name : String) (type : TypeDefinition)
    (hleaf : type.isLeaf = true) :
    (withPossibleTypes system).get? name = some type ↔ system.get? name = some type := by
  have hname : (fun type : TypeDefinition => type.name == name) ∘
      TypeDefinition.withDeclarers system.types = fun type => type.name == name := by
    funext type
    cases type <;> rfl
  rw [TypeSystem.get?, types_withPossibleTypes, List.find?_map, hname, TypeSystem.get?]
  cases system.types.find? fun type => type.name == name with
  | none => simp
  | some found =>
    cases found with
    | object | union | enum | scalar => simp [TypeDefinition.withDeclarers]
    | interface interface =>
      simp only [TypeDefinition.withDeclarers, Option.map_some, Option.some.injEq]
      exact TypeSystem.eq_leaf_iff_of_not_leaf rfl rfl hleaf

theorem coerceInput_withPossibleTypes (system : TypeSystem) :
    (withPossibleTypes system).coerceInput = system.coerceInput :=
  TypeSystem.coerceInput_of_leaves (leaf_withPossibleTypes_iff system)

/-- The checks that a draft has to pass before its defaults are coerced. -/
structure Passes (draft : SchemaDraft) : Prop where
  distinct : checkDistinct [] draft.types = .ok ()
  query : checkQueryType draft.typeSystem = .ok ()
  types : ∀ type ∈ draft.types, checkType draft.typeSystem type = .ok ()
  directives : ∀ spec ∈ draft.directives,
    checkDirective (withPossibleTypes draft.typeSystem) spec = .ok ()

/-- What a schema has of the draft. -/
structure Established (draft : SchemaDraft) (schema : ExecutableSchema) : Prop where
  queryType : schema.queryType = draft.queryType
  types : Forall₂ (TypeDefinition.Coerced draft.types schema.coerce) draft.types schema.types
  directives : Forall₂ (DirectiveSpec.Coerced schema.coerce) draft.directives schema.directives
  resolvers : schema.resolvers = draft.resolvers
  delays : schema.delays = draft.delays
  translator : schema.translator = draft.translator

variable {draft : SchemaDraft} {schema : ExecutableSchema}

private theorem eq_leaf_iff_of_coerced {registered : List TypeDefinition} {coerce : InputCoercion}
    {type coerced leaf : TypeDefinition} (h : type.Coerced registered coerce coerced)
    (hleaf : leaf.isLeaf = true) : coerced = leaf ↔ type = leaf := by
  cases h with
  | union | enum | scalar => rfl
  | object | interface => exact TypeSystem.eq_leaf_iff_of_not_leaf rfl rfl hleaf

/-- The types of a schema coerce values as the registered types do. -/
theorem coerceInput_of_coerced {system : TypeSystem} {coerce : InputCoercion}
    {types : List TypeDefinition} {queryType : String}
    (h : Forall₂ (TypeDefinition.Coerced system.types coerce) system.types types) :
    (TypeSystem.mk queryType types).coerceInput = system.coerceInput := by
  apply TypeSystem.coerceInput_of_leaves
  intro name leaf hleaf
  have hname (type coerced : TypeDefinition) (h : type.Coerced system.types coerce coerced) :
      (type.name == name) = (coerced.name == name) := by
    cases h <;> rfl
  exact eq_some_iff_of_rel (rel_find? h hname) fun _ _ hcoerced =>
    eq_leaf_iff_of_coerced hcoerced hleaf

theorem coerce_eq_of_standard (htranslator : schema.translator = .standard) :
    schema.coerce = schema.coerceInput := by
  funext type value
  rw [Schema.coerce, htranslator]
  rfl

theorem finish_eq_ok_iff (htranslator : draft.translator = .standard) :
    draft.finish = .ok schema ↔ draft.Passes ∧ draft.Established schema := by
  have hcoerce (system : BoundSystem) : draft.translator.coerce system = system.coerceInput := by
    rw [htranslator]
    rfl
  have hpossible := coerceInput_withPossibleTypes draft.typeSystem
  constructor
  · intro h
    simp only [finish, bind_eq_ok_iff, pure_eq_ok_iff] at h
    obtain ⟨⟨⟩, hdistinct, ⟨⟩, hquery, ⟨⟩, htypes, ⟨⟩, hdirectives, types, hsettled, directives,
      hsettledDirectives, rfl⟩ := h
    refine ⟨⟨hdistinct, hquery, forM_eq_ok_iff.1 htypes, forM_eq_ok_iff.1 hdirectives⟩, ?_⟩
    rw [settleTypes_eq_ok_iff, hcoerce, hpossible] at hsettled
    rw [settleDirectives_eq_ok_iff, hcoerce] at hsettledDirectives
    have hsame : (TypeSystem.mk draft.queryType types).coerceInput =
        draft.typeSystem.coerceInput := coerceInput_of_coerced hsettled
    constructor
    case queryType => rfl
    case resolvers => rfl
    case delays => rfl
    case translator => rfl
    case types =>
      rw [coerce_eq_of_standard htranslator]
      exact hsame ▸ hsettled
    case directives =>
      rw [coerce_eq_of_standard htranslator]
      exact hsettledDirectives
  · rintro ⟨hpasses, hestablished⟩
    have hstandard : schema.translator = .standard := hestablished.translator.trans htranslator
    have hsettled := hestablished.types
    have hsettledDirectives := hestablished.directives
    have hsame : schema.coerceInput = draft.typeSystem.coerceInput :=
      coerceInput_of_coerced hsettled
    rw [coerce_eq_of_standard hstandard] at hsettled hsettledDirectives
    rw [finish_of_checks hpasses.distinct hpasses.query (forM_eq_ok_iff.2 hpasses.types)
      (forM_eq_ok_iff.2 hpasses.directives)]
    simp only [bind_eq_ok_iff, pure_eq_ok_iff, settleTypes_eq_ok_iff, settleDirectives_eq_ok_iff,
      hcoerce, hpossible]
    refine ⟨schema.types, hsame ▸ hsettled, schema.directives, ?_, ?_⟩
    · rw [← hestablished.queryType]
      exact hsettledDirectives
    · rw [← hestablished.queryType, ← hestablished.resolvers, ← hestablished.delays,
        ← hestablished.translator]

end SchemaDraft

end GraphQuery
