import GraphQuery.Proofs.Schema.WellFormed
import GraphQuery.Proofs.Schema.WithoutDefaults

/-!
# Places of parameters

The parameters of a draft by their places, and drafts that differ in the default of one of them.
Main statements: a schema has its parameters where the draft has them, and they have input types.
-/

namespace GraphQuery

/-- The place of a parameter: of a field of a type, or of a directive, each by its index. -/
inductive ParameterPlace where
  | field (type field argument : Nat)
  | directive (directive argument : Nat)

def FieldDefinition.modifyArgument (index : Nat) (change : Parameter → Parameter)
    (field : FieldDefinition) : FieldDefinition :=
  { field with arguments := field.arguments.modify index change }

def DirectiveSpec.modifyArgument (index : Nat) (change : Parameter → Parameter)
    (spec : DirectiveSpec) : DirectiveSpec :=
  { spec with arguments := spec.arguments.modify index change }

/-- Gives a parameter another default. -/
def Parameter.withDefault (value : Value) (parameter : Parameter) : Parameter :=
  { parameter with default := some value }

namespace ParameterPlace

/-- Changes the parameter at the place of a field. -/
def modifyTypes (place : ParameterPlace) (change : Parameter → Parameter)
    (types : List TypeDefinition) : List TypeDefinition :=
  match place with
  | .field i j k =>
    types.modify i <| TypeDefinition.mapFields fun fields =>
      fields.modify j (FieldDefinition.modifyArgument k change)
  | .directive .. => types

/-- Changes the parameter at the place of a directive. -/
def modifyDirectives (place : ParameterPlace) (change : Parameter → Parameter)
    (directives : List DirectiveSpec) : List DirectiveSpec :=
  match place with
  | .field .. => directives
  | .directive i k => directives.modify i (DirectiveSpec.modifyArgument k change)

/-- The parameter at a place, and how faults refer to it. -/
def find? (place : ParameterPlace) (types : List TypeDefinition)
    (directives : List DirectiveSpec) : Option (Referrer × Parameter) :=
  match place with
  | .field i j k => do
    let type ← types[i]?
    let field ← type.fields[j]?
    let parameter ← field.arguments[k]?
    pure (.argument type.name field.name parameter.name, parameter)
  | .directive i k => do
    let spec ← directives[i]?
    let parameter ← spec.arguments[k]?
    pure (.directiveArgument spec.name parameter.name, parameter)

end ParameterPlace

/-- The draft with another default at a place. -/
def SchemaDraft.withDefault (draft : SchemaDraft) (place : ParameterPlace) (value : Value) :
    SchemaDraft :=
  { draft with
    types := place.modifyTypes (Parameter.withDefault value) draft.types
    directives := place.modifyDirectives (Parameter.withDefault value) draft.directives }

/-- The schema with another default at a place. -/
def ExecutableSchema.withDefault (schema : ExecutableSchema) (place : ParameterPlace)
    (value : Value) : ExecutableSchema :=
  { schema with
    types := place.modifyTypes (Parameter.withDefault value) schema.types
    directives := place.modifyDirectives (Parameter.withDefault value) schema.directives }

section

variable {α β : Type}

theorem map_modify {f : α → β} {change : α → α} {change' : β → β}
    (h : ∀ item, f (change item) = change' (f item)) (items : List α) (index : Nat) :
    (items.modify index change).map f = (items.map f).modify index change' := by
  induction items generalizing index with
  | nil => rw [List.map_nil, List.modify_nil, List.modify_nil, List.map_nil]
  | cons item rest ih =>
    cases index with
    | zero => rw [List.modify_zero_cons, List.map_cons, List.map_cons, List.modify_zero_cons, h]
    | succ index =>
      rw [List.modify_succ_cons, List.map_cons, List.map_cons, List.modify_succ_cons, ih]

private theorem map_modify_eq_map {f : α → β} {change : α → α}
    (h : ∀ item, f (change item) = f item)
    (items : List α) (index : Nat) : (items.modify index change).map f = items.map f := by
  have hid (item : α) : f (change item) = id (f item) := h item
  rw [map_modify hid, List.modify_id]

end

private theorem Parameter.withoutDefault_withDefault (value : Value) (parameter : Parameter) :
    (parameter.withDefault value).withoutDefault = parameter.withoutDefault := rfl

namespace ParameterPlace

variable (place : ParameterPlace) (value : Value)

theorem map_withoutDefaults_modifyTypes (types : List TypeDefinition) :
    (place.modifyTypes (Parameter.withDefault value) types).map TypeDefinition.withoutDefaults =
      types.map TypeDefinition.withoutDefaults := by
  cases place with
  | directive i k => rfl
  | field i j k =>
    have hfield (field : FieldDefinition) :
        (field.modifyArgument k (Parameter.withDefault value)).withoutDefaults =
          field.withoutDefaults := by
      simp only [FieldDefinition.withoutDefaults, FieldDefinition.modifyArgument,
        map_modify_eq_map (Parameter.withoutDefault_withDefault value)]
    refine map_modify_eq_map (fun type => ?_) types i
    simp only [TypeDefinition.withoutDefaults, TypeDefinition.mapFields_mapFields,
      map_modify_eq_map hfield]

theorem map_withoutDefaults_modifyDirectives (directives : List DirectiveSpec) :
    (place.modifyDirectives (Parameter.withDefault value) directives).map
        DirectiveSpec.withoutDefaults =
      directives.map DirectiveSpec.withoutDefaults := by
  cases place with
  | field i j k => rfl
  | directive i k =>
    refine map_modify_eq_map (fun spec => ?_) directives i
    simp only [DirectiveSpec.withoutDefaults, DirectiveSpec.modifyArgument,
      map_modify_eq_map (Parameter.withoutDefault_withDefault value)]

theorem of_find?_field {i j k : Nat} {types : List TypeDefinition} {directives : List DirectiveSpec}
    {referrer : Referrer} {parameter : Parameter}
    (h : (field i j k).find? types directives = some (referrer, parameter)) :
    ∃ type field, types[i]? = some type ∧ type.fields[j]? = some field ∧
      field.arguments[k]? = some parameter ∧
      referrer = .argument type.name field.name parameter.name := by
  simp only [find?, Option.bind_eq_bind, Option.bind_eq_some_iff, Option.pure_def,
    Option.some.injEq, Prod.mk.injEq] at h
  obtain ⟨type, htype, field, hfield, _, hparameter, rfl, rfl⟩ := h
  exact ⟨type, field, htype, hfield, hparameter, rfl⟩

theorem of_find?_directive {i k : Nat} {types : List TypeDefinition}
    {directives : List DirectiveSpec} {referrer : Referrer} {parameter : Parameter}
    (h : (directive i k).find? types directives = some (referrer, parameter)) :
    ∃ spec, directives[i]? = some spec ∧ spec.arguments[k]? = some parameter ∧
      referrer = .directiveArgument spec.name parameter.name := by
  simp only [find?, Option.bind_eq_bind, Option.bind_eq_some_iff, Option.pure_def,
    Option.some.injEq, Prod.mk.injEq] at h
  obtain ⟨spec, hspec, _, hparameter, rfl, rfl⟩ := h
  exact ⟨spec, hspec, hparameter, rfl⟩

private theorem find?_withoutDefaults (types : List TypeDefinition)
    (directives : List DirectiveSpec) :
    place.find? (types.map TypeDefinition.withoutDefaults)
        (directives.map DirectiveSpec.withoutDefaults) =
      (place.find? types directives).map fun found => (found.1, found.2.withoutDefault) := by
  cases place with
  | field i j k =>
    simp only [find?, List.getElem?_map]
    cases types[i]? with
    | none => rfl
    | some type =>
      simp only [Option.map_some, Option.bind_eq_bind, Option.bind_some,
        TypeDefinition.fields_withoutDefaults, TypeDefinition.name_withoutDefaults,
        List.getElem?_map]
      cases type.fields[j]? with
      | none => rfl
      | some field =>
        simp only [Option.map_some, Option.bind_some, FieldDefinition.withoutDefaults,
          List.getElem?_map]
        cases field.arguments[k]? <;> rfl
  | directive i k =>
    simp only [find?, List.getElem?_map]
    cases directives[i]? with
    | none => rfl
    | some spec =>
      simp only [Option.map_some, Option.bind_eq_bind, Option.bind_some,
        DirectiveSpec.withoutDefaults, List.getElem?_map]
      cases spec.arguments[k]? <;> rfl

private theorem find?_withPossibleTypes (system : TypeSystem) (directives : List DirectiveSpec) :
    place.find? (SchemaDraft.withPossibleTypes system).types directives =
      place.find? system.types directives := by
  cases place with
  | directive i k => rfl
  | field i j k =>
    simp only [find?, SchemaDraft.withPossibleTypes, List.getElem?_map]
    cases system.types[i]? with
    | none => rfl
    | some type => cases type <;> rfl

theorem find?_modify (types : List TypeDefinition) (directives : List DirectiveSpec) :
    place.find? (place.modifyTypes (Parameter.withDefault value) types)
        (place.modifyDirectives (Parameter.withDefault value) directives) =
      (place.find? types directives).map fun found => (found.1, found.2.withDefault value) := by
  cases place with
  | field i j k =>
    simp only [find?, modifyTypes, List.getElem?_modify_eq]
    cases types[i]? with
    | none => rfl
    | some type =>
      cases type with
      | union | enum | scalar => rfl
      | object type | interface type =>
        simp only [Option.map_eq_map, Option.map_some, Option.bind_eq_bind, Option.bind_some,
          TypeDefinition.mapFields, TypeDefinition.fields, List.getElem?_modify_eq]
        cases type.fields[j]? with
        | none => rfl
        | some field =>
          simp only [Option.map_some, Option.bind_some, FieldDefinition.modifyArgument,
            List.getElem?_modify_eq]
          cases field.arguments[k]? <;> rfl
  | directive i k =>
    simp only [find?, modifyDirectives, List.getElem?_modify_eq]
    cases directives[i]? with
    | none => rfl
    | some spec =>
      simp only [Option.map_eq_map, Option.map_some, Option.bind_eq_bind, Option.bind_some,
        DirectiveSpec.modifyArgument, List.getElem?_modify_eq]
      cases spec.arguments[k]? <;> rfl

end ParameterPlace

namespace SchemaDraft

variable {draft : SchemaDraft} {schema : ExecutableSchema}

theorem exists_find?_of_finish (hfinish : draft.finish = .ok schema) {place : ParameterPlace}
    {referrer : Referrer} {parameter : Parameter}
    (hplace : place.find? schema.types schema.directives = some (referrer, parameter)) :
    ∃ declared, place.find? draft.types draft.directives = some (referrer, declared) ∧
      declared.name = parameter.name ∧ declared.type = parameter.type := by
  obtain ⟨hsystem, hdirectives⟩ := withoutDefaults_of_finish hfinish
  have htypes : schema.types.map TypeDefinition.withoutDefaults =
      (withPossibleTypes draft.typeSystem).types.map TypeDefinition.withoutDefaults :=
    congrArg TypeSystem.types hsystem
  have hfind := place.find?_withoutDefaults schema.types schema.directives
  rw [hplace, htypes, hdirectives, ParameterPlace.find?_withoutDefaults,
    ParameterPlace.find?_withPossibleTypes, Option.map_some, Option.map_eq_some_iff] at hfind
  obtain ⟨⟨found, declared⟩, hdeclared, heq⟩ := hfind
  obtain ⟨rfl, hparameter⟩ := Prod.mk.inj heq
  obtain ⟨hname, htype, -⟩ := Parameter.mk.inj hparameter
  exact ⟨declared, hdeclared, hname, htype⟩

private theorem Finished.isInput (h : draft.Finished schema) {type : TypeExpr}
    (hinput : ∃ definition, draft.typeSystem.innermost? type = some definition ∧
      definition.isInput = true) :
    ∃ definition, schema.innermost? type = some definition ∧ definition.isInput = true := by
  obtain ⟨definition, hdefinition, hinput⟩ := hinput
  have hget := h.get? type.innermost
  rw [show draft.typeSystem.get? type.innermost = some definition from hdefinition] at hget
  obtain ⟨settled, hsettled, hrel⟩ := exists_of_rel_some hget
  refine ⟨settled, hsettled, ?_⟩
  cases hrel with
  | object | interface | union => cases hinput
  | enum | scalar => rfl

theorem isInput_of_finish (hfinish : draft.finish = .ok schema) {place : ParameterPlace}
    {referrer : Referrer} {parameter : Parameter}
    (hplace : place.find? schema.types schema.directives = some (referrer, parameter)) :
    ∃ definition, schema.innermost? parameter.type = some definition ∧
      definition.isInput = true := by
  obtain ⟨declared, hdeclared, -, hsame⟩ := exists_find?_of_finish hfinish hplace
  have hsettled := (withoutDefaults_of_finish hfinish).1
  have hfinished := finished_of_finish hfinish
  simp only [finish, bind_eq_ok_iff] at hfinish
  obtain ⟨⟨⟩, -, ⟨⟩, -, ⟨⟩, -, ⟨⟩, hdirectives, -⟩ := hfinish
  rw [← hsame]
  cases place with
  | field i j k =>
    obtain ⟨type, field, htype, hfield, hparameter, rfl⟩ := ParameterPlace.of_find?_field hdeclared
    have hfields := (checkType_eq_ok_iff.1 (hfinished.types type (List.mem_of_getElem? htype))).1
    have hcheck := checkField_eq_ok_iff.1 (hfields field (List.mem_of_getElem? hfield))
    exact hfinished.isInput (hcheck.2 _ (List.mem_of_getElem? hparameter))
  | directive i k =>
    obtain ⟨spec, hspec, hparameter, rfl⟩ := ParameterPlace.of_find?_directive hdeclared
    have hcheck := forM_eq_ok_iff.1 hdirectives spec (List.mem_of_getElem? hspec)
    have hcheck := forM_eq_ok_iff.1 hcheck _ (List.mem_of_getElem? hparameter)
    rw [← checkInputReference_congr hsettled] at hcheck
    exact checkInputReference_eq_ok_iff.1 hcheck

end SchemaDraft

end GraphQuery
