import GraphQuery.Proofs.Schema.Coerced
import GraphQuery.Proofs.Schema.Registration

/-!
# Acceptable drafts

Which drafts can be finished, and into what. Main statement: the calls that lead to a draft give a
schema exactly if what they refer to is there and the defaults can be coerced, and the schema has
what they registered.
-/

namespace GraphQuery

open List (Forall₂)

/-- The innermost name of a type is the name of a scalar or an enum. -/
def TypeSystem.NamesLeaf (system : TypeSystem) (type : TypeExpr) : Prop :=
  ∃ leaf ∈ system.types, leaf.name = type.innermost ∧ leaf.isLeaf = true

namespace SchemaDraft

/-- What registered types and directives refer to is there, under names of its own. -/
structure Consistent (system : TypeSystem) (directives : DirectiveSpec → Prop) : Prop where
  distinct : (system.types.map TypeDefinition.name).Nodup
  query : ∃ object, .object object ∈ system.types ∧ object.name = system.queryType
  fields : ∀ owner ∈ system.types, ∀ field ∈ owner.fields,
    ∃ type ∈ system.types, type.name = field.type.innermost
  arguments : ∀ owner ∈ system.types, ∀ field ∈ owner.fields, ∀ argument ∈ field.arguments,
    system.NamesLeaf argument.type
  directiveArguments : ∀ spec, directives spec → ∀ argument ∈ spec.arguments,
    system.NamesLeaf argument.type
  implements : ∀ object, .object object ∈ system.types → ∀ name ∈ object.implements,
    ∃ interface, .interface interface ∈ system.types ∧ interface.name = name ∧
      ∀ field ∈ interface.fields, ∃ own ∈ object.fields, own.name = field.name
  members : ∀ union, .union union ∈ system.types → ∀ name ∈ union.members,
    ∃ object, .object object ∈ system.types ∧ object.name = name

/-- The defaults can be coerced as well. -/
structure Acceptable (system : TypeSystem) (directives : DirectiveSpec → Prop) : Prop
    extends Consistent system directives where
  defaults : ∀ owner ∈ system.types, ∀ field ∈ owner.fields,
    DefaultsCoerce system.coerceInput field.arguments
  directiveDefaults : ∀ spec, directives spec →
    DefaultsCoerce system.coerceInput spec.arguments

variable {draft : SchemaDraft} {schema : ExecutableSchema}

section

variable {system : TypeSystem}

private theorem exists_leaf_iff (hnodup : (system.types.map TypeDefinition.name).Nodup)
    (type : TypeExpr) :
    (∃ found, system.innermost? type = some found ∧ found.isInput = true) ↔
      system.NamesLeaf type := by
  simp only [TypeSystem.innermost?, get?_eq_some_iff hnodup, TypeSystem.NamesLeaf, and_assoc]
  rfl

private theorem exists_object_iff (hnodup : (system.types.map TypeDefinition.name).Nodup)
    (name : String) :
    (∃ object, system.object? name = some object) ↔
      ∃ object, .object object ∈ system.types ∧ object.name = name := by
  simp only [TypeSystem.object?_eq_some_iff, get?_eq_some_iff hnodup]
  rfl

private theorem exists_input_withPossibleTypes_iff (system : TypeSystem) (type : TypeExpr) :
    (∃ found, (withPossibleTypes system).innermost? type = some found ∧ found.isInput = true) ↔
      ∃ found, system.innermost? type = some found ∧ found.isInput = true := by
  constructor
  · rintro ⟨found, hfound, hinput⟩
    exact ⟨found, (leaf_withPossibleTypes_iff system _ found hinput).1 hfound, hinput⟩
  · rintro ⟨found, hfound, hinput⟩
    exact ⟨found, (leaf_withPossibleTypes_iff system _ found hinput).2 hfound, hinput⟩

end

private theorem passes_iff_consistent :
    draft.Passes ↔ Consistent draft.typeSystem (· ∈ draft.directives) := by
  constructor
  · intro h
    have hnodup : (draft.types.map TypeDefinition.name).Nodup :=
      (checkDistinct_eq_ok_iff.1 h.distinct).1
    have hget {name : String} {type : TypeDefinition} : draft.typeSystem.get? name = some type ↔
        type ∈ draft.types ∧ type.name = name := get?_eq_some_iff hnodup
    constructor
    case distinct => exact hnodup
    case query =>
      exact (exists_object_iff hnodup _).1 (checkQueryType_eq_ok_iff.1 h.query)
    case fields =>
      intro owner howner field hfield
      have hfields := (checkType_eq_ok_iff.1 (h.types owner howner)).1
      obtain ⟨found, hfound⟩ := (checkField_eq_ok_iff.1 (hfields field hfield)).1
      exact ⟨found, hget.1 hfound⟩
    case arguments =>
      intro owner howner field hfield argument hargument
      have hfields := (checkType_eq_ok_iff.1 (h.types owner howner)).1
      have harguments := (checkField_eq_ok_iff.1 (hfields field hfield)).2
      exact (exists_leaf_iff hnodup _).1 (harguments argument hargument)
    case directiveArguments =>
      intro spec hspec argument hargument
      have harguments := checkDirective_eq_ok_iff.1 (h.directives spec hspec)
      have hinput := harguments argument hargument
      rw [exists_input_withPossibleTypes_iff] at hinput
      exact (exists_leaf_iff hnodup _).1 hinput
    case implements =>
      intro object hobject name hname
      have himplements := (checkType_eq_ok_iff.1 (h.types _ hobject)).2.1 object rfl
      obtain ⟨interface, hinterface, hfields⟩ :=
        checkImplements_eq_ok_iff.1 (himplements name hname)
      obtain ⟨hmem, heq⟩ := hget.1 hinterface
      refine ⟨interface, hmem, heq, fun field hfield => ?_⟩
      exact FieldDefinition.isSome_find?_iff.1 (hfields field hfield)
    case members =>
      intro union hunion name hname
      have hmembers := (checkType_eq_ok_iff.1 (h.types _ hunion)).2.2 union rfl
      exact (exists_object_iff hnodup _).1 (checkMember_eq_ok_iff.1 (hmembers name hname))
  · intro h
    have hget {name : String} {type : TypeDefinition} : draft.typeSystem.get? name = some type ↔
        type ∈ draft.types ∧ type.name = name := get?_eq_some_iff h.distinct
    constructor
    case distinct =>
      refine checkDistinct_eq_ok_iff.2 ⟨h.distinct, ?_⟩
      simp
    case query =>
      exact checkQueryType_eq_ok_iff.2 ((exists_object_iff h.distinct _).2 h.query)
    case types =>
      intro type htype
      refine checkType_eq_ok_iff.2 ⟨?_, ?_, ?_⟩
      · intro field hfield
        obtain ⟨found, hfound⟩ := h.fields type htype field hfield
        refine checkField_eq_ok_iff.2 ⟨⟨found, hget.2 hfound⟩, fun argument hargument => ?_⟩
        exact (exists_leaf_iff h.distinct _).2
          (h.arguments type htype field hfield argument hargument)
      · rintro object rfl name hname
        obtain ⟨interface, hmem, heq, hfields⟩ := h.implements object htype name hname
        refine checkImplements_eq_ok_iff.2 ⟨interface, hget.2 ⟨hmem, heq⟩, fun field hfield => ?_⟩
        exact FieldDefinition.isSome_find?_iff.2 (hfields field hfield)
      · rintro union rfl name hname
        have hmember := h.members union htype name hname
        exact checkMember_eq_ok_iff.2 ((exists_object_iff h.distinct _).2 hmember)
    case directives =>
      intro spec hspec
      refine checkDirective_eq_ok_iff.2 fun argument hargument => ?_
      rw [exists_input_withPossibleTypes_iff]
      exact (exists_leaf_iff h.distinct _).2 (h.directiveArguments spec hspec argument hargument)

/-- A draft can be finished exactly if it is acceptable. -/
theorem exists_finish_eq_ok_iff (htranslator : draft.translator = .standard) :
    (∃ schema, draft.finish = .ok schema) ↔
      Acceptable draft.typeSystem (· ∈ draft.directives) := by
  simp only [finish_eq_ok_iff htranslator, passes_iff_consistent]
  constructor
  · rintro ⟨schema, hconsistent, hestablished⟩
    have hstandard : schema.translator = .standard := hestablished.translator.trans htranslator
    have hcoerce : schema.coerce = draft.typeSystem.coerceInput := by
      rw [coerce_eq_of_standard hstandard]
      exact coerceInput_of_coerced hestablished.types
    have htypes := exists_forall₂_iff.1 ⟨_, hestablished.types⟩
    have hdirectives := exists_forall₂_iff.1 ⟨_, hestablished.directives⟩
    rw [hcoerce] at htypes hdirectives
    refine ⟨hconsistent, ?_, ?_⟩
    · intro owner howner
      exact TypeDefinition.exists_coerced_iff.1 (htypes owner howner)
    · intro spec hspec
      exact DirectiveSpec.exists_coerced_iff.1 (hdirectives spec hspec)
  · intro h
    obtain ⟨types, htypes⟩ : ∃ types, Forall₂
        (TypeDefinition.Coerced draft.types draft.typeSystem.coerceInput) draft.types types :=
      exists_forall₂_iff.2 fun owner howner =>
        TypeDefinition.exists_coerced_iff.2 (h.defaults owner howner)
    obtain ⟨directives, hdirectives⟩ : ∃ directives, Forall₂
        (DirectiveSpec.Coerced draft.typeSystem.coerceInput) draft.directives directives :=
      exists_forall₂_iff.2 fun spec hspec =>
        DirectiveSpec.exists_coerced_iff.2 (h.directiveDefaults spec hspec)
    have hsame : (TypeSystem.mk draft.queryType types).coerceInput =
        draft.typeSystem.coerceInput := coerceInput_of_coerced htypes
    refine ⟨⟨⟨⟨⟨draft.queryType, types⟩, draft.resolvers⟩, directives, .standard⟩, draft.delays⟩,
      h.toConsistent, ?_⟩
    constructor
    case queryType => rfl
    case resolvers => rfl
    case delays => rfl
    case translator => exact htranslator.symm
    case types =>
      rw [coerce_eq_of_standard rfl]
      exact hsame ▸ htypes
    case directives =>
      rw [coerce_eq_of_standard rfl]
      exact hsame ▸ hdirectives

/-- What a schema has of the calls that lead to it. -/
structure Registered (queryType : String) (calls : List Registration) (schema : ExecutableSchema) :
    Prop where
  queryType : schema.queryType = queryType
  translator : schema.translator = .standard
  /-- The types in the order of their registration: only their defaults and, for interfaces, the
  possible types are others. -/
  types : Forall₂
    (TypeDefinition.Coerced (builtinScalars ++ calls.filterMap Registration.type?) schema.coerce)
    (builtinScalars ++ calls.filterMap Registration.type?) schema.types
  /-- The last directives of their names: only their defaults are others. -/
  directives : ∃ kept : List DirectiveSpec, (kept.map DirectiveSpec.name).Nodup ∧
    (∀ spec, spec ∈ kept ↔ DirectiveSpec.LastOf
      (DirectiveSpec.builtins ++ calls.filterMap Registration.directive?) spec) ∧
    Forall₂ (DirectiveSpec.Coerced schema.coerce) kept schema.directives
  resolvers : ∀ owner name, schema.resolvers owner name =
    ((calls.filterMap (Registration.resolver? owner name)).getLast?.map fun custom =>
      Resolver.custom custom.answer).getD .parent
  delays : ∀ owner name, schema.delays owner name =
    ((calls.filterMap (Registration.resolver? owner name)).getLast?.map
      CustomResolver.polls).getD fun _ => 0

/-- A draft can be finished exactly if what was registered is acceptable, and the schema has what
was registered. -/
theorem finish_ofCalls (queryType : String) (calls : List Registration) :
    ((∃ schema, (ofCalls queryType calls).finish = .ok schema) ↔
        Acceptable ⟨queryType, builtinScalars ++ calls.filterMap Registration.type?⟩
          (DirectiveSpec.LastOf
            (DirectiveSpec.builtins ++ calls.filterMap Registration.directive?))) ∧
      ∀ schema, (ofCalls queryType calls).finish = .ok schema →
        Registered queryType calls schema := by
  have htranslator := translator_ofCalls queryType calls
  have hsystem := typeSystem_ofCalls queryType calls
  have hdirectives : (· ∈ (ofCalls queryType calls).directives) = DirectiveSpec.LastOf
      (DirectiveSpec.builtins ++ calls.filterMap Registration.directive?) := by
    funext spec
    exact propext (mem_directives_ofCalls_iff queryType calls spec)
  constructor
  · rw [exists_finish_eq_ok_iff htranslator, hsystem, hdirectives]
  · intro schema hfinish
    have hestablished := ((finish_eq_ok_iff htranslator).1 hfinish).2
    have hqueryType : (ofCalls queryType calls).queryType = queryType :=
      congrArg TypeSystem.queryType hsystem
    have htypes : (ofCalls queryType calls).types =
        builtinScalars ++ calls.filterMap Registration.type? :=
      congrArg TypeSystem.types hsystem
    constructor
    case queryType => exact hestablished.queryType.trans hqueryType
    case translator => exact hestablished.translator.trans htranslator
    case types =>
      rw [← htypes]
      exact hestablished.types
    case directives =>
      exact ⟨(ofCalls queryType calls).directives, nodup_directives_ofCalls queryType calls,
        mem_directives_ofCalls_iff queryType calls, hestablished.directives⟩
    case resolvers =>
      intro owner name
      rw [hestablished.resolvers, resolvers_ofCalls]
    case delays =>
      intro owner name
      rw [hestablished.delays, delays_ofCalls]

/-- Calls with an interface that is declared twice, a default that is a single value for a list, and
a directive in the place of one that is built in. -/
def pageCalls : List Registration :=
  [.directive { DirectiveSpec.skip with description := none },
    .type (.object
      { name := "Query"
        fields := [
          { name := "id", type := .named "ID" false, arguments := [] },
          { name := "page"
            type := .named "Int" true
            arguments :=
              [⟨"sizes", .list (.named "Int" true) true, some (.number (.int 20)), none⟩] }]
        implements := ["Node", "Node"] }),
    .resolver "Query" "page" { answer := fun _ _ => .ok (.number (.int 0)), polls := fun _ => 0 },
    .type (.interface
      { name := "Node"
        fields := [{ name := "id", type := .named "ID" false, arguments := [] }]
        possibleTypes := []
        typeResolver := none })]

theorem finish_pageCalls :
    ∃ schema, (ofCalls "Query" pageCalls).finish = .ok schema ∧
      Registered "Query" pageCalls schema ∧
      (schema.get? "Node").map TypeDefinition.possibleTypes = some ["Query", "Query"] ∧
      (((schema.get? "Query").bind (·.field? "page")).map fun field =>
        field.arguments.map Parameter.default) = some [some (.list [.number (.int 20)])] := by
  have hfinish : ∃ schema, (ofCalls "Query" pageCalls).finish = .ok schema ∧
      (schema.get? "Node").map TypeDefinition.possibleTypes = some ["Query", "Query"] ∧
      (((schema.get? "Query").bind (·.field? "page")).map fun field =>
        field.arguments.map Parameter.default) = some [some (.list [.number (.int 20)])] :=
    ⟨_, rfl, rfl, rfl⟩
  obtain ⟨schema, hfinish, hpossible, hdefaults⟩ := hfinish
  exact ⟨schema, hfinish, (finish_ofCalls "Query" pageCalls).2 schema hfinish, hpossible, hdefaults⟩

end SchemaDraft

end GraphQuery
