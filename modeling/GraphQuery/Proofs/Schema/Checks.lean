import GraphQuery.Proofs.Success
import GraphQuery.Schema.Draft

/-!
# Checks of a draft

What each check of a draft accepts, in terms of the types that it looks up.
-/

namespace GraphQuery

theorem FieldDefinition.isSome_find?_iff {fields : List FieldDefinition} {name : String} :
    (find? fields name).isSome = true ↔ ∃ field ∈ fields, field.name = name := by
  simp [find?, List.find?_isSome]

namespace SchemaDraft

variable {system : TypeSystem}

theorem checkDistinct_eq_ok_iff {seen : List String} {types : List TypeDefinition} :
    checkDistinct seen types = .ok () ↔
      (types.map TypeDefinition.name).Nodup ∧ ∀ type ∈ types, type.name ∉ seen := by
  induction types generalizing seen with
  | nil => simp [checkDistinct]
  | cons type rest ih =>
    rw [checkDistinct]
    by_cases hseen : type.name ∈ seen
    · simp [hseen]
    · rw [if_neg (by simpa using hseen), ih, List.map_cons, List.nodup_cons, List.mem_map,
        List.forall_mem_cons]
      constructor
      · rintro ⟨hnodup, hrest⟩
        have hnew : ¬ ∃ other ∈ rest, other.name = type.name := fun ⟨other, hmem, heq⟩ =>
          hrest other hmem (heq ▸ List.mem_cons_self)
        exact ⟨⟨hnew, hnodup⟩, hseen, fun other hmem hother =>
          hrest other hmem (List.mem_cons_of_mem _ hother)⟩
      · rintro ⟨⟨hnew, hnodup⟩, -, hrest⟩
        refine ⟨hnodup, fun other hmem hother => ?_⟩
        rcases List.mem_cons.1 hother with heq | hother
        · exact hnew ⟨other, hmem, heq⟩
        · exact hrest other hmem hother

theorem checkQueryType_eq_ok_iff :
    checkQueryType system = .ok () ↔ ∃ object, system.query? = some object := by
  unfold checkQueryType TypeSystem.query? TypeSystem.object?
  cases system.get? system.queryType with
  | none => simp
  | some type => cases type <;> simp

private theorem checkReference_eq_ok_iff {type : TypeExpr} {referrer : Referrer} :
    checkReference system type referrer = .ok () ↔
      ∃ found, system.innermost? type = some found := by
  unfold checkReference
  cases system.innermost? type <;> simp

theorem checkInputReference_eq_ok_iff {type : TypeExpr} {referrer : Referrer} :
    checkInputReference system type referrer = .ok () ↔
      ∃ found, system.innermost? type = some found ∧ found.isInput = true := by
  unfold checkInputReference
  cases system.innermost? type with
  | none => simp
  | some found => by_cases hinput : found.isInput = true <;> simp [hinput]

theorem checkField_eq_ok_iff {owner : String} {field : FieldDefinition} :
    checkField system owner field = .ok () ↔
      (∃ found, system.innermost? field.type = some found) ∧
        ∀ argument ∈ field.arguments,
          ∃ found, system.innermost? argument.type = some found ∧ found.isInput = true := by
  have harguments := @forM_eq_ok_iff _ _ (fun argument =>
    checkInputReference system argument.type (.argument owner field.name argument.name))
    field.arguments
  simp only [checkInputReference_eq_ok_iff] at harguments
  rw [checkField, check_bind_eq_ok_iff, checkReference_eq_ok_iff]
  exact and_congr_right fun _ => harguments

theorem checkImplements_eq_ok_iff {object : ObjectType} {name : String} :
    checkImplements system object name = .ok () ↔
      ∃ interface, system.get? name = some (.interface interface) ∧
        ∀ field ∈ interface.fields, (object.field? field.name).isSome = true := by
  unfold checkImplements
  cases system.get? name with
  | none => simp
  | some type =>
    cases type with
    | object | union | enum | scalar => simp
    | interface type =>
      simp only [Option.some.injEq, TypeDefinition.interface.injEq, exists_eq_left']
      cases hmissing : type.fields.find? fun field => (object.field? field.name).isNone with
      | none =>
        rw [List.find?_eq_none] at hmissing
        simpa [Option.isSome_iff_ne_none] using hmissing
      | some field =>
        have hfield : object.field? field.name = none := by
          simpa using List.find?_some hmissing
        have hmem : field ∈ type.fields := List.mem_of_find?_eq_some hmissing
        simp only [reduceCtorEq, false_iff]
        intro hall
        simpa [hfield] using hall field hmem

theorem checkMember_eq_ok_iff {union member : String} :
    checkMember system union member = .ok () ↔ ∃ object, system.object? member = some object := by
  unfold checkMember
  cases system.object? member <;> simp

theorem checkType_eq_ok_iff {type : TypeDefinition} :
    checkType system type = .ok () ↔
      (∀ field ∈ type.fields, checkField system type.name field = .ok ()) ∧
        (∀ object, type = .object object →
          ∀ name ∈ object.implements, checkImplements system object name = .ok ()) ∧
        ∀ union, type = .union union →
          ∀ name ∈ union.members, checkMember system union.name name = .ok () := by
  have hfields := @forM_eq_ok_iff _ _ (checkField system type.name) type.fields
  unfold checkType
  rw [check_bind_eq_ok_iff]
  refine and_congr hfields ?_
  cases type with
  | object object =>
    have himplements := @forM_eq_ok_iff _ _ (checkImplements system object) object.implements
    simpa using himplements
  | union union =>
    have hmembers := @forM_eq_ok_iff _ _ (checkMember system union.name) union.members
    simpa using hmembers
  | interface | enum | scalar => simp [pure_eq_ok_iff]

theorem checkDirective_eq_ok_iff {spec : DirectiveSpec} :
    checkDirective system spec = .ok () ↔
      ∀ argument ∈ spec.arguments,
        ∃ found, system.innermost? argument.type = some found ∧ found.isInput = true := by
  have harguments := @forM_eq_ok_iff _ _ (fun argument =>
    checkInputReference system argument.type (.directiveArgument spec.name argument.name))
    spec.arguments
  simp only [checkInputReference_eq_ok_iff] at harguments
  exact harguments

/-- What is left of finishing a draft that passes all checks. -/
theorem finish_of_checks {draft : SchemaDraft}
    (hdistinct : checkDistinct [] draft.types = .ok ())
    (hquery : checkQueryType draft.typeSystem = .ok ())
    (htypes : draft.types.forM (checkType draft.typeSystem) = .ok ())
    (hdirectives :
      draft.directives.forM (checkDirective (withPossibleTypes draft.typeSystem)) = .ok ()) :
    draft.finish = (do
      let types ← (withPossibleTypes draft.typeSystem).types.mapM
        (settleType draft.translator ⟨withPossibleTypes draft.typeSystem, draft.resolvers⟩)
      let directives ← draft.directives.mapM
        (settleDirective draft.translator ⟨⟨draft.queryType, types⟩, draft.resolvers⟩)
      pure { queryType := draft.queryType, types, resolvers := draft.resolvers, directives,
             translator := draft.translator, delays := draft.delays }) := by
  have hdistinct' : checkDistinct [] draft.typeSystem.types = .ok () := hdistinct
  have htypes' : draft.typeSystem.types.forM (checkType draft.typeSystem) = .ok () := htypes
  simp only [finish, hdistinct', hquery, htypes', hdirectives]
  rfl

theorem find?_name_of_mem {types : List TypeDefinition}
    (hnodup : (types.map TypeDefinition.name).Nodup) {type : TypeDefinition}
    (hmem : type ∈ types) : types.find? (fun other => other.name == type.name) = some type :=
  (find?_key_eq_some_iff hnodup).2 ⟨hmem, rfl⟩

theorem get?_eq_some_iff (hnodup : (system.types.map TypeDefinition.name).Nodup) {name : String}
    {type : TypeDefinition} :
    system.get? name = some type ↔ type ∈ system.types ∧ type.name = name :=
  find?_key_eq_some_iff hnodup

end SchemaDraft

end GraphQuery
