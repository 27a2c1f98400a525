import GraphQuery.Proofs.Completion.Outputs
import GraphQuery.Proofs.Selection.Acceptance

/-!
# Misplaced nulls

Nulls in a value where its type excludes them. Main statement: a held null and every failure at
such a position propagate, with an error that is recorded, and only a translator that serializes a
value into null leaves one there.
-/

namespace GraphQuery

namespace Completion

variable {completions : List Completion} {completion : Completion} {nullable : Bool}

/-- If null propagates from the completion, then an error says why. -/
def Recorded (completion : Completion) : Prop := completion.Propagates → completion.errors ≠ []

private theorem recorded_ok (value : Value) : (ok value).Recorded := nofun

private theorem recorded_fatal (fault : ExecutionFault) : (fatal fault).Recorded := nofun

private theorem recorded_failed (error : ResponseError) : (failed error).Recorded :=
  fun _ => List.cons_ne_nil error []

private theorem Recorded.absorb (h : completion.Recorded) :
    (completion.absorb nullable).Recorded := by
  intro hpropagates
  rw [errors_absorb]
  exact h (propagates_absorb_iff.1 hpropagates).1

private theorem recorded_ofFault (fault : ExecutionFault) (nullable : Bool) (position : Position)
    (path : ResponsePath) : (ofFault fault nullable position path).Recorded := by
  unfold ofFault
  split
  · exact recorded_fatal fault
  · exact (recorded_failed _).absorb

private theorem recorded_join {build : List Value → Value}
    (h : ∀ completion ∈ completions, completion.Recorded) : (join build completions).Recorded := by
  intro hpropagates hnone
  obtain ⟨completion, hmem, hcompletion⟩ := exists_propagates_of_join hpropagates
  exact h completion hmem hcompletion (List.flatMap_eq_nil_iff.1 hnone completion hmem)

end Completion

/-- The level records why it has no value. -/
def Level.Records (level : Level) : Prop :=
  ∀ object selections held path, (level object selections held path).value.Recorded

namespace Plan

open Completion (recorded_ok recorded_fatal recorded_failed recorded_ofFault recorded_join)

section

variable {plan : Plan} {schedule : Schedule} {level : Level} {site : FieldSite} {held : Json}
  {path : ResponsePath}

private theorem recorded_completeNull (nullable : Bool) :
    (completeNull site nullable path).Recorded := by
  cases nullable with
  | true => exact recorded_ok .null
  | false => exact recorded_failed _

private theorem nullable_of_completeNull {nullable : Bool}
    (h : (completeNull site nullable path).Propagates) : nullable = false := by
  cases nullable with
  | true => cases h
  | false => rfl

private theorem nullable_of_propagates {type : TypeExpr}
    (h : (plan.completeValue schedule level site type held path).value.Propagates) :
    type.nullable = false := by
  cases type with
  | named name nullable =>
    rw [completeValue] at h
    split at h
    · exact nullable_of_completeNull h
    · rw [Future.value_bind] at h
      exact (Completion.propagates_absorb_iff.1 h).2
  | list item nullable =>
    rw [completeValue] at h
    split at h
    · exact nullable_of_completeNull h
    · split at h
      · exact (Completion.propagates_absorb_iff.1 h).2
      · rw [Future.value_bind] at h
        exact (Completion.propagates_absorb_iff.1 h).2

private theorem recorded_completeNamed (hlevel : level.Records) (name : String) :
    (plan.completeNamed level site name held path).value.Recorded := by
  unfold completeNamed
  split
  · exact recorded_fatal _
  · exact hlevel _ _ _ _
  · split
    · unfold completeAbstract
      split
      · exact hlevel _ _ _ _
      · exact recorded_failed _
    · split
      · exact recorded_ok _
      · exact recorded_failed _

private theorem recorded_completeValue (hschedule : schedule.Ordered) (hlevel : level.Records)
    (type : TypeExpr) : (plan.completeValue schedule level site type held path).value.Recorded := by
  induction type generalizing held path with
  | named name nullable =>
    rw [completeValue]
    split
    · exact recorded_completeNull nullable
    · rw [Future.value_bind]
      exact (recorded_completeNamed hlevel name).absorb
  | list item nullable ih =>
    cases hitems : held.items? with
    | none =>
      rw [completeValue, hitems]
      split
      · exact recorded_completeNull nullable
      · exact (recorded_failed _).absorb
    | some items =>
      rw [value_completeValue_items hschedule level site item nullable hitems]
      refine (recorded_join fun completion hmem => ?_).absorb
      obtain ⟨i, hi, rfl⟩ := List.mem_mapIdx.1 hmem
      exact ih

private theorem recorded_resolveTypename (object : ObjectType) (parent : Json) (node : FieldNode) :
    (plan.resolveTypename object parent node path).value.Recorded := by
  unfold resolveTypename
  split
  · exact recorded_ofFault _ _ _ _
  · rw [Future.value_bind]
    split
    · exact recorded_ofFault _ _ _ _
    · exact recorded_ok _
    · exact recorded_failed _

private theorem recorded_resolveField (hschedule : schedule.Ordered) (hlevel : level.Records)
    (object : ObjectType) (parent : Json) (group : FieldGroup) :
    (plan.resolveField schedule level object parent path group).value.Recorded := by
  by_cases hname : group.first.node.name = "__typename"
  · simp only [resolveField, hname, beq_self_eq_true, if_true]
    exact recorded_resolveTypename object parent _
  · cases hfield : object.field? group.first.node.name with
    | none =>
      simp only [resolveField, beq_iff_eq, hname, if_false, hfield]
      exact recorded_fatal _
    | some field =>
      rw [value_resolveField hname hfield]
      split
      · exact recorded_ofFault _ _ _ _
      · split
        · exact recorded_ofFault _ _ _ _
        · exact recorded_completeValue hschedule hlevel field.type

private theorem records_levelAt (hschedule : schedule.Ordered) (depth : Nat) :
    (plan.levelAt schedule depth).Records := by
  unfold levelAt
  induction depth with
  | zero => exact fun _ _ _ _ => recorded_ok _
  | succ depth ih =>
    intro object selections held path
    rw [levelWith]
    split
    · exact recorded_fatal _
    · rw [completeGroups, Future.value_bind, hschedule]
      refine recorded_join fun completion hmem => ?_
      obtain ⟨future, hfuture, rfl⟩ := List.mem_map.1 hmem
      obtain ⟨group, -, rfl⟩ := List.mem_map.1 hfuture
      exact recorded_resolveField hschedule ih object held group

end

/-- Null stands in the value where the type excludes it, at the outermost level or in lists. -/
inductive Misplaced : TypeExpr → Value → Prop
  | here {type} (hnullable : type.nullable = false) : Misplaced type .null
  | item {item nullable values value} (hmem : value ∈ values) (h : Misplaced item value) :
      Misplaced (.list item nullable) (.list values)

/-- The translator has serialized a held value into a null that the type excludes. -/
inductive SerializedNull (plan : Plan) : TypeExpr → Json → Value → Prop
  | here {name type held} (hheld : held.isNull = false) (hget : plan.system.get? name = some type)
      (hleaf : type.isLeaf = true) (hvalue : plan.schema.leaf type held = .ok .null) :
      SerializedNull plan (.named name false) held .null
  | item {item nullable held items values} {i : Nat} {inner : Json} {value : Value}
      (hitems : held.items? = some items) (hinner : items[i]? = some inner)
      (hvalue : values[i]? = some value) (h : SerializedNull plan item inner value) :
      SerializedNull plan (.list item nullable) held (.list values)

/-- A null is held where the type excludes it, at the end of the path through lists. -/
inductive HeldNull : TypeExpr → Json → ResponsePath → Prop
  | here {type held} (hheld : held.isNull = true) (hnullable : type.nullable = false) :
      HeldNull type held []
  | item {item nullable held items} {i : Nat} {inner : Json} {rest : ResponsePath}
      (hitems : held.items? = some items) (hinner : items[i]? = some inner)
      (h : HeldNull item inner rest) : HeldNull (.list item nullable) held (.index i :: rest)

variable {plan : Plan} {type : TypeExpr} {held : Json} {result : Value}

private theorem completeValue_null (schedule : Schedule) (level : Level) (site : FieldSite)
    (hheld : held.isNull = true) (hnullable : type.nullable = false) (path : ResponsePath) :
    plan.completeValue schedule level site type held path =
      .done (site.failed site.nullMessage path) := by
  cases type with
  | named _ nullable | list _ nullable =>
    obtain rfl : nullable = false := hnullable
    rw [completeValue, if_pos hheld]
    rfl

/-- Every held null that its type excludes is recorded at its own path. -/
theorem HeldNull.error_mem {rest : ResponsePath} (h : HeldNull type held rest)
    {schedule : Schedule} (hschedule : schedule.Ordered) (level : Level) (site : FieldSite)
    (path : ResponsePath) :
    .ofResult site.nullMessage site.position (path ++ rest) ∈
      (plan.completeValue schedule level site type held path).value.errors := by
  induction h generalizing path with
  | here hheld hnullable =>
    rw [completeValue_null schedule level site hheld hnullable, List.append_nil]
    exact List.mem_cons_self
  | @item item nullable held items i inner rest hitems hinner _ ih =>
    have hcompletion := ih (path.child (.index i))
    rw [ResponsePath.child, List.append_assoc, List.singleton_append] at hcompletion
    rw [value_completeValue_items hschedule level site item nullable hitems,
      Completion.errors_absorb, Completion.ofItems, Completion.errors_join]
    refine List.mem_flatMap.2 ⟨_, List.mem_of_getElem? (i := i) ?_, hcompletion⟩
    rw [List.getElem?_mapIdx, hinner]
    rfl

/-- In an output null is misplaced exactly where the translator has put it. -/
theorem Output.misplaced_iff (h : plan.Output type held result) :
    Misplaced type result ↔ plan.SerializedNull type held result := by
  constructor
  · intro hmisplaced
    induction h with
    | null hnullable =>
      cases hmisplaced with
      | here hnonnull => cases hnonnull.symm.trans hnullable
    | @leaf name nullable type held value hheld hget hleaf hvalue =>
      cases hmisplaced with
      | here hnonnull =>
        obtain rfl : nullable = false := hnonnull
        exact .here hheld hget hleaf hvalue
    | object => cases hmisplaced
    | list hitems hlength _ ih =>
      cases hmisplaced with
      | item hmem hinside =>
        obtain ⟨i, hi⟩ := List.mem_iff_getElem?.1 hmem
        obtain ⟨inner, hinner⟩ := exists_getElem?_of_length_eq hlength hi
        exact .item hitems hinner hi (ih i inner _ hinner hi hinside)
  · clear h
    intro hserialized
    induction hserialized with
    | here => exact .here rfl
    | item _ _ hvalue _ ih => exact .item (List.mem_of_getElem? hvalue) ih

private theorem SerializedNull.exists_leaf (h : plan.SerializedNull type held result) :
    ∃ definition value, value.isNull = false ∧ plan.schema.leaf definition value = .ok .null := by
  induction h with
  | here hheld _ _ hvalue => exact ⟨_, _, hheld, hvalue⟩
  | item _ _ _ _ ih => exact ih

/-- What a completion makes of null at a position of the type. -/
structure HandlesNull (plan : Plan) (site : FieldSite) (type : TypeExpr) (held : Json)
    (path : ResponsePath) (completion : Completion) : Prop where
  /-- A held null that the type excludes is an error of the field. -/
  refused : held.isNull = true → type.nullable = false →
    completion = site.failed site.nullMessage path
  /-- Held nulls that the type excludes are recorded, also inside lists. -/
  recorded : ∀ rest, HeldNull type held rest →
    .ofResult site.nullMessage site.position (path ++ rest) ∈ completion.errors
  /-- Null propagates only where the type excludes it, and with an error. -/
  propagated : completion.Propagates → type.nullable = false ∧ completion.errors ≠ []
  /-- A misplaced null comes from the translator. -/
  misplaced : ∀ result, completion.outcome = .ok result →
    (Misplaced type result ↔ plan.SerializedNull type held result)
  /-- A translator that makes no null of a value leaves none where the type excludes it. -/
  clean : (∀ definition value, value.isNull = false →
      plan.schema.leaf definition value ≠ .ok .null) →
    ∀ result, completion.outcome = .ok result → ¬ Misplaced type result
  /-- Nothing checks what the translator returns. -/
  unchecked : ∀ name definition, type = .named name false → held.isNull = false →
    plan.system.get? name = some definition → definition.isLeaf = true →
    plan.schema.leaf definition held = .ok .null → completion = .ok .null

/-- Held nulls and failures at a position that excludes null propagate with an error, whatever the
translator; a null that the translator makes of another value stays, without an error. -/
theorem handlesNull_completeValue (plan : Plan)
    (buffering : Future.Buffering ResponsePath Event Completion) (depth : Nat) (site : FieldSite)
    (type : TypeExpr) (held : Json) (path : ResponsePath) :
    plan.HandlesNull site type held path
      (plan.completeValue (buffering.gather plan.limit)
        (plan.levelAt (buffering.gather plan.limit) depth) site type held path).value where
  refused hheld hnullable := by
    rw [completeValue_null _ _ site hheld hnullable]
    rfl
  recorded rest h := h.error_mem (ordered_gather buffering) _ site path
  propagated hpropagates :=
    ⟨nullable_of_propagates hpropagates,
      recorded_completeValue (ordered_gather buffering)
        (records_levelAt (ordered_gather buffering) depth) type hpropagates⟩
  misplaced result h :=
    (output_of_completeValue (ordered_gather buffering) (buildsObjects_levelAt _ depth) type
      h).misplaced_iff
  clean htranslator result h := by
    have houtput := output_of_completeValue (ordered_gather buffering)
      (buildsObjects_levelAt _ depth) type h
    intro hmisplaced
    obtain ⟨definition, value, hvalue, hnull⟩ := (houtput.misplaced_iff.1 hmisplaced).exists_leaf
    exact htranslator definition value hvalue hnull
  unchecked := by
    rintro name definition rfl hheld hget hleaf hvalue
    rw [completeValue, if_neg (by simp [hheld]), completeNamed_leaf hget hleaf, hvalue]
    rfl

/-- A plan under a translator that shows every leaf as null. -/
def blankPlan : Plan :=
  { schema :=
      { pageSchema.toSchema with
        translator := { Translator.standard with leaf := fun _ _ _ => .ok .null } }
    values := []
    fragments := []
    delays := .none
    settings := .default
    operation := pageOperation
    rootType := pageQuery
    root := .null
    depth := 1 }

/-- The identifier of a page, which may not be null, is blank and nothing is recorded. -/
theorem blank_identifier :
    (blankPlan.completeValue blankPlan.schedule (blankPlan.levelAt blankPlan.schedule 1)
        ⟨"Page", "id", ⟨1, 1⟩, []⟩ (.named "ID" false) (.string "page") []).value = .ok .null ∧
      Misplaced (.named "ID" false) .null := by
  have hhandles := handlesNull_completeValue blankPlan (.rounds ..) 1 ⟨"Page", "id", ⟨1, 1⟩, []⟩
    (.named "ID" false) (.string "page") []
  exact ⟨hhandles.unchecked "ID" (.scalar ⟨"ID", .id⟩) rfl rfl rfl rfl rfl, .here rfl⟩

end Plan

end GraphQuery
