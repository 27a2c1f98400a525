import GraphQuery.Proofs.Binding.Inclusion
import GraphQuery.Proofs.Selection.Acceptance
import GraphQuery.Proofs.Selection.Conditions
import GraphQuery.Proofs.Selection.Reached
import Mathlib.Data.List.Induction

/-!
# Grouped selections

How the fields of a flattening lie in the groups that are collected. A flattening is stated by what
the directives say of a selection and by the objects that satisfy a type condition, without the
walk that decides these. Main statement: what an accepted operation selects on an object is
collected under the response keys of its flattening, in the order in which they first appear, with
the fields of each key in document order.
-/

namespace GraphQuery

open List (Forall₂)

namespace FieldGroup

private theorem eraseDups_concat (keys : List String) (key : String) :
    (keys ++ [key]).eraseDups =
      if key ∈ keys then keys.eraseDups else keys.eraseDups ++ [key] := by
  rw [List.eraseDups_append, List.removeAll, List.filter_singleton]
  by_cases hmem : key ∈ keys
  · simp [hmem]
  · simp [hmem, List.eraseDups_cons]

private theorem keys_addAll (fields : List SelectedField) :
    (addAll [] fields).map key = (fields.map fun field => field.node.responseKey).eraseDups := by
  induction fields using List.reverseRecOn with
  | nil => rfl
  | append_singleton fields field ih =>
    rw [addAll_append, addAll_cons, addAll_nil, map_key_add, ih, List.map_append,
      List.map_singleton, eraseDups_concat]
    simp only [List.mem_eraseDups]

theorem nodup_keys_addAll (fields : List SelectedField) :
    ((addAll [] fields).map key).Nodup := by
  suffices h : ∀ groups : List FieldGroup, (groups.map key).Nodup →
      ((addAll groups fields).map key).Nodup from h [] List.nodup_nil
  induction fields with
  | nil => exact fun _ h => h
  | cons field fields ih => exact fun groups h => ih _ (nodup_key_add h)

private theorem under_addAll (key : String) (fields : List SelectedField)
    (groups : List FieldGroup) :
    under key (addAll groups fields) =
      under key groups ++ fields.filter fun field => field.node.responseKey = key := by
  induction fields generalizing groups with
  | nil => simp
  | cons field fields ih =>
    rw [addAll_cons, ih, under_add, List.append_assoc, List.filter_cons]
    by_cases hkey : field.node.responseKey = key
    · simp [hkey]
    · simp [hkey]

private theorem under_of_mem {group : FieldGroup} {groups : List FieldGroup}
    (h : (groups.map key).Nodup) (hmem : group ∈ groups) :
    under group.key groups = group.fields := by
  induction groups with
  | nil => cases hmem
  | cons first rest ih =>
    rw [List.map_cons, List.nodup_cons] at h
    rw [under]
    rcases List.mem_cons.1 hmem with rfl | hmem
    · exact if_pos rfl
    · have hne : first.key ≠ group.key := fun heq => h.1 (heq ▸ List.mem_map_of_mem hmem)
      rw [if_neg hne, ih h.2 hmem]

theorem fields_of_mem_addAll {group : FieldGroup} {fields : List SelectedField}
    (h : group ∈ addAll [] fields) :
    group.fields = fields.filter fun field => field.node.responseKey = group.key := by
  rw [← under_of_mem (nodup_keys_addAll fields) h, under_addAll]
  rfl

end FieldGroup

namespace Scope

/-- The inclusion predicates of the selection hold, and for a spread those of the fragment
definition too, and the object satisfies the type condition. -/
inductive Includes (scope : Scope) (object : ObjectType) : Selection → Prop
  | field {node selections} (hdirectives : ∀ use ∈ node.directives, scope.Holds .field use) :
      Includes scope object (.field node selections)
  | inline {node selections}
      (hdirectives : ∀ use ∈ node.directives, scope.Holds .inlineFragment use)
      (hcondition : ∀ condition, node.condition = some condition →
        object.Satisfies scope.system condition) : Includes scope object (.inline node selections)
  | spread {node fragment}
      (hdirectives : ∀ use ∈ node.directives, scope.Holds .fragmentSpread use)
      (hfragment : scope.fragment? node.name = some fragment)
      (hdefinition : ∀ use ∈ fragment.directives, scope.Holds .fragmentDefinition use)
      (hcondition : object.Satisfies scope.system fragment.condition) :
      Includes scope object (.spread node)

/-- The fields that selections come to on an object: a field stands for itself, a fragment for what
its body comes to, and what is not included is dropped. -/
inductive Flattening (scope : Scope) (object : ObjectType) :
    List Selection → List SelectedField → Prop
  | nil : Flattening scope object [] []
  | dropped {selection rest fields} (hdropped : ¬ scope.Includes object selection)
      (hrest : Flattening scope object rest fields) :
      Flattening scope object (selection :: rest) fields
  | field {node selections rest fields}
      (hincluded : scope.Includes object (.field node selections))
      (hrest : Flattening scope object rest fields) :
      Flattening scope object (.field node selections :: rest) (⟨node, selections⟩ :: fields)
  | inline {node selections inside rest fields}
      (hincluded : scope.Includes object (.inline node selections))
      (hbody : Flattening scope object selections inside)
      (hrest : Flattening scope object rest fields) :
      Flattening scope object (.inline node selections :: rest) (inside ++ fields)
  | spread {node fragment inside rest fields}
      (hincluded : scope.Includes object (.spread node))
      (hfragment : scope.fragment? node.name = some fragment)
      (hbody : Flattening scope object fragment.selections inside)
      (hrest : Flattening scope object rest fields) :
      Flattening scope object (.spread node :: rest) (inside ++ fields)

variable {scope : Scope} {object : ObjectType}

private theorem Flattening.unique {selections : List Selection} {fields others : List SelectedField}
    (h : scope.Flattening object selections fields)
    (h' : scope.Flattening object selections others) : others = fields := by
  induction h generalizing others with
  | nil =>
    cases h'
    rfl
  | dropped hdropped _ ih =>
    cases h' with
    | dropped _ hrest' => exact ih hrest'
    | field hincluded' | inline hincluded' | spread hincluded' => exact absurd hincluded' hdropped
  | field hincluded _ ih =>
    cases h' with
    | dropped hdropped' => exact absurd hincluded hdropped'
    | field _ hrest' => rw [ih hrest']
  | inline hincluded _ _ ihbody ihrest =>
    cases h' with
    | dropped hdropped' => exact absurd hincluded hdropped'
    | inline _ hbody' hrest' => rw [ihbody hbody', ihrest hrest']
  | spread hincluded hfragment _ _ ihbody ihrest =>
    cases h' with
    | dropped hdropped' => exact absurd hincluded hdropped'
    | spread _ hfragment' hbody' hrest' =>
      obtain rfl := Option.some.inj (hfragment'.symm.trans hfragment)
      rw [ihbody hbody', ihrest hrest']

section

variable {kept : Bool}

private theorem directives_hold_iff {location : DirectiveLocation} {uses : List DirectiveUse}
    (hkeeps : scope.keeps location uses = .ok kept) :
    kept = true ↔ ∀ use ∈ uses, scope.Holds location use := by
  rw [← Bindings.keeps_iff_holds, hkeeps, Except.ok.injEq]

private theorem includes_field_iff {node : FieldNode} {selections : List Selection}
    (hkeeps : scope.keeps .field node.directives = .ok kept) :
    scope.Includes object (.field node selections) ↔ kept = true := by
  rw [directives_hold_iff hkeeps]
  exact ⟨fun | .field hdirectives => hdirectives, .field⟩

variable (hsatisfies : ∀ condition : TypeCondition,
  scope.system.applies object.name condition.name = true ↔ object.Satisfies scope.system condition)

include hsatisfies

private theorem includes_inline_iff {node : InlineNode} {selections : List Selection}
    (hkeeps : scope.keeps .inlineFragment node.directives = .ok kept) :
    scope.Includes object (.inline node selections) ↔
      (kept && node.condition.all fun condition =>
        scope.system.applies object.name condition.name) = true := by
  have hholds := directives_hold_iff hkeeps
  rw [Bool.and_eq_true, hholds, Option.all_eq_true]
  simp only [hsatisfies]
  exact ⟨fun | .inline hdirectives hcondition => ⟨hdirectives, hcondition⟩,
    fun ⟨hdirectives, hcondition⟩ => .inline hdirectives hcondition⟩

private theorem includes_spread_iff {node : SpreadNode} {fragment : Fragment}
    (hkeeps : scope.keeps .fragmentSpread node.directives = .ok true)
    (hfragment : scope.fragment? node.name = some fragment)
    (hdefinition : scope.keeps .fragmentDefinition fragment.directives = .ok kept) :
    scope.Includes object (.spread node) ↔
      (kept && scope.system.applies object.name fragment.condition.name) = true := by
  rw [Bool.and_eq_true, directives_hold_iff hdefinition, hsatisfies]
  constructor
  · intro hincludes
    cases hincludes with
    | spread _ hfound hholds hcondition =>
      obtain rfl := Option.some.inj (hfound.symm.trans hfragment)
      exact ⟨hholds, hcondition⟩
  · rintro ⟨hholds, hcondition⟩
    exact .spread (Bindings.keeps_iff_holds.1 hkeeps) hfragment hholds hcondition

/-- What opening fragments comes to is the flattening. -/
theorem Flattens.flattening {selections : List Selection} {fields : List SelectedField}
    (h : scope.Flattens object.name selections fields) :
    scope.Flattening object selections fields := by
  induction h with
  | nil => exact .nil
  | @field node selections kept _ _ hkeeps _ ih =>
    have hiff : scope.Includes object (.field node selections) ↔ kept = true :=
      includes_field_iff hkeeps
    cases kept with
    | true => exact .field (hiff.2 rfl) ih
    | false => exact .dropped (mt hiff.1 Bool.false_ne_true) ih
  | fragment hopens _ _ ihbody ihrest =>
    -- a selection that is not included opens to no selections, which flatten to no fields
    cases hopens with
    | @inline node selections kept hkeeps =>
      have hiff : scope.Includes object (.inline node selections) ↔ _ :=
        includes_inline_iff hsatisfies hkeeps
      by_cases hincluded : scope.Includes object (.inline node selections)
      · rw [if_pos (hiff.1 hincluded)] at ihbody
        exact .inline hincluded ihbody ihrest
      · rw [if_neg (mt hiff.2 hincluded)] at ihbody
        cases ihbody
        exact .dropped hincluded ihrest
    | dropped hkeeps =>
      cases ihbody
      refine .dropped (fun hincluded => ?_) ihrest
      cases hincluded with
      | spread hdirectives =>
        cases hkeeps.symm.trans (Bindings.keeps_iff_holds.2 hdirectives)
    | @spread node fragment kept hkeeps hfragment hdefinition =>
      have hiff := includes_spread_iff hsatisfies hkeeps hfragment hdefinition
      by_cases hincluded : scope.Includes object (.spread node)
      · rw [if_pos (hiff.1 hincluded)] at ihbody
        exact .spread hincluded hfragment ihbody ihrest
      · rw [if_neg (mt hiff.2 hincluded)] at ihbody
        cases ihbody
        exact .dropped hincluded ihrest

end

variable {sets : List (List Selection)} {flattenings : List (List SelectedField)}

private theorem flattens_flatten {name : String}
    (h : Forall₂ (scope.Flattens name) sets flattenings) :
    scope.Flattens name sets.flatten flattenings.flatten := by
  induction h with
  | nil => exact .nil
  | cons hset _ ih => exact hset.append ih

private theorem flattenings_unique (h : Forall₂ (scope.Flattening object) sets flattenings)
    {others : List (List SelectedField)} (h' : Forall₂ (scope.Flattening object) sets others) :
    others = flattenings := by
  induction h generalizing others with
  | nil =>
    cases h'
    rfl
  | cons hset _ ih =>
    cases h' with
    | cons hset' hrest' => rw [hset.unique hset', ih hrest']

private theorem exists_flattenings {name : String}
    (h : ∀ set ∈ sets, ∃ fields, scope.Flattens name set fields) :
    ∃ flattenings, Forall₂ (scope.Flattens name) sets flattenings := by
  induction sets with
  | nil => exact ⟨[], .nil⟩
  | cons set rest ih =>
    rw [List.forall_mem_cons] at h
    obtain ⟨fields, hfields⟩ := h.1
    obtain ⟨more, hmore⟩ := ih h.2
    exact ⟨fields :: more, .cons hfields hmore⟩

end Scope

/-- Sets of selections that an accepted operation reaches have one flattening each on an object of a
finished schema. Collection from them succeeds: its keys are the response keys that the flattenings
have, as they first appear, and under a key there are exactly the flattened fields of that key, in
their order. -/
theorem collect_grouped {draft : SchemaDraft} {schema : ExecutableSchema}
    (hfinish : draft.finish = .ok schema) {scope : Scope} (hschema : scope.schema = schema.toSchema)
    {root : TypeDefinition} {operation : Operation} {depth : Nat}
    (hwalk : scope.depth root operation.selections = .ok depth) {sets : List (List Selection)}
    (hsets : ∀ set ∈ sets, ∀ selection ∈ set, operation.Reaches scope.fragments selection)
    {object : ObjectType} (hobject : .object object ∈ schema.types) :
    ∃ flattenings, Forall₂ (scope.Flattening object) sets flattenings ∧
      (∀ others, Forall₂ (scope.Flattening object) sets others → others = flattenings) ∧
      ∃ groups, scope.collect object.name sets = .ok groups ∧
        groups.map FieldGroup.key =
          (flattenings.flatten.map fun field => field.node.responseKey).eraseDups ∧
        ∀ group ∈ groups, group.fields =
          flattenings.flatten.filter fun field => field.node.responseKey = group.key := by
  have hoperation := Scope.valid_of_depth_eq_ok hwalk
  have hvalid : ∀ set ∈ sets, ∀ selection ∈ set, ∃ parent depth,
      scope.Valid parent depth selection := fun set hset selection hmem =>
    Scope.exists_valid_of_reaches hoperation (hsets set hset selection hmem)
  have hsatisfies (condition : TypeCondition) :
      scope.system.applies object.name condition.name = true ↔
        object.Satisfies scope.system condition := by
    rw [Scope.system, hschema]
    exact SchemaDraft.applies_iff_satisfies hfinish hobject
  obtain ⟨flattenings, hopened⟩ : ∃ flattenings,
      Forall₂ (scope.Flattens object.name) sets flattenings := by
    refine Scope.exists_flattenings fun set hset => Scope.exists_flattens_of_forall ?_
    intro selection hmem
    obtain ⟨parent, depth, h⟩ := hvalid set hset selection hmem
    exact h.exists_flattens object.name
  have hflattenings := hopened.imp fun _ _ h => h.flattening hsatisfies
  refine ⟨flattenings, hflattenings, fun others => Scope.flattenings_unique hflattenings, _,
    Scope.collect_eq_of_flattens hvalid (Scope.flattens_flatten hopened), ?_, ?_⟩
  · exact FieldGroup.keys_addAll _
  · exact fun group => FieldGroup.fields_of_mem_addAll

/-- The document whose fragment asks the next node for its identifier. -/
def entryPages : Scope :=
  { entryScope with fragments := (pageScope (pageField "id" [])).fragments }

/-- The selections of `{ ...page @include(if: true) id @skip(if: true) ... on Entry { ... on Note {
id } ... on Page { id } } }` and `{ next { __typename } }`, which two fields `node` of one operation
make. -/
def nextPages : List (List Selection) :=
  let entries := [Scope.fragmentOn "Note" [pageField "id" []],
    Scope.fragmentOn "Page" [pageField "id" []]]
  [[.spread ⟨⟨1, 1⟩, "page", [includeIf (.boolean true)]⟩,
      markedField "id" [skipIf (.boolean true)] [], Scope.fragmentOn "Entry" entries],
    [pageField "next" [pageField "__typename" []]]]

/-- The field without alias, arguments and directives that such selections are made on. -/
def plainField (name : String) (selections : List Selection) : SelectedField :=
  ⟨⟨⟨1, 1⟩, none, name, [], []⟩, selections⟩

/-- What the sets come to on a page, without the skipped field and the fragment on notes. -/
def nextFields : List (List SelectedField) :=
  [[plainField "next" [pageField "id" []], plainField "id" []],
    [plainField "next" [pageField "__typename" []]]]

private theorem page_mem_entrySchema : .object pageObject ∈ entrySchema.types :=
  List.mem_of_find?_eq_some (rfl : entrySchema.get? "Page" = some (.object pageObject))

private theorem flattening_nextPages :
    Forall₂ (entryPages.Flattening pageObject) nextPages nextFields := by
  have hsatisfies (condition : TypeCondition) :
      entryPages.system.applies pageObject.name condition.name = true ↔
        pageObject.Satisfies entryPages.system condition :=
    SchemaDraft.applies_iff_satisfies (rfl : entryDraft.finish = .ok entrySchema)
      page_mem_entrySchema
  have hfield (name : String) (selections : List Selection) {rest fields}
      (hrest : entryPages.Flattening pageObject rest fields) :
      entryPages.Flattening pageObject (pageField name selections :: rest)
        (plainField name selections :: fields) :=
    .field ((Scope.includes_field_iff (entryPages.keeps_nil .field)).2 rfl) hrest
  have hcondition (type : String) (selections : List Selection) :
      entryPages.Includes pageObject (Scope.fragmentOn type selections) ↔
        entryPages.system.applies "Page" type = true := by
    have hkeeps : entryPages.keeps .inlineFragment (Scope.nodeOn type).directives = .ok true := rfl
    have hiff : entryPages.Includes pageObject (Scope.fragmentOn type selections) ↔ _ :=
      Scope.includes_inline_iff hsatisfies hkeeps
    rw [hiff]
    rfl
  have hspread : entryPages.Includes pageObject
      (.spread ⟨⟨1, 1⟩, "page", [includeIf (.boolean true)]⟩) :=
    (Scope.includes_spread_iff hsatisfies rfl rfl rfl).2 rfl
  have hskip : entryPages.keeps .field [skipIf (.boolean true)] = .ok false := rfl
  have hskipped : ¬ entryPages.Includes pageObject (markedField "id" [skipIf (.boolean true)] []) :=
    mt (Scope.includes_field_iff hskip).1 Bool.false_ne_true
  have hnote : ¬ entryPages.Includes pageObject (Scope.fragmentOn "Note" [pageField "id" []]) :=
    mt (hcondition "Note" _).1 (by decide)
  have hentries := Scope.Flattening.dropped hnote
    (.inline ((hcondition "Page" _).2 rfl) (hfield "id" [] .nil) .nil)
  have hfirst := Scope.Flattening.spread hspread rfl (hfield "next" [pageField "id" []] .nil)
    (.dropped hskipped (.inline ((hcondition "Entry" _).2 rfl) hentries .nil))
  exact .cons hfirst (.cons (hfield "next" [pageField "__typename" []] .nil) .nil)

/-- On a page the key of the fragment's field comes first, and the second set adds a field to it. -/
theorem collect_nextPages :
    entryPages.depth (.object pageQuery) (nextPages.map (pageField "node")) = .ok 3 ∧
      Forall₂ (entryPages.Flattening pageObject) nextPages nextFields ∧
      ∃ groups, entryPages.collect "Page" nextPages = .ok groups ∧
        groups.map FieldGroup.key = ["next", "id"] ∧
        groups.map FieldGroup.fields =
          [[plainField "next" [pageField "id" []], plainField "next" [pageField "__typename" []]],
            [plainField "id" []]] := by
  let operation : Operation :=
    { pageOperation with selections := nextPages.map (pageField "node") }
  have hwalk : entryPages.depth (.object pageQuery) operation.selections = .ok 3 := by
    decide +kernel
  have hsets : ∀ set ∈ nextPages, ∀ selection ∈ set,
      operation.Reaches entryPages.fragments selection :=
    fun set hset selection hmem => .field (.here (List.mem_map_of_mem hset)) hmem
  obtain ⟨flattenings, -, hunique, groups, hgroups, hkeys, hfields⟩ :=
    collect_grouped (rfl : entryDraft.finish = .ok entrySchema)
      (rfl : entryPages.schema = entrySchema.toSchema) hwalk hsets page_mem_entrySchema
  obtain rfl := hunique _ flattening_nextPages
  have hgrouped : groups.map FieldGroup.fields = (groups.map FieldGroup.key).map fun key =>
      nextFields.flatten.filter fun field => field.node.responseKey = key := by
    rw [List.map_map]
    exact List.map_congr_left hfields
  have hnext : groups.map FieldGroup.key = ["next", "id"] := hkeys
  refine ⟨hwalk, flattening_nextPages, groups, hgroups, hnext, ?_⟩
  rw [hgrouped, hnext]
  rfl

end GraphQuery
