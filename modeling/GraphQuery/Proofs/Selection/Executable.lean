import GraphQuery.Proofs.Selection.Acceptance
import GraphQuery.Proofs.Selection.Collection

/-!
# Executable selections

Selections are checked against static types, which may be interfaces and unions, and are collected
for the object that a value turns out to be. Main statement: what an accepted operation selects on a
type can be collected for each object of the type, and asks it for no field that it does not have.
-/

namespace GraphQuery

namespace Scope

variable {scope : Scope}

/-- Collection ends on valid selections: more steps than fragments lead to the same result. -/
theorem collectWithin_eq_collect {object : String} {selections : List (List Selection)}
    (hvalid : ∀ list ∈ selections, ∀ selection ∈ list,
      ∃ parent depth, scope.Valid parent depth selection)
    {budget : Nat} (hbudget : scope.fragments.length ≤ budget) :
    scope.collectWithin budget object selections = scope.collect object selections := by
  have hlists (list : List Selection) (hlist : list ∈ selections) :
      scope.collectSelections (scope.collectSpread object budget) object list =
        scope.collectSelections (scope.collectSpread object scope.fragments.length) object
          list := by
    refine collectSelections_congr fun selection hmem => ?_
    obtain ⟨parent, depth, hselection⟩ := hvalid list hlist selection hmem
    exact hselection.unfolds.collectSelection_eq hbudget object
  unfold collectWithin collect
  generalize [] = start
  induction selections generalizing start with
  | nil => rfl
  | cons list rest ih =>
    rw [List.forall_mem_cons] at hvalid hlists
    rw [List.foldlM_cons, List.foldlM_cons, hlists.1]
    exact bind_congr fun groups => ih hvalid.2 hlists.2 groups

end Scope

/-- Selections that were checked on interfaces, unions or fragment conditions can be executed on
each object of these types: collecting them ends, and every collected field is one that the object
has. -/
theorem collects_known_fields {draft : SchemaDraft} {schema : ExecutableSchema}
    (hfinish : draft.finish = .ok schema) {scope : Scope} (hschema : scope.schema = schema.toSchema)
    {root : ObjectType} (hroot : schema.query? = some root) {operation : List Selection}
    {depth : Nat} (hwalk : scope.depth (.object root) operation = .ok depth) {object : ObjectType}
    (hobject : schema.object? object.name = some object) {sets : List (List Selection)}
    (hsets : ∀ set ∈ sets, ∃ parent, scope.Reachable (.object root) operation parent set ∧
      object.name ∈ parent.possibleTypes) :
    ∃ groups, scope.collect object.name sets = .ok groups ∧
      (∀ budget, scope.fragments.length ≤ budget →
        scope.collectWithin budget object.name sets = .ok groups) ∧
      ∀ group ∈ groups, ∀ field ∈ group.fields,
        field.node.name = "__typename" ∨ (object.field? field.node.name).isSome := by
  have hwell := Scope.wellFormed_of_finish hschema hfinish
  have hregistered := Scope.get?_root hschema hroot
  have hfound : scope.system.object? object.name = some object := by
    rw [Scope.system, hschema, hobject]
  have hvalid (set : List Selection) (hset : set ∈ sets) :
      ∃ parent, scope.system.Admits object parent ∧
        ∀ selection ∈ set, scope.Valid parent depth selection := by
    obtain ⟨parent, hreach, hpossible⟩ := hsets set hset
    exact ⟨parent, ⟨hreach.registered hregistered, hpossible⟩,
      hreach.valid (Scope.valid_of_depth_eq_ok hwalk)⟩
  have hnarrows : scope.Narrows object.name (scope.system.Admits object) :=
    fun _ _ hget happlies => TypeSystem.admits_of_applies hfound hget happlies
  obtain ⟨groups, hcollect, hfields⟩ := Scope.exists_collect_eq_ok hnarrows hvalid
  refine ⟨groups, hcollect, fun budget hbudget => ?_, fun group hgroup field hfield => ?_⟩
  · rw [← hcollect]
    refine Scope.collectWithin_eq_collect (fun set hset selection hmem => ?_) hbudget
    obtain ⟨parent, -, hall⟩ := hvalid set hset
    exact ⟨parent, depth, hall selection hmem⟩
  · obtain ⟨parent, hadmits, hselection⟩ := hfields group hgroup field hfield
    obtain ⟨node, selections⟩ := field
    cases hselection with
    | typename _ hname => exact .inl hname
    | leaf _ _ hdeclared | composite _ _ hdeclared =>
      obtain ⟨own, hown⟩ := hadmits.has_field hwell hfound hdeclared
      exact .inr (Option.isSome_iff_exists.2 ⟨own, hown⟩)

def pageObject : ObjectType :=
  ⟨"Page", [⟨"id", .named "ID" false, []⟩, ⟨"next", .named "Node" true, []⟩], ["Node"]⟩

/-- What the operation selects on a node, and what its fragment selects on the next one, can be
executed on a page. -/
theorem collects_page_fields :
    ∃ groups, (pageScope (pageField "id" [])).collect "Page" [[pageSpread], [pageField "id" []]] =
        .ok groups ∧
      (∀ budget, 1 ≤ budget → (pageScope (pageField "id" [])).collectWithin budget "Page"
        [[pageSpread], [pageField "id" []]] = .ok groups) ∧
      ∀ group ∈ groups, ∀ field ∈ group.fields,
        field.node.name = "__typename" ∨ (pageObject.field? field.node.name).isSome := by
  have hfinish : pageDraft.finish = .ok pageSchema := rfl
  have hroot : pageSchema.query? = some pageQuery := rfl
  have hobject : pageSchema.object? pageObject.name = some pageObject := rfl
  have hwalk : (pageScope (pageField "id" [])).depth (.object pageQuery)
      pageOperation.selections = .ok 3 := by decide +kernel
  refine collects_known_fields hfinish rfl hroot hwalk hobject fun set hset => ?_
  simp only [List.mem_cons, List.not_mem_nil, or_false] at hset
  have hnode : (pageScope (pageField "id" [])).Reachable (.object pageQuery)
      pageOperation.selections _ [pageSpread] := .field .operation List.mem_cons_self rfl rfl
  rcases hset with rfl | rfl
  · exact ⟨_, hnode, List.mem_cons_self⟩
  · have hpage := Scope.Reachable.spread hnode List.mem_cons_self rfl rfl
    exact ⟨_, .field hpage List.mem_cons_self rfl rfl, List.mem_cons_self⟩

end GraphQuery
