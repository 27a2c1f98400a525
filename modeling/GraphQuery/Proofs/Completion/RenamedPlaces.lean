import GraphQuery.Proofs.Completion.Nulls
import GraphQuery.Proofs.Selection.Renaming

/-!
# Places under renamed keys

What stands in the response to a request whose fields have other response keys, one for each old
one. Main statement: what a plan makes of a place, the plan with renamed keys makes of the renamed
place, but for the keys of the objects on which selections are made and of the paths of errors.
-/

namespace GraphQuery

/-- What resolvers and type resolvers answer does not depend on the place. -/
structure BoundSystem.Pure (system : BoundSystem) : Prop where
  resolvers : ∀ type field answer, system.resolvers type field = .custom answer →
    ∀ path path', answer path = answer path'
  types : ∀ type ∈ system.types, ∀ resolve, type.typeResolver? = some resolve →
    ∀ path path', resolve path = resolve path'

private theorem BoundSystem.Pure.answer_eq {system : BoundSystem} (h : system.Pure)
    (type field : String)
    (path path' : ResponsePath) :
    (system.resolvers type field).answer path = (system.resolvers type field).answer path' := by
  cases hresolver : system.resolvers type field with
  | parent => rfl
  | custom answer => exact h.resolvers type field answer hresolver path path'

namespace Plan

variable {plan : Plan}

theorem runtimeType_of_pure (hpure : plan.schema.toBoundSystem.Pure) {name : String}
    {type : TypeDefinition} (hget : plan.system.get? name = some type) (site : FieldSite)
    (value : Json) (path path' : ResponsePath) :
    plan.runtimeType site type value path = plan.runtimeType site type value path' := by
  unfold runtimeType
  cases hresolve : type.typeResolver? with
  | none => rfl
  | some resolve =>
    have hmem : type ∈ plan.schema.types := List.mem_of_find?_eq_some hget
    simp only [Option.bind_some, hpure.types type hmem resolve hresolve path path']

private theorem answer_of_pure (hpure : plan.schema.toBoundSystem.Pure) (object : ObjectType)
    (field : FieldDefinition) (parent : Json) (node : FieldNode) (path path' : ResponsePath) :
    plan.answer object field parent node path = plan.answer object field parent node path' := by
  rw [answer_of_producer, answer_of_producer, map_value_producer, map_value_producer,
    hpure.answer_eq object.name field.name path path']

end Plan

variable {r : String → String}

def PathSegment.renamed (r : String → String) : PathSegment → PathSegment
  | .field key => .field (r key)
  | .index i => .index i

def ResponsePath.renamed (r : String → String) (path : ResponsePath) : ResponsePath :=
  path.map (PathSegment.renamed r)

theorem ResponsePath.renamed_child (path : ResponsePath) (segment : PathSegment) :
    (path.child segment).renamed r = (path.renamed r).child (segment.renamed r) :=
  List.map_append

def ResponseError.renamed (r : String → String) (error : ResponseError) : ResponseError :=
  { error with path := error.path.map (ResponsePath.renamed r) }

namespace Value

mutual

/-- The value at `path` with renamed keys in the objects that stand at `levels`. Other objects stay,
with everything inside. -/
def renamed (r : String → String) (levels : ResponsePath → Bool) : Value → ResponsePath → Value
  | .list items, path => .list (renamedItems r levels items 0 path)
  | .object fields, path =>
    .object (if levels path then renamedFields r levels fields path else fields)
  | value, _ => value

def renamedItems (r : String → String) (levels : ResponsePath → Bool) :
    List Value → Nat → ResponsePath → List Value
  | [], _, _ => []
  | item :: rest, i, path =>
    renamed r levels item (path.child (.index i)) :: renamedItems r levels rest (i + 1) path

def renamedFields (r : String → String) (levels : ResponsePath → Bool) :
    List (String × Value) → ResponsePath → List (String × Value)
  | [], _ => []
  | (key, value) :: rest, path =>
    (r key, renamed r levels value (path.child (.field key))) :: renamedFields r levels rest path

end

section

variable {levels : ResponsePath → Bool} {path : ResponsePath}

private theorem renamedItems_eq_mapIdx (items : List Value) (start : Nat) :
    renamedItems r levels items start path =
      items.mapIdx fun i item => renamed r levels item (path.child (.index (start + i))) := by
  induction items generalizing start with
  | nil => rfl
  | cons item rest ih =>
    rw [renamedItems, ih, List.mapIdx_cons]
    simp only [Nat.add_assoc, Nat.add_comm 1, Nat.add_zero]

private theorem renamedFields_eq_map (fields : List (String × Value)) :
    renamedFields r levels fields path = fields.map fun field =>
      (r field.1, renamed r levels field.2 (path.child (.field field.1))) := by
  induction fields with
  | nil => rfl
  | cons field rest ih => rw [renamedFields, ih, List.map_cons]

private theorem renamed_list (items : List Value) :
    renamed r levels (.list items) path =
      .list (items.mapIdx fun i item => renamed r levels item (path.child (.index i))) := by
  rw [renamed, renamedItems_eq_mapIdx]
  simp only [Nat.zero_add]

private theorem renamed_object (fields : List (String × Value)) (h : levels path = true) :
    renamed r levels (.object fields) path = .object (fields.map fun field =>
      (r field.1, renamed r levels field.2 (path.child (.field field.1)))) := by
  rw [renamed, if_pos h, renamedFields_eq_map]

mutual

private theorem renamed_of_leaf : ∀ (value : Value) (path : ResponsePath),
    (∀ rest, levels (path ++ rest) = false) → renamed r levels value path = value
  | .list items, path, h => by rw [renamed, renamedItems_of_leaf items 0 path h]
  | .object fields, path, h => by
    have hpath : levels path = false := List.append_nil path ▸ h []
    rw [renamed, hpath]
    rfl
  | .null, _, _ | .number _, _, _ | .string _, _, _ | .boolean _, _, _ | .binary _, _, _
  | .enum _, _, _ => by simp only [renamed]

private theorem renamedItems_of_leaf : ∀ (items : List Value) (start : Nat) (path : ResponsePath),
    (∀ rest, levels (path ++ rest) = false) → renamedItems r levels items start path = items
  | [], _, _, _ => by rw [renamedItems]
  | item :: rest, start, path, h => by
    have hitem (more : ResponsePath) : levels (path.child (.index start) ++ more) = false := by
      rw [ResponsePath.child, List.append_assoc]
      exact h _
    rw [renamedItems, renamed_of_leaf item _ hitem, renamedItems_of_leaf rest (start + 1) path h]

end

end

end Value

namespace Completion

/-- The completion of what stands at `path`, with renamed keys. -/
def renamed (r : String → String) (levels : ResponsePath → Bool) (completion : Completion)
    (path : ResponsePath) : Completion :=
  { outcome := (Value.renamed r levels · path) <$> completion.outcome
    errors := completion.errors.map (ResponseError.renamed r) }

section

variable {levels : ResponsePath → Bool} {path : ResponsePath}

private theorem renamed_absorb (completion : Completion) (nullable : Bool) :
    (completion.absorb nullable).renamed r levels path =
      (completion.renamed r levels path).absorb nullable := by
  obtain ⟨outcome, errors⟩ := completion
  cases nullable <;> rcases outcome with (_ | _) | _ <;>
    simp [absorb, renamed, Functor.map, Except.map, Value.renamed]

private theorem outcomes_renamed {paths : List ResponsePath} {completions : List Completion}
    (hlength : completions.length = paths.length) :
    outcomes (List.zipWith (fun completion path => completion.renamed r levels path) completions
        paths) =
      (List.zipWith (fun value path => value.renamed r levels path) · paths) <$>
        outcomes completions := by
  induction completions generalizing paths with
  | nil => rfl
  | cons completion rest ih =>
    obtain ⟨path, paths, rfl⟩ := List.exists_cons_of_length_eq_add_one hlength.symm
    have hrest := ih (Nat.succ.inj hlength)
    obtain ⟨outcome, errors⟩ := completion
    rw [List.zipWith_cons_cons, outcomes, outcomes, hrest]
    rcases outcome with (_ | fault) | value
    · rcases outcomes rest with (_ | _) | _ <;> rfl
    · rfl
    · cases outcomes rest <;> rfl

private theorem errors_zipWith_renamed {paths : List ResponsePath} {completions : List Completion}
    (hlength : completions.length = paths.length) :
    (List.zipWith (fun completion path => completion.renamed r levels path) completions
        paths).flatMap errors =
      (completions.flatMap errors).map (ResponseError.renamed r) := by
  induction completions generalizing paths with
  | nil => rfl
  | cons completion rest ih =>
    obtain ⟨path, paths, rfl⟩ := List.exists_cons_of_length_eq_add_one hlength.symm
    rw [List.zipWith_cons_cons, List.flatMap_cons, List.flatMap_cons, List.map_append,
      ih (Nat.succ.inj hlength)]
    rfl

end

end Completion

def FieldSite.renamed (r : String → String) (site : FieldSite) : FieldSite :=
  { site with selections := site.selections.map (Selection.renamedAll r) }

def Place.renamed (r : String → String) : Place → Place
  | .level object selections held =>
    .level object (selections.map (Selection.renamedAll r)) held
  | .typename object position produced => .typename object position produced
  | .undefined object node => .undefined object (node.renamed r)
  | .value site type produced => .value (site.renamed r) type produced

def View.renamed (r : String → String) : View → View
  | .items children => .items (children.map (Place.renamed r))
  | .fields object groups held => .fields object (groups.map (FieldGroup.renamed r)) held
  | view => view

@[simp] theorem Place.nullable_renamed (place : Place) :
    (place.renamed r).nullable = place.nullable := by
  cases place <;> rfl

@[simp] theorem View.isInner_renamed (view : View) : (view.renamed r).isInner = view.isInner := by
  cases view <;> rfl

private theorem View.renamed_ofFault (fault : ExecutionFault) (position : Position) :
    (View.ofFault fault position).renamed r = .ofFault fault position := by
  unfold ofFault
  split <;> rfl

namespace Plan

/-- The plan of a document whose fields have renamed keys. -/
def renamed (r : String → String) (plan : Plan) : Plan :=
  { plan with
    toScope := plan.toScope.renamed r
    operation := plan.operation.renamed r }

/-- Whether selections are made on what stands at the path. -/
def isLevel (plan : Plan) (path : ResponsePath) : Bool :=
  match (plan.place? path).map (plan.view · path) with
  | some (.fields ..) => true
  | _ => false

section

variable {plan : Plan}

private theorem levelView_renamed (plan : Plan) (hr : r.Injective) (object : ObjectType)
    (selections : List (List Selection)) (value : Json) :
    (plan.renamed r).levelView object (selections.map (Selection.renamedAll r)) value =
      (plan.levelView object selections value).renamed r := by
  have hcollect : (plan.renamed r).collect object.name _ = _ :=
    Scope.collect_renamed hr object.name selections
  unfold levelView
  rw [hcollect]
  cases plan.collect object.name selections <;> rfl

private theorem namedView_renamed (hr : r.Injective) (hpure : plan.schema.toBoundSystem.Pure)
    (site : FieldSite) (name : String) (value : Json) (path path' : ResponsePath) :
    (plan.renamed r).namedView (site.renamed r) name value path' =
      (plan.namedView site name value path).renamed r := by
  have hsystem : (plan.renamed r).system = plan.system := rfl
  have hlevel (object : ObjectType) := plan.levelView_renamed hr object site.selections value
  have hruntime (type : TypeDefinition) (hget : plan.system.get? name = some type) :
      (plan.renamed r).runtimeType (site.renamed r) type value path' =
        plan.runtimeType site type value path :=
          runtimeType_of_pure hpure hget site value path' path
  unfold namedView
  rw [hsystem]
  cases hget : plan.system.get? name with
  | none => rfl
  | some type =>
    cases type with
    | object object => exact hlevel object
    | interface type | union type =>
      simp only [TypeDefinition.isAbstract, if_true, hruntime _ hget]
      cases plan.runtimeType site _ value path with
      | ok object => exact hlevel object
      | error message => rfl
    | enum type | scalar type =>
      simp only [TypeDefinition.isAbstract, Bool.false_eq_true, if_false]
      have hleaf : (plan.renamed r).schema = plan.schema := rfl
      rw [hleaf]
      cases plan.schema.leaf _ value <;> rfl

private theorem valueView_renamed (hr : r.Injective) (hpure : plan.schema.toBoundSystem.Pure)
    (site : FieldSite) (type : TypeExpr) (value : Json) (path path' : ResponsePath) :
    (plan.renamed r).valueView (site.renamed r) type value path' =
      (plan.valueView site type value path).renamed r := by
  unfold valueView
  cases value.isNull with
  | true => cases type.nullable <;> rfl
  | false =>
    cases type with
    | named name nullable => exact namedView_renamed hr hpure site name value path path'
    | list item nullable =>
      simp only [Bool.false_eq_true, if_false]
      cases value.items? with
      | none => rfl
      | some items =>
        simp only [View.renamed, List.map_map]
        rfl

private theorem view_renamed (hr : r.Injective) (hpure : plan.schema.toBoundSystem.Pure)
    (place : Place)
    (path path' : ResponsePath) :
    (plan.renamed r).view (place.renamed r) path' = (plan.view place path).renamed r := by
  cases place with
  | level object selections value => exact plan.levelView_renamed hr object selections value
  | undefined object node => rfl
  | typename object position produced =>
    cases produced with
    | error fault => exact (View.renamed_ofFault fault position).symm
    | ok value =>
      rw [Place.renamed, view, view]
      unfold typenameView
      split <;> rfl
  | value site type produced =>
    cases produced with
    | error fault => exact (View.renamed_ofFault fault site.position).symm
    | ok value => exact valueView_renamed hr hpure site type value path path'

private theorem placeOf_renamed (hpure : plan.schema.toBoundSystem.Pure) (object : ObjectType)
    (parent : Json) (path path' : ResponsePath) (group : FieldGroup) :
    (plan.renamed r).placeOf object parent path' (group.renamed r) =
      (plan.placeOf object parent path group).renamed r := by
  have hname : (group.renamed r).first.node.name = group.first.node.name := rfl
  have hanswer (field : FieldDefinition) :
      (plan.renamed r).answer object field parent (group.renamed r).first.node
          (path'.child (.field (group.renamed r).key)) =
        plan.answer object field parent group.first.node (path.child (.field group.key)) :=
    answer_of_pure hpure object field parent group.first.node _ _
  unfold placeOf
  simp only [hname, hanswer]
  split
  · rfl
  · split
    · rfl
    · rw [Place.renamed, FieldSite.renamed, FieldGroup.selections_renamed]
      rfl

private theorem inside_renamed (hr : r.Injective) (hpure : plan.schema.toBoundSystem.Pure)
    (place : Place)
    (path path' : ResponsePath) :
    (plan.renamed r).inside (place.renamed r) path' =
      (plan.inside place path).map fun entry => (entry.1.renamed r, entry.2.renamed r) := by
  rw [inside, inside, view_renamed hr hpure place path path']
  cases plan.view place path with
  | value | failed | fatal => rfl
  | items children =>
    simp only [View.renamed, Plan.children]
    refine List.ext_getElem (by simp) fun i hi hi' => ?_
    simp [PathSegment.renamed]
  | fields object groups value =>
    simp only [View.renamed, children, List.map_map]
    refine List.map_congr_left fun group _ => ?_
    exact congrArg (Prod.mk _) (placeOf_renamed hpure object value path path' group)

/-- The paths of the places inside the place at `path`. -/
def paths (plan : Plan) (place : Place) (path : ResponsePath) : List ResponsePath :=
  (plan.inside place path).map fun entry => path.child entry.1

theorem isLevel_of_view {path : ResponsePath} {place : Place}
    (hplace : plan.place? path = some place) {object : ObjectType} {groups : List FieldGroup}
    {value : Json} (hview : plan.view place path = .fields object groups value) :
    plan.isLevel path = true := by
  rw [isLevel, hplace, Option.map_some, hview]

private theorem isLevel_of_leaf {path : ResponsePath} {place : Place}
    (hplace : plan.place? path = some place) {leaf : Value}
    (hview : plan.view place path = .value leaf) (rest : ResponsePath) :
    plan.isLevel (path ++ rest) = false := by
  cases rest with
  | nil => rw [isLevel, List.append_nil, hplace, Option.map_some, hview]
  | cons segment rest =>
    have hinside : plan.inside place path = [] := by
      rw [inside, hview]
      rfl
    rw [isLevel, place?_append, hplace, Option.bind_some, follow_cons, hinside]
    rfl

private theorem build_renamed {path : ResponsePath} {place : Place}
    (hplace : plan.place? path = some place) (hinner : (plan.view place path).isInner = true)
    {values : List Value} (hlength : values.length = (plan.inside place path).length) :
    ((plan.view place path).renamed r).build (List.zipWith
        (fun value path => value.renamed r plan.isLevel path) values (plan.paths place path)) =
      ((plan.view place path).build values).renamed r plan.isLevel path := by
  rw [paths]
  cases hview : plan.view place path with
  | value | failed | fatal =>
    rw [hview] at hinner
    cases hinner
  | items children =>
    have hinside : plan.inside place path =
        children.mapIdx fun index place => (.index index, place) := by
      rw [inside, hview]
      rfl
    rw [hinside] at hlength ⊢
    rw [List.length_mapIdx] at hlength
    simp only [View.renamed, View.build]
    rw [Value.renamed_list]
    refine congrArg Value.list (List.ext_getElem (by simp [hlength]) fun i hi hi' => ?_)
    simp only [List.getElem_zipWith, List.getElem_map, List.getElem_mapIdx]
  | fields object groups value =>
    have hinside : plan.inside place path =
        groups.map fun group => (.field group.key, plan.placeOf object value path group) := by
      rw [inside, hview]
      rfl
    rw [hinside] at hlength ⊢
    rw [List.length_map] at hlength
    simp only [View.renamed, View.build]
    rw [Value.renamed_object _ (isLevel_of_view hplace hview)]
    refine congrArg Value.object (List.ext_getElem (by simp [hlength]) fun i hi hi' => ?_)
    simp only [List.getElem_zip, List.getElem_zipWith, List.getElem_map]
    rfl

/-- The completions of the places inside a place, each under renamed keys. -/
def renamedInside (r : String → String) (plan : Plan) (place : Place) (path : ResponsePath)
    (completions : List Completion) : List Completion :=
  List.zipWith (fun completion path => completion.renamed r plan.isLevel path) completions
    (plan.paths place path)

private theorem renamed_join {path : ResponsePath} {place : Place}
    (hplace : plan.place? path = some place) (hinner : (plan.view place path).isInner = true)
    {completions : List Completion}
    (hlength : completions.length = (plan.inside place path).length) :
    (Completion.join (plan.view place path).build completions).renamed r plan.isLevel path =
      Completion.join ((plan.view place path).renamed r).build
        (renamedInside r plan place path completions) := by
  have hpaths : completions.length = (plan.paths place path).length := by
    rw [hlength, paths, List.length_map]
  unfold renamedInside
  rw [Completion.join, Completion.join, Completion.outcomes_renamed hpaths,
    Completion.errors_zipWith_renamed hpaths]
  cases houtcomes : Completion.outcomes completions with
  | error abort => rfl
  | ok values =>
    have hvalues : values.length = (plan.inside place path).length := by
      rw [← hlength]
      exact Completion.length_of_map_eq (Completion.outcomes_eq_ok_iff.1 houtcomes)
    have hbuild := build_renamed (r := r) hplace hinner hvalues
    exact congrArg (fun value => Completion.mk (.ok value) _) hbuild.symm

/-- What a plan makes of a place, the plan with renamed keys makes of the renamed place, under
renamed keys. -/
theorem Completes.renamed (hr : r.Injective) (hpure : plan.schema.toBoundSystem.Pure)
    {place : Place} {path : ResponsePath}
    {completion : Completion} (h : plan.Completes place path completion)
    (hplace : plan.place? path = some place) :
    (plan.renamed r).Completes (place.renamed r) (path.renamed r)
      (completion.renamed r plan.isLevel path) := by
  induction h with
  | @value place path leaf hview =>
    have hshown : (plan.renamed r).view (place.renamed r) (path.renamed r) = .value leaf := by
      rw [view_renamed hr hpure place path, hview]
      rfl
    have hleaf := Value.renamed_of_leaf (r := r) leaf path (isLevel_of_leaf hplace hview)
    have hsame : (Completion.ok leaf).renamed r plan.isLevel path = .ok leaf :=
      congrArg (fun value => Completion.ok value) hleaf
    rw [hsame]
    exact .value hshown
  | @failed place path failure hview =>
    have hshown : (plan.renamed r).view (place.renamed r) (path.renamed r) = .failed failure := by
      rw [view_renamed hr hpure place path, hview]
      rfl
    rw [Completion.renamed_absorb, ← Place.nullable_renamed (r := r)]
    exact .failed hshown
  | @fatal place path fault hview =>
    have hshown : (plan.renamed r).view (place.renamed r) (path.renamed r) = .fatal fault := by
      rw [view_renamed hr hpure place path, hview]
      rfl
    exact .fatal hshown
  | @inner place path completions hinner hlength hinside ih =>
    have hview := view_renamed hr hpure place path (path.renamed r)
    rw [Completion.renamed_absorb, renamed_join hplace hinner hlength, ← hview,
      ← Place.nullable_renamed (r := r)]
    refine .inner ?_ ?_ fun i segment child completion hchild hi => ?_
    · rw [hview, View.isInner_renamed, hinner]
    · simp [inside_renamed hr hpure place path, hlength, renamedInside, paths]
    · rw [inside_renamed hr hpure place path, List.getElem?_map, Option.map_eq_some_iff] at hchild
      obtain ⟨⟨segment, child⟩, hchild, heq⟩ := hchild
      obtain ⟨rfl, rfl⟩ := Prod.mk.inj heq
      rw [renamedInside, List.getElem?_zipWith_eq_some] at hi
      obtain ⟨completion, way, hcompletion, hway, rfl⟩ := hi
      rw [paths, List.getElem?_map, hchild] at hway
      obtain rfl := Option.some.inj hway
      rw [← ResponsePath.renamed_child]
      exact ih i segment child completion hchild hcompletion
        (place?_child hplace (lookup_inside hchild))

end

end Plan

end GraphQuery
