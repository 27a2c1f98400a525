import GraphQuery.Completion.Run
import GraphQuery.Proofs.Selection.Collection
import Mathlib.Data.List.Induction
import Mathlib.Data.List.Nodup

/-!
# Places of a response

The positions of a response as a plan alone determines them: what stands at a place, which places
are inside it and which of them may be null. Nothing here runs; a place knows the value that its
field produces, and where it stands decides what the resolvers inside it answer.
-/

namespace GraphQuery

/-- An error that is not yet at a path. -/
structure Failure where
  message : String
  code : ErrorCode
  position : Position

namespace Failure

/-- The error in a response. -/
def error (failure : Failure) (path : ResponsePath) : ResponseError :=
  { message := failure.message
    code := failure.code
    locations := [failure.position]
    path := some path }

/-- The failure of the field at `position` for a fault that is caught there. -/
def ofFault (fault : ExecutionFault) (position : Position) : Failure :=
  { message := fault.message
    code := fault.code
    position := fault.position?.getD position }

end Failure

/-- A produced value that does not fit its field. -/
def FieldSite.failure (site : FieldSite) (message : String) : Failure :=
  { message, code := .resolverError, position := site.position }

/-- A position of a response and what is produced there. -/
inductive Place where
  /-- An object that selections are made on. -/
  | level (object : ObjectType) (selections : List (List Selection)) (value : Json)
  /-- The type name of an object. -/
  | typename (object : String) (position : Position) (produced : Except ExecutionFault Json)
  /-- A field that its object does not have. -/
  | undefined (object : String) (node : FieldNode)
  /-- The value of a field or of an item in it. -/
  | value (site : FieldSite) (type : TypeExpr) (produced : Except ExecutionFault Json)

/-- Whether null may stand at the place. -/
def Place.nullable : Place → Bool
  | .level .. => true
  | .typename .. => false
  | .undefined .. => false
  | .value _ type _ => type.nullable

/-- What stands at a place. -/
inductive View where
  | value (value : Value)
  | failed (failure : Failure)
  | fatal (fault : ExecutionFault)
  | items (children : List Place)
  | fields (object : ObjectType) (groups : List FieldGroup) (value : Json)

namespace View

def ofFault (fault : ExecutionFault) (position : Position) : View :=
  if fault.isFatal then .fatal fault else .failed (.ofFault fault position)

/-- Whether the view consists of places inside. -/
def isInner : View → Bool
  | .items _ => true
  | .fields .. => true
  | _ => false

/-- The value that the values inside make up. -/
def build : View → List Value → Value
  | .fields _ groups _, values => .object ((groups.map FieldGroup.key).zip values)
  | _, values => .list values

end View

namespace Plan

/-- The value that a field produces. -/
def answer (plan : Plan) (object : ObjectType) (field : FieldDefinition) (parent : Json)
    (node : FieldNode) (path : ResponsePath) : Except ExecutionFault Json := do
  (← plan.producer object field parent node path).value.mapError .resolver

/-- The value that stands for the type name of an object. -/
def typenameAnswer (plan : Plan) (object : ObjectType) (parent : Json) (node : FieldNode) :
    Except ExecutionFault Json := do
  let producer ← plan.wrapProducer (.done (.ok (.string object.name))) parent node.directives
  producer.value.mapError .resolver

/-- The place of the fields of a group, of an object at the path. -/
def placeOf (plan : Plan) (object : ObjectType) (parent : Json) (path : ResponsePath)
    (group : FieldGroup) : Place :=
  let node := group.first.node
  if node.name == "__typename" then
    .typename object.name node.position (plan.typenameAnswer object parent node)
  else
    match object.field? node.name with
    | none => .undefined object.name node
    | some field =>
      .value
        { object := object.name
          field := field.name
          position := node.position
          selections := group.selections }
        field.type (plan.answer object field parent node (path.child (.field group.key)))

def levelView (plan : Plan) (object : ObjectType) (selections : List (List Selection))
    (value : Json) : View :=
  match plan.collect object.name selections with
  | .error fault => .fatal fault
  | .ok groups => .fields object groups value

/-- The view of a value that is not null, after the type of a name. -/
def namedView (plan : Plan) (site : FieldSite) (name : String) (value : Json)
    (path : ResponsePath) : View :=
  match plan.system.get? name with
  | none => .fatal (.validation (.unknownType name site.position))
  | some (.object object) => plan.levelView object site.selections value
  | some type =>
    if type.isAbstract then
      match plan.runtimeType site type value path with
      | .ok object => plan.levelView object site.selections value
      | .error message => .failed (site.failure message)
    else
      match plan.schema.leaf type value with
      | .ok value => .value value
      | .error message => .failed (site.failure message)

def valueView (plan : Plan) (site : FieldSite) (type : TypeExpr) (value : Json)
    (path : ResponsePath) : View :=
  if value.isNull then
    if type.nullable then .value .null else .failed (site.failure site.nullMessage)
  else
    match type with
    | .named name _ => plan.namedView site name value path
    | .list item _ =>
      match value.items? with
      | none => .failed (site.failure (site.listMessage value))
      | some items => .items (items.map fun value => .value site item (.ok value))

def typenameView (object : String) (position : Position) : Json → View
  | .string name => .value (.string name)
  | value => .failed ⟨typenameMessage object value, .resolverError, position⟩

/-- What stands at a place, which lies at the path. -/
def view (plan : Plan) : Place → ResponsePath → View
  | .level object selections value, _ => plan.levelView object selections value
  | .typename _ position (.error fault), _ => .ofFault fault position
  | .typename object position (.ok value), _ => typenameView object position value
  | .undefined object node, _ =>
    .fatal (.validation (.unknownField node.name object node.position))
  | .value site _ (.error fault), _ => .ofFault fault site.position
  | .value site type (.ok value), path => plan.valueView site type value path

/-- The places inside a view at the path, each with the step that leads to it. -/
def children (plan : Plan) (path : ResponsePath) : View → List (PathSegment × Place)
  | .items children => children.mapIdx fun index place => (.index index, place)
  | .fields object groups value =>
    groups.map fun group => (.field group.key, plan.placeOf object value path group)
  | _ => []

/-- The places directly inside a place, which lies at the path. -/
def inside (plan : Plan) (place : Place) (path : ResponsePath) : List (PathSegment × Place) :=
  plan.children path (plan.view place path)

/-- The place to which steps lead from a place at the path. -/
def follow (plan : Plan) (place : Place) (path : ResponsePath) : ResponsePath → Option Place
  | [] => some place
  | segment :: rest =>
    match (plan.inside place path).lookup segment with
    | none => none
    | some child => plan.follow child (path.child segment) rest

/-- The place of the data. -/
def rootPlace (plan : Plan) : Place :=
  .level plan.rootType [plan.operation.selections] plan.root

/-- The place at a path of the response. -/
def place? (plan : Plan) (path : ResponsePath) : Option Place := plan.follow plan.rootPlace [] path

section

variable {plan : Plan}

theorem follow_cons (place : Place) (path : ResponsePath) (segment : PathSegment)
    (rest : ResponsePath) :
    plan.follow place path (segment :: rest) =
      ((plan.inside place path).lookup segment).bind
        (plan.follow · (path.child segment) rest) := by
  rw [follow]
  cases (plan.inside place path).lookup segment <;> rfl

private theorem follow_append (place : Place) (path way more : ResponsePath) :
    plan.follow place path (way ++ more) =
      (plan.follow place path way).bind (plan.follow · (path ++ way) more) := by
  induction way generalizing place path with
  | nil => rw [List.append_nil]; rfl
  | cons segment way ih =>
    rw [List.cons_append, follow_cons, follow_cons, Option.bind_assoc, List.append_cons]
    exact Option.bind_congr fun child _ => ih child (path.child segment)

theorem place?_append (path more : ResponsePath) :
    plan.place? (path ++ more) = (plan.place? path).bind (plan.follow · path more) :=
  follow_append plan.rootPlace [] path more

theorem place?_child {path : ResponsePath} {place child : Place} {segment : PathSegment}
    (hplace : plan.place? path = some place)
    (hchild : (plan.inside place path).lookup segment = some child) :
    plan.place? (path.child segment) = some child := by
  rw [ResponsePath.child, place?_append, hplace, Option.bind_some, follow_cons, hchild]
  rfl

end

/-- The object that stands at a place, with what is selected on it. -/
inductive ObjectAt (plan : Plan) :
    Place → ResponsePath → ObjectType → List (List Selection) → Json → Prop
  | level {object selections value path} :
      ObjectAt plan (.level object selections value) path object selections value
  | object {site name nullable object value path}
      (hnull : value.isNull = false)
      (hget : plan.system.get? name = some (.object object)) :
      ObjectAt plan (.value site (.named name nullable) (.ok value)) path object
        site.selections value
  | abstract {site name nullable type object value path}
      (hnull : value.isNull = false)
      (hget : plan.system.get? name = some type)
      (habstract : type.isAbstract = true)
      (hruntime : plan.runtimeType site type value path = .ok object) :
      ObjectAt plan (.value site (.named name nullable) (.ok value)) path object
        site.selections value

/-- The view as a relation, one rule for each way in which a value is completed. -/
inductive Shows (plan : Plan) : Place → ResponsePath → View → Prop
  | fields {place object selections value groups path}
      (hat : plan.ObjectAt place path object selections value)
      (hcollect : plan.collect object.name selections = .ok groups) :
      Shows plan place path (.fields object groups value)
  | uncollected {place object selections value fault path}
      (hat : plan.ObjectAt place path object selections value)
      (hcollect : plan.collect object.name selections = .error fault) :
      Shows plan place path (.fatal fault)
  | typename {object position name path} :
      Shows plan (.typename object position (.ok (.string name))) path (.value (.string name))
  | noTypename {object position value path} (hstring : ∀ name, value ≠ .string name) :
      Shows plan (.typename object position (.ok value)) path
        (.failed ⟨typenameMessage object value, .resolverError, position⟩)
  | typenameFault {object position fault path} (hfatal : fault.isFatal = false) :
      Shows plan (.typename object position (.error fault)) path (.failed (.ofFault fault position))
  | typenameFatal {object position fault path} (hfatal : fault.isFatal = true) :
      Shows plan (.typename object position (.error fault)) path (.fatal fault)
  | undefined {object node path} :
      Shows plan (.undefined object node) path
        (.fatal (.validation (.unknownField node.name object node.position)))
  | fault {site type fault path} (hfatal : fault.isFatal = false) :
      Shows plan (.value site type (.error fault)) path (.failed (.ofFault fault site.position))
  | fatal {site type fault path} (hfatal : fault.isFatal = true) :
      Shows plan (.value site type (.error fault)) path (.fatal fault)
  | null {site type value path} (hnull : value.isNull = true) (hnullable : type.nullable = true) :
      Shows plan (.value site type (.ok value)) path (.value .null)
  | nonNull {site type value path} (hnull : value.isNull = true)
    (hnullable : type.nullable = false) :
      Shows plan (.value site type (.ok value)) path (.failed (site.failure site.nullMessage))
  | unknown {site name nullable value path} (hnull : value.isNull = false)
      (hget : plan.system.get? name = none) :
      Shows plan (.value site (.named name nullable) (.ok value)) path
        (.fatal (.validation (.unknownType name site.position)))
  | impossible {site name nullable type message value path} (hnull : value.isNull = false)
      (hget : plan.system.get? name = some type) (habstract : type.isAbstract = true)
      (hruntime : plan.runtimeType site type value path = .error message) :
      Shows plan (.value site (.named name nullable) (.ok value)) path
        (.failed (site.failure message))
  | leaf {site name nullable type value result path} (hnull : value.isNull = false)
      (hget : plan.system.get? name = some type) (hleaf : type.isLeaf = true)
      (hvalue : plan.schema.leaf type value = .ok result) :
      Shows plan (.value site (.named name nullable) (.ok value)) path (.value result)
  | refused {site name nullable type message value path} (hnull : value.isNull = false)
      (hget : plan.system.get? name = some type) (hleaf : type.isLeaf = true)
      (hvalue : plan.schema.leaf type value = .error message) :
      Shows plan (.value site (.named name nullable) (.ok value)) path
        (.failed (site.failure message))
  | items {site item nullable value items path} (hnull : value.isNull = false)
      (hitems : value.items? = some items) :
      Shows plan (.value site (.list item nullable) (.ok value)) path
        (.items (items.map fun value => .value site item (.ok value)))
  | noItems {site item nullable value path} (hnull : value.isNull = false)
      (hitems : value.items? = none) :
      Shows plan (.value site (.list item nullable) (.ok value)) path
        (.failed (site.failure (site.listMessage value)))

section

variable {plan : Plan} {path : ResponsePath}

theorem possible_of_runtimeType {site : FieldSite} {type : TypeDefinition} {value : Json}
    {object : ObjectType} (h : plan.runtimeType site type value path = .ok object) :
    (∃ name, plan.system.object? name = some object) ∧
      plan.system.isPossible type.name object.name = true := by
  unfold runtimeType at h
  split at h
  · cases h
  · next name _ =>
    split at h
    · cases h
    · next found hobject =>
      split at h
      · next hpossible =>
        obtain rfl : found = object := Except.ok.inj h
        exact ⟨⟨name, hobject⟩, hpossible⟩
      · cases h

private theorem view_of_objectAt {place : Place} {object : ObjectType}
    {selections : List (List Selection)} {value : Json}
    (hat : plan.ObjectAt place path object selections value) :
    plan.view place path = plan.levelView object selections value := by
  cases hat with
  | level => rfl
  | object hnull hget => simp [view, valueView, namedView, hnull, hget]
  | @abstract _ _ _ type _ _ _ hnull hget habstract hruntime =>
    cases type with
    | object => cases habstract
    | interface | union | enum | scalar =>
      simp [view, valueView, namedView, hnull, hget, habstract, hruntime]

private theorem shows_levelView {place : Place} {object : ObjectType}
    {selections : List (List Selection)} {value : Json}
    (hat : plan.ObjectAt place path object selections value) :
    plan.Shows place path (plan.levelView object selections value) := by
  unfold levelView
  cases hcollect : plan.collect object.name selections with
  | error fault => exact .uncollected hat hcollect
  | ok groups => exact .fields hat hcollect

theorem shows_namedView (site : FieldSite) (name : String) (nullable : Bool) {value : Json}
    (hnull : value.isNull = false) (path : ResponsePath) :
    plan.Shows (.value site (.named name nullable) (.ok value)) path
      (plan.namedView site name value path) := by
  unfold namedView
  split
  · next hget => exact .unknown hnull hget
  · next hget => exact shows_levelView (.object hnull hget)
  · next type hobject hget =>
    split
    · next habstract =>
      split
      · next hruntime => exact shows_levelView (.abstract hnull hget habstract hruntime)
      · next hruntime => exact .impossible hnull hget habstract hruntime
    · next habstract =>
      have hleaf : type.isLeaf = true := by
        cases type with
        | object object => exact absurd rfl (hobject object)
        | interface | union => exact absurd rfl habstract
        | enum | scalar => rfl
      split
      · next hvalue => exact .leaf hnull hget hleaf hvalue
      · next hvalue => exact .refused hnull hget hleaf hvalue

private theorem shows_valueView {site : FieldSite} {type : TypeExpr} {value : Json} :
    plan.Shows (.value site type (.ok value)) path (plan.valueView site type value path) := by
  unfold valueView
  cases hnull : value.isNull with
  | true =>
    cases hnullable : type.nullable with
    | true => exact .null hnull hnullable
    | false => exact .nonNull hnull hnullable
  | false =>
    cases type with
    | named name nullable => exact shows_namedView site name nullable hnull path
    | list item nullable =>
      cases hitems : value.items? with
      | none => exact .noItems hnull hitems
      | some items => exact .items hnull hitems

theorem shows_view (place : Place) (path : ResponsePath) :
    plan.Shows place path (plan.view place path) := by
  cases place with
  | level object selections value => exact shows_levelView .level
  | undefined object node => exact .undefined
  | typename object position produced =>
    cases produced with
    | error fault =>
      rw [view, View.ofFault]
      split
      · next hfatal => exact .typenameFatal hfatal
      · next hfatal => exact .typenameFault (Bool.not_eq_true _ ▸ hfatal)
    | ok value =>
      rw [view]
      unfold typenameView
      split
      · exact .typename
      · next hstring => exact .noTypename hstring
  | value site type produced =>
    cases produced with
    | error fault =>
      rw [view, View.ofFault]
      split
      · next hfatal => exact .fatal hfatal
      · next hfatal => exact .fault (Bool.not_eq_true _ ▸ hfatal)
    | ok value => exact shows_valueView

theorem view_of_shows {place : Place} {view : View} (h : plan.Shows place path view) :
    plan.view place path = view := by
  cases h with
  | fields hat hcollect => rw [view_of_objectAt hat, levelView, hcollect]
  | uncollected hat hcollect => rw [view_of_objectAt hat, levelView, hcollect]
  | typename | undefined => rfl
  | noTypename hstring =>
    rw [Plan.view]
    unfold typenameView
    split
    · exact absurd rfl (hstring _)
    · rfl
  | typenameFault hfatal | typenameFatal hfatal | fault hfatal | fatal hfatal =>
    simp [Plan.view, View.ofFault, hfatal]
  | null hnull hnullable | nonNull hnull hnullable =>
    simp [Plan.view, valueView, hnull, hnullable]
  | unknown hnull hget => simp [Plan.view, valueView, namedView, hnull, hget]
  | items hnull hitems | noItems hnull hitems => simp [Plan.view, valueView, hnull, hitems]
  | @impossible _ _ _ type _ _ _ hnull hget habstract hruntime =>
    cases type with
    | object | enum | scalar => cases habstract
    | interface | union =>
      simp [Plan.view, valueView, namedView, hnull, hget, habstract, hruntime]
  | @leaf _ _ _ type _ _ _ hnull hget hleaf hvalue
  | @refused _ _ _ type _ _ _ hnull hget hleaf hvalue =>
    cases type with
    | object | interface | union => cases hleaf
    | enum | scalar =>
      simp [Plan.view, valueView, namedView, hnull, hget, TypeDefinition.isAbstract, hvalue]

section

variable {object : ObjectType} {parent : Json} {group : FieldGroup}

theorem placeOf_typename (hname : group.first.node.name = "__typename") :
    plan.placeOf object parent path group =
      .typename object.name group.first.node.position
        (plan.typenameAnswer object parent group.first.node) := by
  simp only [placeOf, hname, beq_self_eq_true, if_true]

theorem placeOf_undefined (hname : group.first.node.name ≠ "__typename")
    (hfield : object.field? group.first.node.name = none) :
    plan.placeOf object parent path group = .undefined object.name group.first.node := by
  simp only [placeOf, beq_iff_eq, hname, if_false, hfield]

theorem placeOf_field {field : FieldDefinition} (hname : group.first.node.name ≠ "__typename")
    (hfield : object.field? group.first.node.name = some field) :
    plan.placeOf object parent path group =
      .value
        { object := object.name
          field := field.name
          position := group.first.node.position
          selections := group.selections }
        field.type (plan.answer object field parent group.first.node
          (path.child (.field group.key))) := by
  simp only [placeOf, beq_iff_eq, hname, if_false, hfield]

end

theorem getElem?_inside_items {place child : Place} {children : List Place} {i : Nat}
    {segment : PathSegment} (hview : plan.view place path = .items children) :
    (plan.inside place path)[i]? = some (segment, child) ↔
      segment = .index i ∧ children[i]? = some child := by
  rw [inside, hview, Plan.children, List.getElem?_mapIdx, Option.map_eq_some_iff]
  simp only [Prod.mk.injEq]
  constructor
  · rintro ⟨_, hchild, rfl, rfl⟩
    exact ⟨rfl, hchild⟩
  · rintro ⟨rfl, hchild⟩
    exact ⟨_, hchild, rfl, rfl⟩

theorem getElem?_inside_fields {place child : Place} {object : ObjectType}
    {groups : List FieldGroup} {value : Json} {i : Nat} {segment : PathSegment}
    (hview : plan.view place path = .fields object groups value) :
    (plan.inside place path)[i]? = some (segment, child) ↔
      ∃ group, groups[i]? = some group ∧ segment = .field group.key ∧
        plan.placeOf object value path group = child := by
  rw [inside, hview, children, List.getElem?_map, Option.map_eq_some_iff]
  simp only [Prod.mk.injEq, eq_comm (b := segment)]

theorem nodup_keys_of_view {place : Place} {object : ObjectType} {groups : List FieldGroup}
    {value : Json} (hview : plan.view place path = .fields object groups value) :
    (groups.map FieldGroup.key).Nodup := by
  have hshows := plan.shows_view place path
  rw [hview] at hshows
  cases hshows with
  | fields _ hcollect => exact Scope.nodup_keys_of_collect hcollect

theorem nodup_segments_inside (place : Place) (path : ResponsePath) :
    ((plan.inside place path).map Prod.fst).Nodup := by
  rw [inside]
  cases hview : plan.view place path with
  | value | failed | fatal => exact List.nodup_nil
  | fields object groups value =>
    have hsegments := List.Nodup.map (f := PathSegment.field) (fun _ _ => PathSegment.field.inj)
      (nodup_keys_of_view hview)
    rw [List.map_map] at hsegments
    rw [children, List.map_map]
    exact hsegments
  | items places =>
    have hsegments : ((plan.children path (.items places)).map Prod.fst) =
        (List.range places.length).map PathSegment.index := by
      refine List.ext_getElem (by simp [children]) ?_
      simp [children]
    rw [hsegments]
    exact List.Nodup.map (fun _ _ => PathSegment.index.inj) List.nodup_range

/-- In a list with distinct keys the entry at an index is the one under its key. -/
private theorem lookup_of_getElem? {α β : Type} [BEq α] [LawfulBEq α] {entries : List (α × β)}
    (hnodup : (entries.map Prod.fst).Nodup) {i : Nat} {key : α} {value : β}
    (h : entries[i]? = some (key, value)) : entries.lookup key = some value := by
  induction entries generalizing i with
  | nil => simp at h
  | cons entry rest ih =>
    obtain ⟨other, held⟩ := entry
    rw [List.map_cons, List.nodup_cons] at hnodup
    cases i with
    | zero =>
      obtain ⟨rfl, rfl⟩ := Prod.mk.inj (Option.some.inj h)
      exact List.lookup_cons_self
    | succ i =>
      rw [List.getElem?_cons_succ] at h
      have hmem : key ∈ rest.map Prod.fst :=
        List.mem_map_of_mem (f := Prod.fst) (List.mem_of_getElem? h)
      have hne : key ≠ other := fun heq => hnodup.1 (heq ▸ hmem)
      rw [List.lookup_cons, beq_false_of_ne hne]
      exact ih hnodup.2 h

theorem lookup_inside {place child : Place} {segment : PathSegment} {i : Nat}
    (h : (plan.inside place path)[i]? = some (segment, child)) :
    (plan.inside place path).lookup segment = some child :=
  lookup_of_getElem? (plan.nodup_segments_inside place path) h

theorem follow_inside {place child : Place} {segment : PathSegment} {i : Nat}
    (hchild : (plan.inside place path)[i]? = some (segment, child)) (rest : ResponsePath) :
    plan.follow place path (segment :: rest) = plan.follow child (path.child segment) rest := by
  rw [follow_cons, lookup_inside hchild, Option.bind_some]

theorem getElem?_of_lookup_inside {place child : Place} {segment : PathSegment}
    (h : (plan.inside place path).lookup segment = some child) :
    ∃ i : Nat, (plan.inside place path)[i]? = some (segment, child) := by
  obtain ⟨before, after, heq, -⟩ := List.lookup_eq_some_iff.1 h
  exact ⟨before.length, by rw [heq, List.getElem?_append_right (Nat.le_refl _), Nat.sub_self]; rfl⟩

/-- The two steps into a place: to an item of a list, and to a field of an object. -/
inductive Leads (plan : Plan) : Place → ResponsePath → Place → Prop
  | item {site item nullable value held path} :
      Leads plan (.value site (.list item nullable) (.ok value)) path (.value site item (.ok held))
  | field {place path object selections value groups group}
      (hat : plan.ObjectAt place path object selections value)
      (hcollect : plan.collect object.name selections = .ok groups) (hgroup : group ∈ groups) :
      Leads plan place path (plan.placeOf object value path group)

theorem leads_of_inside {place child : Place} {segment : PathSegment} {i : Nat}
    (hchild : (plan.inside place path)[i]? = some (segment, child)) :
    plan.Leads place path child := by
  have hshows := plan.shows_view place path
  cases hview : plan.view place path with
  | value | failed | fatal =>
    rw [inside, hview] at hchild
    cases hchild
  | items children =>
    obtain ⟨-, hitem⟩ := (getElem?_inside_items hview).1 hchild
    rw [hview] at hshows
    cases hshows with
    | items =>
      obtain ⟨held, -, rfl⟩ := List.mem_map.1 (List.mem_of_getElem? hitem)
      exact .item
  | fields object groups value =>
    obtain ⟨group, hgroup, -, rfl⟩ := (getElem?_inside_fields hview).1 hchild
    rw [hview] at hshows
    cases hshows with
    | fields hat hcollect => exact .field hat hcollect (List.mem_of_getElem? hgroup)

/-- What holds of the root, and after every step from a place of which it holds, holds of every
place of the response. -/
theorem place_induction {motive : Place → Prop} (hroot : motive plan.rootPlace)
    (hstep : ∀ path place child, plan.place? path = some place → motive place →
      plan.Leads place path child → motive child)
    {path : ResponsePath} {place : Place} (h : plan.place? path = some place) : motive place := by
  induction path using List.reverseRecOn generalizing place with
  | nil => exact Option.some.inj h ▸ hroot
  | append_singleton path segment ih =>
    rw [place?_append, Option.bind_eq_some_iff] at h
    obtain ⟨outer, houter, hfollow⟩ := h
    rw [follow_cons, Option.bind_eq_some_iff] at hfollow
    obtain ⟨child, hchild, hend⟩ := hfollow
    obtain rfl : child = place := Option.some.inj hend
    obtain ⟨i, hi⟩ := getElem?_of_lookup_inside hchild
    exact hstep path outer child houter (ih houter) (leads_of_inside hi)

end

end Plan

end GraphQuery
