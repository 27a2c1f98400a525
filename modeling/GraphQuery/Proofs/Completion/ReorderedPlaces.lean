import GraphQuery.Proofs.Completion.Expansion
import GraphQuery.Proofs.Completion.Typed
import GraphQuery.Proofs.Selection.Reordering

/-!
# Places of reordered selections

What stands in the response to a request with its selections in another order. Main statement: where
all fields of a key are called alike, the same stands at a place as before, and what is inside
stands under the same keys, in another order.
-/

namespace GraphQuery

open List (Forall₂ Perm)

/-- The place that reordered selections make of a place. Positions in the document may differ. -/
inductive Place.Reordered : Place → Place → Prop
  | level {object selections selections' value}
      (hselections : Reorders selections.flatten selections'.flatten) :
      Reordered (.level object selections value) (.level object selections' value)
  | typename {object position position' produced produced'}
      (hproduced : SameReport Eq produced produced') :
      Reordered (.typename object position produced) (.typename object position' produced')
  | undefined {object node moved} : Reordered (.undefined object node) (.undefined object moved)
  | value {site site' : FieldSite} {type produced produced'} (hobject : site'.object = site.object)
      (hfield : site'.field = site.field)
      (hselections : Reorders site.selections.flatten site'.selections.flatten)
      (hproduced : SameReport Eq produced produced') :
      Reordered (.value site type produced) (.value site' type produced')

theorem Place.Reordered.nullable_eq {place place' : Place} (h : place.Reordered place') :
    place'.nullable = place.nullable := by
  cases h <;> rfl

/-- What reordered selections make of what stands at a place. -/
inductive View.Reordered : View → View → Prop
  | value {value} : Reordered (.value value) (.value value)
  | failed {failure failure' : Failure} (hmessage : failure'.message = failure.message)
      (hcode : failure'.code = failure.code) : Reordered (.failed failure) (.failed failure')
  | fatal {fault fault'} : Reordered (.fatal fault) (.fatal fault')
  | items {children children'} (hchildren : Forall₂ Place.Reordered children children') :
      Reordered (.items children) (.items children')
  | fields {object groups groups' value} (hgroups : GroupsReorder groups groups') :
      Reordered (.fields object groups value) (.fields object groups' value)

theorem View.Reordered.isInner_eq {view view' : View} (h : view.Reordered view') :
    view'.isInner = view.isInner := by
  cases h <;> rfl

private theorem View.reordered_failure {message message' : String} (h : message' = message)
    (site site' : FieldSite) :
    (View.failed (site.failure message)).Reordered (.failed (site'.failure message')) :=
  .failed h rfl

private theorem View.reordered_ofFault {fault fault' : ExecutionFault}
    (h : fault'.report = fault.report)
    (position position' : Position) :
    (View.ofFault fault position).Reordered (.ofFault fault' position') := by
  obtain ⟨hmessage, hcode⟩ := Prod.mk.inj h
  have hfatal : fault'.isFatal = fault.isFatal := congrArg ErrorCode.isRequestError hcode
  unfold ofFault
  rw [hfatal]
  cases fault.isFatal with
  | true => exact .fatal
  | false => exact .failed hmessage hcode

namespace Plan

section

variable {plan : Plan}

private theorem sameReport_answer {node node' : FieldNode} (h : node.SameCall node')
    (object : ObjectType)
    (field : FieldDefinition) (parent : Json) (path : ResponsePath) :
    SameReport Eq (plan.answer object field parent node path)
      (plan.answer object field parent node' path) := by
  have hproducer : SameReport Eq (plan.producer object field parent node path)
      (plan.producer object field parent node' path) := by
    refine (Bindings.sameReport_bindArguments h.arguments field.arguments).bind ?_
    intro arguments arguments' harguments
    rw [harguments]
    exact Bindings.sameReport_wrapProducer h.directives _ parent
  refine hproducer.bind fun producer producer' hsame => ?_
  rw [hsame]
  exact .refl _

private theorem sameReport_typenameAnswer {node node' : FieldNode} (h : node.SameCall node')
    (object : ObjectType) (parent : Json) :
    SameReport Eq (plan.typenameAnswer object parent node)
      (plan.typenameAnswer object parent node') := by
  refine (Bindings.sameReport_wrapProducer h.directives _ parent).bind ?_
  intro producer producer' hsame
  rw [hsame]
  exact .refl _

/-- All fields that an object level collects under one key are called like the first of them. -/
def Uniform (plan : Plan) : Prop :=
  ∀ path place object groups value, plan.place? path = some place →
    plan.view place path = .fields object groups value →
    ∀ group ∈ groups, ∀ field ∈ group.fields, group.first.node.SameCall field.node

theorem uniform_of_keys
    (hkeys : ∀ node other selections others, plan.Occurs (.field node selections) →
      plan.Occurs (.field other others) → node.responseKey = other.responseKey →
      node.SameCall other) :
    plan.Uniform := by
  intro path place object groups value hplace hview group hgroup field hfield
  have hoccurs := occurs_of_view hplace hview group hgroup
  obtain ⟨hkey, hfield⟩ := hoccurs field hfield
  obtain ⟨hfirst, hgroup⟩ := hoccurs group.first List.mem_cons_self
  exact hkeys _ _ _ _ hgroup hfield (hfirst.trans hkey.symm)

private theorem placeOf_reordered {group group' : FieldGroup}
    (huniform : ∀ field ∈ group.fields, group.first.node.SameCall field.node)
    (hfields : FieldsReorder group.fields group'.fields) (hkey : group'.key = group.key)
    (object : ObjectType) (parent : Json) (path : ResponsePath) (selections : List Selection)
    (fragments : List Fragment) :
    (plan.placeOf object parent path group).Reordered
      ((plan.replacing selections fragments).placeOf object parent path group') := by
  have hfirst : group'.first ∈ group'.fields := List.mem_cons_self
  obtain ⟨field, hfield, hcounterpart⟩ := hfields.exists_counterpart hfirst
  have hcall : group.first.node.SameCall group'.first.node :=
    (huniform field hfield).trans hcounterpart.node.call
  unfold placeOf
  simp only [hcall.name, hkey]
  split
  · exact .typename (sameReport_typenameAnswer hcall object parent)
  · split
    · exact .undefined
    · next definition _ =>
      exact .value rfl rfl hfields.selections 
        (sameReport_answer hcall object definition parent _)

section

variable {fragments : List Fragment}
  (hfragments : Forall₂ Fragment.Reordered plan.fragments fragments) (operation : List Selection)

include hfragments

private theorem levelView_reordered {selections selections' : List (List Selection)}
    (hfits : ∃ depth, plan.Fits depth selections)
    (h : Reorders selections.flatten selections'.flatten) (object : ObjectType) (value : Json) :
    (plan.levelView object selections value).Reordered
      ((plan.replacing operation fragments).levelView object selections' value) := by
  obtain ⟨depth, hfits⟩ := hfits
  obtain ⟨groups, groups', hgroups, hgroups', hreorder⟩ :=
    Scope.collect_reordered hfragments (valid_of_fits hfits) h object.name
  have hcollect : (plan.replacing operation fragments).collect object.name selections' = _ :=
    hgroups'
  unfold levelView
  rw [hgroups, hcollect]
  exact .fields hreorder

section

variable {site site' : FieldSite} (hobject : site'.object = site.object)
  (hfield : site'.field = site.field) (hfits : ∃ depth, plan.Fits depth site.selections)
  (hselections : Reorders site.selections.flatten site'.selections.flatten)

include hobject hfield hfits hselections

private theorem namedView_reordered (name : String) (value : Json) (path : ResponsePath) :
    (plan.namedView site name value path).Reordered
      ((plan.replacing operation fragments).namedView site' name value path) := by
  have hsystem : (plan.replacing operation fragments).system = plan.system := rfl
  have hschema : (plan.replacing operation fragments).schema = plan.schema := rfl
  have hlevel (object : ObjectType) :=
    levelView_reordered hfragments operation hfits hselections object value
  have hruntime (type : TypeDefinition) :
      (plan.replacing operation fragments).runtimeType site' type value path =
        plan.runtimeType site type value path := by
    unfold runtimeType FieldSite.unresolvedMessage FieldSite.text
    rw [hobject, hfield, hsystem]
  unfold namedView
  rw [hsystem, hschema]
  cases plan.system.get? name with
  | none => exact .fatal
  | some type =>
    cases type with
    | object object => exact hlevel object
    | interface type | union type =>
      simp only [TypeDefinition.isAbstract, if_true, hruntime]
      cases plan.runtimeType site _ value path with
      | ok object => exact hlevel object
      | error message => exact View.reordered_failure rfl site site'
    | enum type | scalar type =>
      simp only [TypeDefinition.isAbstract, Bool.false_eq_true, if_false]
      cases plan.schema.leaf _ value with
      | ok value => exact .value
      | error message => exact View.reordered_failure rfl site site'

private theorem valueView_reordered (type : TypeExpr) (value : Json) (path : ResponsePath) :
    (plan.valueView site type value path).Reordered
      ((plan.replacing operation fragments).valueView site' type value path) := by
  have htext : site'.text = site.text := by
    unfold FieldSite.text
    rw [hobject, hfield]
  unfold valueView
  cases value.isNull with
  | true =>
    cases type.nullable with
    | true => exact .value
    | false =>
      refine View.reordered_failure ?_ site site'
      unfold FieldSite.nullMessage
      rw [htext]
  | false =>
    cases type with
    | named name nullable =>
      exact namedView_reordered hfragments operation hobject hfield hfits hselections name value
        path
    | list item nullable =>
      simp only [Bool.false_eq_true, if_false]
      cases value.items? with
      | none =>
        refine View.reordered_failure ?_ site site'
        unfold FieldSite.listMessage
        rw [htext]
      | some items =>
        refine .items ?_
        rw [List.forall₂_map_left_iff, List.forall₂_map_right_iff]
        exact List.forall₂_same.2 fun held _ => .value hobject hfield hselections (.ok rfl)

end

/-- The same stands at a place as before, but for the order of what is inside. -/
theorem view_reordered {place place' : Place} (hsane : plan.Sane place)
    (h : place.Reordered place') (path : ResponsePath) :
    (plan.view place path).Reordered
      ((plan.replacing operation fragments).view place' path) := by
  cases h with
  | level hselections =>
    exact levelView_reordered hfragments operation hsane.2 hselections _ _
  | undefined => exact .fatal
  | typename hproduced =>
    cases hproduced with
    | error hreport => exact View.reordered_ofFault hreport _ _
    | ok hsame =>
      rw [← hsame, view, view]
      unfold typenameView
      split
      · exact .value
      · exact .failed rfl rfl
  | value hobject hfield hselections hproduced =>
    cases hproduced with
    | error hreport => exact View.reordered_ofFault hreport _ _
    | ok hsame =>
      rw [← hsame]
      exact valueView_reordered hfragments operation hobject hfield hsane.2.1 hselections _ _ path

end

/-- What is inside a place stands under the same keys as before, in another order. -/
structure InsideReordered (plan plan' : Plan) (path : ResponsePath) (place place' : Place) :
    Prop where
  segments : ((plan'.inside place' path).map Prod.fst).Perm ((plan.inside place path).map Prod.fst)
  children : ∀ segment child child', (segment, child) ∈ plan.inside place path →
    (segment, child') ∈ plan'.inside place' path → child.Reordered child'

section

variable {path : ResponsePath}

private theorem segments_items {place : Place} {children : List Place}
    (hview : plan.view place path = .items children) :
    (plan.inside place path).map Prod.fst = (List.range children.length).map PathSegment.index := by
  rw [inside, hview]
  refine List.ext_getElem (by simp [Plan.children]) ?_
  simp [Plan.children]

theorem segments_fields {place : Place} {object : ObjectType} {groups : List FieldGroup}
    {value : Json} (hview : plan.view place path = .fields object groups value) :
    (plan.inside place path).map Prod.fst =
      (groups.map FieldGroup.key).map PathSegment.field := by
  rw [inside, hview, children, List.map_map, List.map_map]
  rfl

private theorem insideReordered_items {plan' : Plan} {place place' : Place}
    {children children' : List Place}
    (hview : plan.view place path = .items children)
    (hview' : plan'.view place' path = .items children')
    (hchildren : Forall₂ Place.Reordered children children') :
    plan.InsideReordered plan' path place place' := by
  constructor
  · rw [segments_items hview, segments_items hview', hchildren.length_eq]
  · intro segment child child' hmem hmem'
    obtain ⟨i, hi⟩ := List.mem_iff_getElem?.1 hmem
    obtain ⟨j, hj⟩ := List.mem_iff_getElem?.1 hmem'
    obtain ⟨rfl, hchild⟩ := (getElem?_inside_items hview).1 hi
    obtain ⟨hsame, hchild'⟩ := (getElem?_inside_items hview').1 hj
    obtain rfl : i = j := PathSegment.index.inj hsame
    exact (forall₂_iff_getElem?.1 hchildren).2 i child child' hchild hchild'

section

variable {selections : List Selection} {fragments : List Fragment} {place place' : Place}

private theorem insideReordered_fields {object : ObjectType} {groups groups' : List FieldGroup}
    {value : Json} (hview : plan.view place path = .fields object groups value)
    (hview' : (plan.replacing selections fragments).view place' path =
      .fields object groups' value)
    (huniform : ∀ group ∈ groups, ∀ field ∈ group.fields, group.first.node.SameCall field.node)
    (hgroups : GroupsReorder groups groups') :
    plan.InsideReordered (plan.replacing selections fragments) path place place' := by
  constructor
  · rw [segments_fields hview, segments_fields hview']
    exact hgroups.keys.map _
  · intro segment child child' hmem hmem'
    obtain ⟨i, hi⟩ := List.mem_iff_getElem?.1 hmem
    obtain ⟨j, hj⟩ := List.mem_iff_getElem?.1 hmem'
    obtain ⟨group, hgroup, rfl, rfl⟩ := (getElem?_inside_fields hview).1 hi
    obtain ⟨group', hgroup', hsame, rfl⟩ := (getElem?_inside_fields hview').1 hj
    have hgroupMem := List.mem_of_getElem? hgroup
    have hkey : group'.key = group.key := (PathSegment.field.inj hsame).symm
    have hfields := hgroups.fields group hgroupMem group' (List.mem_of_getElem? hgroup') hkey
    exact placeOf_reordered (huniform group hgroupMem) hfields hkey object value path selections
      fragments

theorem inside_reordered (huniform : plan.Uniform) (hplace : plan.place? path = some place)
    (h : (plan.view place path).Reordered
      ((plan.replacing selections fragments).view place' path)) :
    plan.InsideReordered (plan.replacing selections fragments) path place place' := by
  generalize hview : plan.view place path = view at h
  generalize hview' : (plan.replacing selections fragments).view place' path = view' at h
  cases h with
  | value | failed | fatal =>
    have hinside : plan.inside place path = [] := by rw [inside, hview]; rfl
    have hinside' : (plan.replacing selections fragments).inside place' path = [] := by
      rw [inside, hview']
      rfl
    constructor
    · rw [hinside, hinside']
    · simp [hinside]
  | items hchildren => exact insideReordered_items hview hview' hchildren
  | fields hgroups =>
    exact insideReordered_fields hview hview' (huniform path place _ _ _ hplace hview) hgroups

end

end

end

end Plan

end GraphQuery
