import GraphQuery.Proofs.Completion.Nulls
import Mathlib.Data.List.Infix

/-!
# Where a resolver shows

The positions of a response at which one field of one object type is executed, and what two plans
that differ in the resolver of that field have in common. Main statement: outside those positions
and below them the plans have the same places, so the field is executed first at the same ones.
-/

namespace GraphQuery

namespace Plan

section

variable {plan other : Plan} {type field : String}

/-- The plans show the same at every place, and what their fields produce is the same but for one
field. -/
structure DifferAt (plan other : Plan) (type field : String) : Prop where
  rootPlace : other.rootPlace = plan.rootPlace
  view : other.view = plan.view
  typename : other.typenameAnswer = plan.typenameAnswer
  answer : ∀ object definition, ¬ (object.name = type ∧ definition.name = field) →
    other.answer object definition = plan.answer object definition

private theorem DifferAt.symm (h : plan.DifferAt other type field) :
    other.DifferAt plan type field :=
  ⟨h.rootPlace.symm, h.view.symm, h.typename.symm, fun object definition hne =>
    (h.answer object definition hne).symm⟩

/-- The places are the same, or values that the field produces. -/
def Akin (type field : String) (segment : PathSegment) (place other : Place) : Prop :=
  place = other ∨ (∃ key, segment = .field key) ∧
    ∃ site expr produced produced', place = .value site expr produced ∧
      other = .value site expr produced' ∧ site.object = type ∧ site.field = field

theorem Akin.nullable_eq {segment : PathSegment} {place place' : Place}
    (h : Akin type field segment place place') : place.nullable = place'.nullable := by
  obtain rfl | ⟨-, site, expr, _, _, rfl, rfl, -⟩ := h <;> rfl

private theorem DifferAt.placeOf_akin (h : plan.DifferAt other type field) (object : ObjectType)
    (parent : Json) (path : ResponsePath) (group : FieldGroup) :
    Akin type field (.field group.key) (plan.placeOf object parent path group)
      (other.placeOf object parent path group) := by
  by_cases hname : group.first.node.name = "__typename"
  · left
    rw [placeOf_typename hname, placeOf_typename hname, h.typename]
  · cases hfield : object.field? group.first.node.name with
    | none => exact .inl (by rw [placeOf_undefined hname hfield, placeOf_undefined hname hfield])
    | some definition =>
      rw [placeOf_field hname hfield, placeOf_field hname hfield]
      by_cases hexecuted : object.name = type ∧ definition.name = field
      · exact .inr ⟨⟨_, rfl⟩, _, _, _, _, rfl, rfl, hexecuted⟩
      · exact .inl (by rw [h.answer _ _ hexecuted])

theorem DifferAt.length_inside (h : plan.DifferAt other type field) (place : Place)
    (path : ResponsePath) :
    (other.inside place path).length = (plan.inside place path).length := by
  rw [inside, inside, h.view]
  cases plan.view place path with
  | value | failed | fatal => rfl
  | items children => rfl
  | fields object groups value => simp [children]

theorem DifferAt.inside_akin (h : plan.DifferAt other type field) {place child : Place}
    {path : ResponsePath} {i : Nat} {segment : PathSegment}
    (hchild : (plan.inside place path)[i]? = some (segment, child)) :
    ∃ child', (other.inside place path)[i]? = some (segment, child') ∧
      Akin type field segment child child' := by
  have hview' : other.view place path = plan.view place path := by rw [h.view]
  cases hview : plan.view place path with
  | value | failed | fatal =>
    rw [inside, hview] at hchild
    cases hchild
  | items children =>
    rw [hview] at hview'
    have hitem := (getElem?_inside_items hview).1 hchild
    exact ⟨child, (getElem?_inside_items hview').2 hitem, .inl rfl⟩
  | fields object groups value =>
    rw [hview] at hview'
    obtain ⟨group, hgroup, rfl, rfl⟩ := (getElem?_inside_fields hview).1 hchild
    exact ⟨_, (getElem?_inside_fields hview').2 ⟨group, hgroup, rfl, rfl⟩,
      h.placeOf_akin object value path group⟩

end

/-- Whether the field of the type is executed at the path. -/
def executes (plan : Plan) (type field : String) (path : ResponsePath) : Bool :=
  match path.getLast?, plan.place? path with
  | some (.field _), some (.value site _ _) => site.object == type && site.field == field
  | _, _ => false

/-- Whether the field is executed at the path or above it. -/
def touches (plan : Plan) (type field : String) (path : ResponsePath) : Bool :=
  path.inits.any (plan.executes type field)

/-- The places that null reaches if it comes from the field and from nothing else. -/
def Hole (plan : Plan) (type field : String) (path : ResponsePath) : Prop :=
  ∃ executed, plan.executes type field executed = true ∧
    plan.Shelters plan.rootPlace [] path executed

section

variable {plan other : Plan} {type field : String}

theorem executes_child_iff {path : ResponsePath} {segment : PathSegment} :
    plan.executes type field (path ++ [segment]) = true ↔
      (∃ key, segment = .field key) ∧ ∃ site expr produced,
        plan.place? (path ++ [segment]) = some (.value site expr produced) ∧
          site.object = type ∧ site.field = field := by
  unfold executes
  rw [List.getLast?_concat]
  cases segment with
  | index i => simp
  | field key =>
    cases plan.place? (path ++ [.field key]) with
    | none => simp
    | some place =>
      cases place with
      | level | typename | undefined => simp
      | value site expr produced => simp

theorem touches_iff {path : ResponsePath} :
    plan.touches type field path = true ↔
      ∃ executed, executed <+: path ∧ plan.executes type field executed = true := by
  simp only [touches, List.any_eq_true, List.mem_inits]

theorem touches_append {path : ResponsePath} (h : plan.touches type field path = true)
    (more : ResponsePath) : plan.touches type field (path ++ more) = true := by
  obtain ⟨executed, hprefix, hexecutes⟩ := touches_iff.1 h
  exact touches_iff.2 ⟨executed, hprefix.trans (List.prefix_append _ _), hexecutes⟩

private theorem isSome_place?_of_executes {path : ResponsePath}
    (h : plan.executes type field path = true) : (plan.place? path).isSome := by
  unfold executes at h
  split at h
  · next hplace => rw [hplace]; rfl
  · cases h

theorem untouched_below {path : ResponsePath} {place : Place}
    (hplace : plan.place? path = some place) (hinside : plan.inside place path = [])
    (huntouched : plan.touches type field path = false) (rest : ResponsePath) :
    plan.touches type field (path ++ rest) = false := by
  rw [← Bool.not_eq_true]
  intro htouches
  obtain ⟨executed, hprefix, hexecutes⟩ := touches_iff.1 htouches
  rcases List.prefix_or_prefix_of_prefix hprefix (List.prefix_append path rest) with hle | hle
  · rw [touches_iff.2 ⟨executed, hle, hexecutes⟩] at huntouched
    cases huntouched
  · obtain ⟨more, rfl⟩ := hle
    cases more with
    | nil =>
      rw [List.append_nil] at hexecutes
      rw [touches_iff.2 ⟨path, List.prefix_rfl, hexecutes⟩] at huntouched
      cases huntouched
    | cons segment more =>
      have hsome := isSome_place?_of_executes hexecutes
      rw [place?_append, hplace, Option.bind_some, follow_cons, hinside] at hsome
      cases hsome

theorem touches_nil : plan.touches type field [] = false := rfl

theorem touches_child {path : ResponsePath} {segment : PathSegment}
    (huntouched : plan.touches type field path = false) :
    plan.touches type field (path ++ [segment]) = plan.executes type field (path ++ [segment]) := by
  rw [Bool.eq_iff_iff, touches_iff]
  constructor
  · rintro ⟨executed, hprefix, hexecutes⟩
    rcases List.prefix_concat_iff.1 hprefix with rfl | hprefix
    · exact hexecutes
    · rw [touches_iff.2 ⟨executed, hprefix, hexecutes⟩] at huntouched
      cases huntouched
  · exact fun hexecutes => ⟨_, List.prefix_rfl, hexecutes⟩

private theorem untouched_of_prefix {path way : ResponsePath} (hway : way <+: path)
    (h : plan.touches type field path = false) : plan.touches type field way = false := by
  obtain ⟨rest, rfl⟩ := hway
  rw [← Bool.not_eq_true] at h ⊢
  exact fun htouches => h (touches_append htouches rest)

private theorem untouched_of_child {path : ResponsePath} {segment : PathSegment}
    (h : plan.touches type field (path ++ [segment]) = false) :
    plan.touches type field path = false :=
  untouched_of_prefix (List.prefix_append _ _) h

private theorem DifferAt.place?_child (h : plan.DifferAt other type field) {path : ResponsePath}
    {segment : PathSegment} (hpath : other.place? path = plan.place? path)
    {child : Place} (hchild : plan.place? (path ++ [segment]) = some child) :
    ∃ child', other.place? (path ++ [segment]) = some child' ∧
      Akin type field segment child child' := by
  rw [place?_append] at hchild
  obtain ⟨place, hplace, hfollow⟩ := Option.bind_eq_some_iff.1 hchild
  rw [follow_cons] at hfollow
  obtain ⟨inner, hinner, hnil⟩ := Option.bind_eq_some_iff.1 hfollow
  obtain rfl : inner = child := Option.some.inj hnil
  obtain ⟨i, hi⟩ := getElem?_of_lookup_inside hinner
  obtain ⟨child', hi', hakin⟩ := h.inside_akin hi
  refine ⟨child', ?_, hakin⟩
  exact Plan.place?_child (hpath.trans hplace) (lookup_inside hi')

theorem DifferAt.executes_child (h : plan.DifferAt other type field) {path : ResponsePath}
    {segment : PathSegment} (hpath : other.place? path = plan.place? path)
    (hexecutes : plan.executes type field (path ++ [segment]) = true) :
    other.executes type field (path ++ [segment]) = true := by
  obtain ⟨hkey, site, expr, produced, hplace, hsite⟩ := executes_child_iff.1 hexecutes
  obtain ⟨child', hplace', hakin⟩ := h.place?_child hpath hplace
  obtain rfl | ⟨-, site', expr', _, produced', heq, rfl, -⟩ := hakin
  · exact executes_child_iff.2 ⟨hkey, site, expr, produced, hplace', hsite⟩
  · obtain ⟨rfl, rfl, -⟩ := Place.value.inj heq
    exact executes_child_iff.2 ⟨hkey, _, _, produced', hplace', hsite⟩

/-- Outside the executed positions the plans have the same places. -/
theorem DifferAt.place?_eq (h : plan.DifferAt other type field) {path : ResponsePath}
    (huntouched : plan.touches type field path = false) :
    other.place? path = plan.place? path := by
  induction path using List.reverseRecOn with
  | nil => exact congrArg some h.rootPlace
  | append_singleton path segment ih =>
    have hpath := ih (untouched_of_child huntouched)
    cases hplan : plan.place? (path ++ [segment]) with
    | none =>
      cases hother : other.place? (path ++ [segment]) with
      | none => rfl
      | some child =>
        obtain ⟨child', hchild', -⟩ := h.symm.place?_child hpath.symm hother
        rw [hplan] at hchild'
        cases hchild'
    | some child =>
      obtain ⟨child', hchild', hakin⟩ := h.place?_child hpath hplan
      obtain rfl | ⟨hkey, site, expr, produced, _, rfl, -, hsite⟩ := hakin
      · exact hchild'
      · have hexecutes := executes_child_iff.2 ⟨hkey, site, expr, produced, hplan, hsite⟩
        rw [touches_child (untouched_of_child huntouched), hexecutes] at huntouched
        cases huntouched

private theorem DifferAt.touches_of_touches (h : plan.DifferAt other type field)
    {path : ResponsePath}
    (htouches : plan.touches type field path = true) :
    other.touches type field path = true := by
  induction path using List.reverseRecOn with
  | nil => cases htouches
  | append_singleton path segment ih =>
    cases hpath : plan.touches type field path with
    | true => exact touches_append (ih hpath) _
    | false =>
      rw [touches_child hpath] at htouches
      exact touches_iff.2 ⟨_, List.prefix_rfl, h.executes_child (h.place?_eq hpath) htouches⟩

/-- The plans execute the field at or above the same paths. -/
theorem DifferAt.touches_eq (h : plan.DifferAt other type field) (path : ResponsePath) :
    plan.touches type field path = other.touches type field path :=
  Bool.eq_iff_iff.2 ⟨h.touches_of_touches, h.symm.touches_of_touches⟩

private theorem exists_first_executed {path : ResponsePath}
    (h : plan.touches type field path = true) :
    ∃ parent segment, parent ++ [segment] <+: path ∧ plan.touches type field parent = false ∧
      plan.executes type field (parent ++ [segment]) = true := by
  induction path using List.reverseRecOn with
  | nil => cases h
  | append_singleton path segment ih =>
    cases hpath : plan.touches type field path with
    | true =>
      obtain ⟨parent, first, hprefix, hfirst⟩ := ih hpath
      exact ⟨parent, first, hprefix.trans (List.prefix_append _ _), hfirst⟩
    | false => exact ⟨path, segment, List.prefix_rfl, hpath, touches_child hpath ▸ h⟩

private theorem DifferAt.nullableAt_child (h : plan.DifferAt other type field) {path : ResponsePath}
    {segment : PathSegment} (hpath : other.place? path = plan.place? path)
    (hnullable : plan.NullableAt plan.rootPlace [] (path ++ [segment])) :
    other.NullableAt other.rootPlace [] (path ++ [segment]) := by
  obtain ⟨place, hplace, hnullable⟩ := hnullable
  obtain ⟨place', hplace', hakin⟩ := h.place?_child hpath hplace
  exact ⟨place', hplace', hakin.nullable_eq ▸ hnullable⟩

private theorem DifferAt.nullableAt (h : plan.DifferAt other type field) {path : ResponsePath}
    (huntouched : plan.touches type field path = false)
    (hnullable : plan.NullableAt plan.rootPlace [] path) :
    other.NullableAt other.rootPlace [] path := by
  obtain ⟨place, hplace, hnullable⟩ := hnullable
  exact ⟨place, (h.place?_eq huntouched).trans hplace, hnullable⟩

private theorem DifferAt.hole_of_hole (h : plan.DifferAt other type field) {path : ResponsePath}
    (huntouched : plan.touches type field path = false) (hhole : plan.Hole type field path) :
    other.Hole type field path := by
  obtain ⟨executed, hexecutes, hprefix, hnullable, hlongest⟩ := hhole
  obtain ⟨parent, segment, hfirst, hparent, hexecutes'⟩ :=
    exists_first_executed (touches_iff.2 ⟨executed, List.prefix_rfl, hexecutes⟩)
  have hplace := h.place?_eq hparent
  have hnot : ¬ parent ++ [segment] <+: path := fun hle => by
    rw [touches_iff.2 ⟨_, hle, hexecutes'⟩] at huntouched
    cases huntouched
  have hpath : path <+: parent ++ [segment] :=
    (List.prefix_or_prefix_of_prefix hprefix hfirst).resolve_right hnot
  refine ⟨_, h.executes_child hplace hexecutes', hpath, h.nullableAt huntouched hnullable, ?_⟩
  -- A longer shelter in the other plan would lie at the executed position or above it, where the
  -- plans have places that may be null alike.
  intro way hway hlt hnull
  rcases List.prefix_concat_iff.1 hway with rfl | hway'
  · exact hlongest _ hfirst hlt (h.symm.nullableAt_child hplace.symm hnull)
  · have huntouched' := untouched_of_prefix hway' hparent
    rw [h.touches_eq] at huntouched'
    exact hlongest way (hway.trans hfirst) hlt (h.symm.nullableAt huntouched' hnull)

theorem DifferAt.hole_iff (h : plan.DifferAt other type field) {path : ResponsePath}
    (huntouched : plan.touches type field path = false) :
    plan.Hole type field path ↔ other.Hole type field path := by
  refine ⟨h.hole_of_hole huntouched, h.symm.hole_of_hole ?_⟩
  rw [← h.touches_eq, huntouched]

end

end Plan

end GraphQuery
