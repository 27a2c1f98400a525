import GraphQuery.Proofs.Completion.ErrorOrder

/-!
# Listed invocations

The resolvers that a response calls for, depth first: those of the fields of an object in the order
in which they were collected, those of the items of a list by index, and each before those inside
its value. Main statements: a place has one such listing, and it consists of the listings of the
places inside.
-/

namespace GraphQuery

/-- The start of a resolver. -/
structure Invocation where
  path : ResponsePath
  object : String
  context : ResolverContext

namespace Plan

/-- The invocation that a group asks for on an object: its first field has a resolver of its own,
and its arguments are bound. -/
def InvokesField (plan : Plan) (object : ObjectType) (parent : Json) (path : ResponsePath)
    (group : FieldGroup) (invocation : Invocation) : Prop :=
  ∃ field answer arguments, group.first.node.name ≠ "__typename" ∧
    object.field? group.first.node.name = some field ∧
    plan.schema.resolvers object.name field.name = .custom answer ∧
    plan.bindArguments field.arguments group.first.node.arguments = .ok arguments ∧
    invocation =
      { path := path.child (.field group.key)
        object := object.name
        context := { fieldName := field.name, parent, arguments } }

/-- The invocations of the fields of the object at a place. -/
inductive Invokes (plan : Plan) : Place → ResponsePath → Invocation → Prop
  | field {place object selections value groups group path invocation}
      (hat : plan.ObjectAt place path object selections value)
      (hcollect : plan.collect object.name selections = .ok groups) (hgroup : group ∈ groups)
      (hfield : plan.InvokesField object value path group invocation) :
      Invokes plan place path invocation

/-- Of two ways from a place at `base`, the later one leads into the place of the first one, or the
first one precedes it. -/
def Before (plan : Plan) (place : Place) (base path later : ResponsePath) : Prop :=
  (∃ segment rest, later = path ++ segment :: rest) ∨ plan.Precedes place base path later

/-- Both resolvers start inside the place at the path, the first before the other. -/
def InvokedBefore (plan : Plan) (place : Place) (path : ResponsePath)
    (invocation later : Invocation) : Prop :=
  ∃ rest rest', invocation.path = path ++ rest ∧ later.path = path ++ rest' ∧
    plan.Before place path rest rest'

/-- The invocations at a place and inside it, depth first. -/
structure Lists (plan : Plan) (place : Place) (path : ResponsePath)
    (invocations : List Invocation) : Prop where
  mem_iff : ∀ invocation, invocation ∈ invocations ↔
    ∃ way inner, plan.follow place path way = some inner ∧
      plan.Invokes inner (path ++ way) invocation
  ordered : invocations.Pairwise (plan.InvokedBefore place path)

section

variable {plan : Plan} {place child : Place} {path : ResponsePath} {segment : PathSegment}
  {invocation : Invocation}

private theorem Before.asymm {base path later : ResponsePath}
    (h : plan.Before place base path later) :
    ¬ plan.Before place base later path := by
  intro h'
  rcases h with ⟨segment, rest, rfl⟩ | hprecedes
  · rcases h' with ⟨segment', rest', hlength⟩ | hprecedes'
    · have hlength := congrArg List.length hlength
      simp at hlength
    · exact hprecedes'.not_prefix.2 (List.prefix_append path _)
  · rcases h' with ⟨segment', rest', rfl⟩ | hprecedes'
    · exact hprecedes.not_prefix.2 (List.prefix_append later _)
    · exact hprecedes.asymm hprecedes'

theorem Lists.nodup_paths {invocations : List Invocation}
    (h : plan.Lists place path invocations) : (invocations.map Invocation.path).Nodup := by
  rw [List.Nodup, List.pairwise_map]
  refine h.ordered.imp fun {invocation later} hbefore heq => ?_
  obtain ⟨rest, rest', hrest, hrest', hbefore⟩ := hbefore
  rw [hrest, hrest', List.append_cancel_left_eq] at heq
  subst heq
  exact hbefore.asymm hbefore

theorem Lists.unique {invocations others : List Invocation}
    (h : plan.Lists place path invocations) (h' : plan.Lists place path others) :
    others = invocations := by
  have hperm : others.Perm invocations :=
    (List.perm_ext_iff_of_nodup h'.nodup_paths.of_map h.nodup_paths.of_map).2 fun invocation =>
      (h'.mem_iff invocation).trans (h.mem_iff invocation).symm
  refine hperm.eq_of_pairwise (fun invocation later _ _ hbefore hafter => ?_) h'.ordered h.ordered
  obtain ⟨rest, rest', hrest, hrest', hbefore⟩ := hbefore
  obtain ⟨more, more', hmore, hmore', hafter⟩ := hafter
  rw [hrest', List.append_cancel_left_eq] at hmore
  rw [hrest, List.append_cancel_left_eq] at hmore'
  subst hmore hmore'
  exact absurd hafter hbefore.asymm

theorem InvokesField.path_eq {object : ObjectType} {parent : Json} {group : FieldGroup}
    (h : plan.InvokesField object parent path group invocation) :
    invocation.path = path.child (.field group.key) := by
  obtain ⟨field, resolver, arguments, -, -, -, -, rfl⟩ := h
  rfl

private theorem invokes_iff {object : ObjectType} {groups : List FieldGroup} {value : Json}
    (hview : plan.view place path = .fields object groups value) :
    plan.Invokes place path invocation ↔
      ∃ group ∈ groups, plan.InvokesField object value path group invocation := by
  have hshows := plan.shows_view place path
  rw [hview] at hshows
  cases hshows with
  | fields hat hcollect =>
    constructor
    · rintro ⟨hat', hcollect', hgroup, hfield⟩
      have hview' := view_of_shows (.fields hat' hcollect')
      obtain ⟨rfl, rfl, rfl⟩ := View.fields.inj (hview'.symm.trans hview)
      exact ⟨_, hgroup, hfield⟩
    · rintro ⟨group, hgroup, hfield⟩
      exact .field hat hcollect hgroup hfield

private theorem Invokes.exists_inside (h : plan.Invokes place path invocation) :
    ∃ (i : Nat) (segment : PathSegment) (child : Place),
      (plan.inside place path)[i]? = some (segment, child) ∧
        invocation.path = path.child segment := by
  obtain ⟨hat, hcollect, hgroup, hfield⟩ := h
  obtain ⟨i, hi⟩ := List.mem_iff_getElem?.1 hgroup
  have hview := view_of_shows (.fields hat hcollect)
  exact ⟨i, _, _, (getElem?_inside_fields hview).2 ⟨_, hi, rfl, rfl⟩, hfield.path_eq⟩

theorem not_invokes_items {children : List Place} (hview : plan.view place path = .items children) :
    ¬ plan.Invokes place path invocation := by
  rintro ⟨hat, hcollect, -, -⟩
  cases hview.symm.trans (view_of_shows (.fields hat hcollect))

theorem invokes_child_iff {object : ObjectType} {groups : List FieldGroup} {value : Json}
    (hview : plan.view place path = .fields object groups value) {group : FieldGroup}
    (hgroup : group ∈ groups) :
    plan.Invokes place path invocation ∧ invocation.path = path.child (.field group.key) ↔
      plan.InvokesField object value path group invocation := by
  rw [invokes_iff hview]
  constructor
  · rintro ⟨⟨other, hother, hfield⟩, hpath⟩
    have hsegment := List.append_cancel_left (hfield.path_eq.symm.trans hpath)
    have hkey := PathSegment.field.inj (List.cons.inj hsegment).1
    obtain rfl : other = group :=
      List.inj_on_of_nodup_map (nodup_keys_of_view hview) hother hgroup hkey
    exact hfield
  · exact fun hfield => ⟨⟨group, hgroup, hfield⟩, hfield.path_eq⟩

private theorem exists_follow_iff {motive : ResponsePath → Place → Prop} :
    (∃ way inner, plan.follow place path way = some inner ∧ motive way inner) ↔
      motive [] place ∨ ∃ (i : Nat) (segment : PathSegment) (child : Place),
        (plan.inside place path)[i]? = some (segment, child) ∧
          ∃ way inner, plan.follow child (path.child segment) way = some inner ∧
            motive (segment :: way) inner := by
  constructor
  · rintro ⟨way, inner, hfollow, h⟩
    cases way with
    | nil =>
      obtain rfl := Option.some.inj hfollow
      exact .inl h
    | cons segment way =>
      rw [follow_cons, Option.bind_eq_some_iff] at hfollow
      obtain ⟨child, hlookup, hfollow⟩ := hfollow
      obtain ⟨i, hchild⟩ := getElem?_of_lookup_inside hlookup
      exact .inr ⟨i, segment, child, hchild, way, inner, hfollow, h⟩
  · rintro (h | ⟨i, segment, child, hchild, way, inner, hfollow, h⟩)
    · exact ⟨[], place, rfl, h⟩
    · exact ⟨segment :: way, inner, by rw [follow_inside hchild, hfollow], h⟩

private theorem Lists.exists_rest {invocations : List Invocation}
    (h : plan.Lists place path invocations) {invocation : Invocation}
    (hmem : invocation ∈ invocations) :
    ∃ segment rest, invocation.path = path ++ segment :: rest := by
  obtain ⟨way, inner, -, hinvokes⟩ := (h.mem_iff invocation).1 hmem
  obtain ⟨-, -, -, hfield⟩ := hinvokes
  rw [hfield.path_eq, ResponsePath.child, List.append_assoc]
  cases way with
  | nil => exact ⟨_, [], rfl⟩
  | cons first rest => exact ⟨first, _, rfl⟩

theorem lists_nil (houter : (plan.view place path).isInner = false) : plan.Lists place path [] := by
  refine ⟨fun invocation => ?_, .nil⟩
  rw [exists_follow_iff, List.append_nil]
  simp only [List.not_mem_nil, false_iff]
  rintro (hinvokes | ⟨i, segment, child, hchild, -⟩)
  · obtain ⟨i, segment, child, hchild, -⟩ := hinvokes.exists_inside
    rw [isInner_of_inside hchild] at houter
    cases houter
  · rw [isInner_of_inside hchild] at houter
    cases houter

/-- A part of the listing of a place: the invocation for one of the places inside, if there is one,
and the listing of that place. -/
def ListsPart (plan : Plan) (place : Place) (path : ResponsePath) (segment : PathSegment)
    (child : Place) (part : List Invocation) : Prop :=
  ∃ (own : Option Invocation) (below : List Invocation), part = own.toList ++ below ∧
    (∀ invocation, own = some invocation ↔
      plan.Invokes place path invocation ∧ invocation.path = path.child segment) ∧
    plan.Lists child (path.child segment) below

private theorem ListsPart.exists_rest {part : List Invocation}
    (h : plan.ListsPart place path segment child part) (hmem : invocation ∈ part) :
    ∃ rest, invocation.path = path ++ segment :: rest := by
  obtain ⟨own, below, rfl, hown, hbelow⟩ := h
  rcases List.mem_append.1 hmem with hmem | hmem
  · exact ⟨[], ((hown invocation).1 (Option.mem_toList.1 hmem)).2⟩
  · obtain ⟨first, rest, hpath⟩ := hbelow.exists_rest hmem
    exact ⟨first :: rest, by rw [hpath, append_child]⟩

private theorem ListsPart.mem_iff {part : List Invocation}
    (h : plan.ListsPart place path segment child part) :
    invocation ∈ part ↔
      (plan.Invokes place path invocation ∧ invocation.path = path.child segment) ∨
        ∃ way inner, plan.follow child (path.child segment) way = some inner ∧
          plan.Invokes inner (path ++ segment :: way) invocation := by
  obtain ⟨own, below, rfl, hown, hbelow⟩ := h
  rw [List.mem_append, Option.mem_toList, hown, hbelow.mem_iff]
  simp only [append_child]

private theorem ListsPart.ordered {part : List Invocation} {i : Nat}
    (hchild : (plan.inside place path)[i]? = some (segment, child))
    (h : plan.ListsPart place path segment child part) :
    part.Pairwise (plan.InvokedBefore place path) := by
  obtain ⟨own, below, rfl, hown, hbelow⟩ := h
  rw [List.pairwise_append]
  refine ⟨?_, ?_, ?_⟩
  · cases own with
    | none => exact .nil
    | some invocation => exact List.pairwise_singleton ..
  · refine hbelow.ordered.imp fun {invocation later} hbefore => ?_
    obtain ⟨rest, rest', hpath, hpath', hbefore⟩ := hbefore
    refine ⟨segment :: rest, segment :: rest', ?_, ?_, ?_⟩
    · rw [hpath, append_child]
    · rw [hpath', append_child]
    · rcases hbefore with ⟨next, more, rfl⟩ | hprecedes
      · exact .inl ⟨next, more, rfl⟩
      · exact .inr (hprecedes.cons hchild)
  · intro invocation hmem later hlater
    have hpath := ((hown invocation).1 (Option.mem_toList.1 hmem)).2
    obtain ⟨next, rest, hpath'⟩ := hbelow.exists_rest hlater
    refine ⟨[segment], segment :: next :: rest, hpath, ?_, .inl ⟨next, rest, rfl⟩⟩
    rw [hpath', append_child]

section

variable {parts : List (List Invocation)} (hlength : parts.length = (plan.inside place path).length)
  (hparts : ∀ (i : Nat) segment child part, (plan.inside place path)[i]? = some (segment, child) →
    parts[i]? = some part → plan.ListsPart place path segment child part)

include hlength hparts

private theorem exists_inside_of_part {i : Nat} {part : List Invocation}
    (hpart : parts[i]? = some part) :
    ∃ segment child, (plan.inside place path)[i]? = some (segment, child) ∧
      plan.ListsPart place path segment child part := by
  obtain ⟨⟨segment, child⟩, hchild⟩ := exists_getElem?_of_length_eq hlength hpart
  exact ⟨segment, child, hchild, hparts i segment child part hchild hpart⟩

private theorem mem_flatten_parts_iff :
    invocation ∈ parts.flatten ↔ ∃ (i : Nat) (segment : PathSegment) (child : Place),
      (plan.inside place path)[i]? = some (segment, child) ∧
        ((plan.Invokes place path invocation ∧ invocation.path = path.child segment) ∨
          ∃ way inner, plan.follow child (path.child segment) way = some inner ∧
            plan.Invokes inner (path ++ segment :: way) invocation) := by
  rw [List.mem_flatten]
  constructor
  · rintro ⟨part, hpart, hmem⟩
    obtain ⟨i, hi⟩ := List.mem_iff_getElem?.1 hpart
    obtain ⟨segment, child, hchild, hlists⟩ := exists_inside_of_part hlength hparts hi
    exact ⟨i, segment, child, hchild, hlists.mem_iff.1 hmem⟩
  · rintro ⟨i, segment, child, hchild, hinvokes⟩
    obtain ⟨part, hpart⟩ := exists_getElem?_of_length_eq hlength.symm hchild
    have hmem := (hparts i segment child part hchild hpart).mem_iff.2 hinvokes
    exact ⟨part, List.mem_of_getElem? hpart, hmem⟩

private theorem pairwise_flatten_parts : parts.flatten.Pairwise
    (plan.InvokedBefore place path) := by
  apply List.pairwise_flatten.mpr
  constructor
  · intro part hmem
    obtain ⟨i, hi⟩ := List.mem_iff_getElem?.1 hmem
    obtain ⟨segment, child, hchild, hlists⟩ := exists_inside_of_part hlength hparts hi
    exact hlists.ordered hchild
  -- Two parts are told apart by where their places stand, not by what they list.
  · apply List.pairwise_iff_getElem.mpr
    intro i j hi hj hlt invocation hmem later hlater
    obtain ⟨segment, child, hchild, hlists⟩ :=
      exists_inside_of_part hlength hparts (List.getElem?_eq_getElem hi)
    obtain ⟨next, other, hother, hlists'⟩ :=
      exists_inside_of_part hlength hparts (List.getElem?_eq_getElem hj)
    obtain ⟨rest, hpath⟩ := hlists.exists_rest hmem
    obtain ⟨rest', hpath'⟩ := hlists'.exists_rest hlater
    have hearlier := earlier_of_inside hlt hchild hother
    exact ⟨_, _, hpath, hpath', .inr (hearlier.precedes rest rest')⟩

/-- The listings of the places inside a place make up the listing of the place. -/
theorem lists_flatten : plan.Lists place path parts.flatten := by
  refine ⟨fun invocation => ?_, pairwise_flatten_parts hlength hparts⟩
  rw [mem_flatten_parts_iff hlength hparts, exists_follow_iff, List.append_nil]
  constructor
  · rintro ⟨i, segment, child, hchild, ⟨hown, -⟩ | hbelow⟩
    · exact .inl hown
    · exact .inr ⟨i, segment, child, hchild, hbelow⟩
  · rintro (hown | ⟨i, segment, child, hchild, hbelow⟩)
    · obtain ⟨i, segment, child, hchild, hpath⟩ := hown.exists_inside
      exact ⟨i, segment, child, hchild, .inl ⟨hown, hpath⟩⟩
    · exact ⟨i, segment, child, hchild, .inr hbelow⟩

end

end

end Plan

end GraphQuery
