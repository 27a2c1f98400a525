import GraphQuery.Proofs.Completion.Conforms

/-!
# The order of errors

Which of two errors stands first. A response is read depth first: the fields of an object in the
order in which they were collected, the items of a list by index. Main statement: errors are
recorded in this order, each at one position of the document, and none stands at or inside the
place of another.
-/

namespace GraphQuery

namespace Plan

/-- Of two steps into a place the first leads to what stands earlier in the response. -/
inductive Earlier (plan : Plan) : Place → ResponsePath → PathSegment → PathSegment → Prop
  | field {place path object selections value groups group later} {i j : Nat}
      (hat : plan.ObjectAt place path object selections value)
      (hcollect : plan.collect object.name selections = .ok groups) (hlt : i < j)
      (hgroup : groups[i]? = some group) (hlater : groups[j]? = some later) :
      Earlier plan place path (.field group.key) (.field later.key)
  | item {site item nullable value path} {i j : Nat} (hlt : i < j) :
      Earlier plan (.value site (.list item nullable) (.ok value)) path (.index i) (.index j)

/-- The ways from a place at `base` part at some place inside, and the first takes the earlier step
there. -/
def Precedes (plan : Plan) (place : Place) (base path later : ResponsePath) : Prop :=
  ∃ way inner segment next rest rest', plan.follow place base way = some inner ∧
    plan.Earlier inner (base ++ way) segment next ∧ path = way ++ segment :: rest ∧
    later = way ++ next :: rest'

section

variable {plan : Plan} {place child : Place} {segment next : PathSegment}
  {base path later : ResponsePath}

private theorem index_eq_of_key {groups : List FieldGroup}
    (hnodup : (groups.map FieldGroup.key).Nodup)
    {group other : FieldGroup} {i j : Nat} (hgroup : groups[i]? = some group)
    (hother : groups[j]? = some other) (hkey : group.key = other.key) : i = j := by
  have hi : (groups.map FieldGroup.key)[i]? = some group.key := by
    rw [List.getElem?_map, hgroup, Option.map_some]
  have hj : (groups.map FieldGroup.key)[j]? = some group.key := by
    rw [List.getElem?_map, hother, Option.map_some, hkey]
  have hbound := (List.getElem?_eq_some_iff.1 hi).1
  exact (List.getElem?_inj hbound hnodup).1 (hi.trans hj.symm)

private theorem Earlier.ne (h : plan.Earlier place path segment next) : segment ≠ next := by
  cases h with
  | field hat hcollect hlt hgroup hlater =>
    intro heq
    have hnodup := Scope.nodup_keys_of_collect hcollect
    have hindex := index_eq_of_key hnodup hgroup hlater (PathSegment.field.inj heq)
    exact absurd hindex (Nat.ne_of_lt hlt)
  | item hlt =>
    intro heq
    exact absurd (PathSegment.index.inj heq) (Nat.ne_of_lt hlt)

private theorem Earlier.asymm (h : plan.Earlier place path segment next) :
    ¬ plan.Earlier place path next segment := by
  intro h'
  cases h with
  | @field place path object selections value groups group later i j hat hcollect hlt hgroup
      hlater =>
    generalize hsegment : PathSegment.field group.key = segment at h'
    generalize hnext : PathSegment.field later.key = next at h'
    cases h' with
    | item => cases hsegment
    | field hat' hcollect' hlt' hgroup' hlater' =>
      have hview := view_of_shows (.fields hat hcollect)
      have hview' := view_of_shows (.fields hat' hcollect')
      obtain ⟨-, rfl, -⟩ := View.fields.inj (hview.symm.trans hview')
      have hnodup := Scope.nodup_keys_of_collect hcollect
      have hi := index_eq_of_key hnodup hgroup hlater' (PathSegment.field.inj hsegment)
      have hj := index_eq_of_key hnodup hlater hgroup' (PathSegment.field.inj hnext)
      omega
  | item hlt =>
    cases h' with
    | item hlt' => omega

theorem earlier_of_inside {other : Place} {i j : Nat} (hlt : i < j)
    (hchild : (plan.inside place path)[i]? = some (segment, child))
    (hother : (plan.inside place path)[j]? = some (next, other)) :
    plan.Earlier place path segment next := by
  have hshows := plan.shows_view place path
  cases hview : plan.view place path with
  | value | failed | fatal =>
    rw [inside, hview] at hchild
    cases hchild
  | items children =>
    obtain ⟨rfl, -⟩ := (getElem?_inside_items hview).1 hchild
    obtain ⟨rfl, -⟩ := (getElem?_inside_items hview).1 hother
    rw [hview] at hshows
    cases hshows with
    | items => exact .item hlt
  | fields object groups value =>
    obtain ⟨group, hgroup, rfl, -⟩ := (getElem?_inside_fields hview).1 hchild
    obtain ⟨later, hlater, rfl, -⟩ := (getElem?_inside_fields hview).1 hother
    rw [hview] at hshows
    cases hshows with
    | fields hat hcollect => exact .field hat hcollect hlt hgroup hlater

theorem Precedes.not_prefix (h : plan.Precedes place base path later) :
    ¬ path <+: later ∧ ¬ later <+: path := by
  obtain ⟨way, inner, segment, next, rest, rest', -, hearlier, rfl, rfl⟩ := h
  have hne := hearlier.ne
  constructor
  · intro hprefix
    rw [List.prefix_append_right_inj, List.cons_prefix_cons] at hprefix
    exact hne hprefix.1
  · intro hprefix
    rw [List.prefix_append_right_inj, List.cons_prefix_cons] at hprefix
    exact hne hprefix.1.symm

theorem append_child (path rest : ResponsePath) (segment : PathSegment) :
    path.child segment ++ rest = path ++ segment :: rest := by
  rw [ResponsePath.child, List.append_assoc, List.singleton_append]

/-- Of two paths one precedes the other at most. -/
theorem Precedes.asymm (h : plan.Precedes place base path later) :
    ¬ plan.Precedes place base later path := by
  obtain ⟨way, inner, segment, next, rest, rest', hfollow, hearlier, rfl, rfl⟩ := h
  intro h'
  induction way generalizing place base with
  | nil =>
    obtain rfl := Option.some.inj hfollow
    obtain ⟨way', inner', segment', next', more, more', hfollow', hearlier', hlater, hpath⟩ := h'
    cases way' with
    | nil =>
      obtain rfl := Option.some.inj hfollow'
      rw [(List.cons.inj hlater).1, (List.cons.inj hpath).1] at hearlier
      exact hearlier.asymm hearlier'
    | cons first way' =>
      exact hearlier.ne ((List.cons.inj hpath).1.trans (List.cons.inj hlater).1.symm)
  | cons first way ih =>
    obtain ⟨way', inner', segment', next', more, more', hfollow', hearlier', hlater, hpath⟩ := h'
    cases way' with
    | nil => exact hearlier'.ne ((List.cons.inj hlater).1.symm.trans (List.cons.inj hpath).1)
    | cons first' way' =>
      obtain ⟨rfl, hlast⟩ := List.cons.inj hlater
      obtain ⟨-, hfirst⟩ := List.cons.inj hpath
      rw [follow_cons, Option.bind_eq_some_iff] at hfollow hfollow'
      obtain ⟨child, hchild, hfollow⟩ := hfollow
      obtain ⟨child', hchild', hfollow'⟩ := hfollow'
      obtain rfl := Option.some.inj (hchild.symm.trans hchild')
      rw [← append_child] at hearlier hearlier'
      refine ih hfollow hearlier
        ⟨way', inner', segment', next', more, more', hfollow', hearlier', ?_, ?_⟩
      · exact hlast
      · exact hfirst

theorem Precedes.cons {i : Nat} (hchild : (plan.inside place base)[i]? = some (segment, child))
    (h : plan.Precedes child (base.child segment) path later) :
    plan.Precedes place base (segment :: path) (segment :: later) := by
  obtain ⟨way, inner, first, next, rest, rest', hfollow, hearlier, rfl, rfl⟩ := h
  rw [append_child] at hearlier
  refine ⟨segment :: way, inner, first, next, rest, rest', ?_, hearlier, rfl, rfl⟩
  rw [follow_inside hchild, hfollow]

theorem Earlier.precedes (h : plan.Earlier place base segment next) (path later : ResponsePath) :
    plan.Precedes place base (segment :: path) (next :: later) :=
  ⟨[], place, segment, next, path, later, rfl, by rwa [List.append_nil], rfl, rfl⟩

/-- The error has one location and stands at the path or below it. -/
def LocatedAt (path : ResponsePath) (error : ResponseError) : Prop :=
  ∃ location rest, error.locations = [location] ∧ error.path = some (path ++ rest)

/-- Both errors stand inside the place at the path, the first before the other. -/
def ErrorPrecedes (plan : Plan) (place : Place) (path : ResponsePath)
    (error later : ResponseError) : Prop :=
  ∃ rest rest', error.path = some (path ++ rest) ∧ later.path = some (path ++ rest') ∧
    plan.Precedes place path rest rest'

private theorem Completes.located {completion : Completion}
    (h : plan.Completes place path completion) :
    ∀ error ∈ completion.errors, LocatedAt path error := by
  induction h with
  | value | fatal =>
    intro error hmem
    cases hmem
  | @failed place path failure hview =>
    intro error hmem
    rw [Completion.errors_absorb, Completion.failed, List.mem_singleton] at hmem
    exact ⟨failure.position, [], by rw [hmem, Failure.error], by
      rw [hmem, Failure.error, List.append_nil]⟩
  | @inner place path completions hinner hlength hinside ih =>
    intro error hmem
    rw [Completion.errors_absorb, Completion.errors_join, List.mem_flatMap] at hmem
    obtain ⟨completion, hcompletion, herror⟩ := hmem
    obtain ⟨i, hi⟩ := List.mem_iff_getElem?.1 hcompletion
    obtain ⟨⟨segment, child⟩, hchild⟩ := exists_getElem?_of_length_eq hlength hi
    obtain ⟨location, rest, hlocation, hpath⟩ :=
      ih i segment child completion hchild hi error herror
    exact ⟨location, segment :: rest, hlocation, by rw [hpath, append_child]⟩

/-- Errors are recorded in the order of the response: a place that fails has one error, and the
errors inside a place stand in the order of the places there. -/
theorem Completes.errors_pairwise {completion : Completion}
    (h : plan.Completes place path completion) :
    completion.errors.Pairwise (plan.ErrorPrecedes place path) := by
  induction h with
  | value | fatal => exact .nil
  | failed hview =>
    rw [Completion.errors_absorb]
    exact List.pairwise_singleton ..
  | @inner place path completions hinner hlength hinside ih =>
    rw [Completion.errors_absorb, Completion.errors_join, List.pairwise_flatMap]
    constructor
    · intro completion hmem
      obtain ⟨i, hi⟩ := List.mem_iff_getElem?.1 hmem
      obtain ⟨⟨segment, child⟩, hchild⟩ := exists_getElem?_of_length_eq hlength hi
      have hpairs := ih i segment child completion hchild hi
      refine hpairs.imp fun {error later} hprecedes => ?_
      obtain ⟨rest, rest', hpath, hpath', hrest⟩ := hprecedes
      refine ⟨segment :: rest, segment :: rest', ?_, ?_, hrest.cons hchild⟩
      · rw [hpath, append_child]
      · rw [hpath', append_child]
    · rw [List.pairwise_iff_getElem]
      intro i j hi hj hlt error herror later hlater
      have hfirst := List.getElem?_eq_getElem hi
      have hsecond := List.getElem?_eq_getElem hj
      obtain ⟨⟨segment, child⟩, hchild⟩ := exists_getElem?_of_length_eq hlength hfirst
      obtain ⟨⟨next, other⟩, hother⟩ := exists_getElem?_of_length_eq hlength hsecond
      obtain ⟨-, rest, -, hpath⟩ :=
        (hinside i segment child _ hchild hfirst).located error herror
      obtain ⟨-, rest', -, hpath'⟩ :=
        (hinside j next other _ hother hsecond).located later hlater
      have hearlier := earlier_of_inside hlt hchild hother
      refine ⟨segment :: rest, next :: rest', ?_, ?_, hearlier.precedes rest rest'⟩
      · rw [hpath, append_child]
      · rw [hpath', append_child]

private theorem exists_groups_of_root {completion : Completion}
    (h : plan.Completes plan.rootPlace [] completion) (hfatal : ¬ completion.IsFatal) :
    ∃ groups, plan.collect plan.rootType.name [plan.operation.selections] = .ok groups ∧
      plan.view plan.rootPlace [] = .fields plan.rootType groups plan.root := by
  have hview : plan.view plan.rootPlace [] =
      plan.levelView plan.rootType [plan.operation.selections] plan.root := rfl
  cases hcollect : plan.collect plan.rootType.name [plan.operation.selections] with
  | error fault =>
    rw [levelView, hcollect] at hview
    rw [h.eq_of_fatal hview] at hfatal
    exact absurd ⟨fault, rfl⟩ hfatal
  | ok groups =>
    rw [levelView, hcollect] at hview
    exact ⟨groups, rfl, hview⟩

private theorem located_below_root {completion : Completion}
    (h : plan.Completes plan.rootPlace [] completion) {groups : List FieldGroup}
    (hview : plan.view plan.rootPlace [] = .fields plan.rootType groups plan.root) :
    ∀ error ∈ completion.errors, ∃ location key rest, error.locations = [location] ∧
      key ∈ groups.map FieldGroup.key ∧ error.path = some (.field key :: rest) := by
  have hinner : (plan.view plan.rootPlace []).isInner = true := by rw [hview, View.isInner]
  obtain ⟨completions, hlength, hinside, rfl⟩ := h.exists_join hinner
  intro error hmem
  rw [Completion.errors_absorb, Completion.errors_join, List.mem_flatMap] at hmem
  obtain ⟨completion, hcompletion, herror⟩ := hmem
  obtain ⟨i, hi⟩ := List.mem_iff_getElem?.1 hcompletion
  obtain ⟨⟨segment, child⟩, hchild⟩ := exists_getElem?_of_length_eq hlength hi
  obtain ⟨group, hgroup, rfl, -⟩ := (getElem?_inside_fields hview).1 hchild
  obtain ⟨location, rest, hlocation, hpath⟩ :=
    (hinside i _ child completion hchild hi).located error herror
  have hkey : group.key ∈ groups.map FieldGroup.key :=
    List.mem_map_of_mem (List.mem_of_getElem? hgroup)
  exact ⟨location, group.key, rest, hlocation, hkey, hpath⟩

/-- The errors of a response stand in depth-first order, the keys of an object in the order in which
they were collected and the items of a list by index, and no error stands at or inside the place of
another. Each of them has one location, and its path starts with a key of the root. -/
theorem errors_ordered_of_execute {schema : ExecutableSchema} {settings : Settings}
    {request : Request} {response : Response}
    (h : (execute schema settings request).value = .ok response) :
    ∃ plan groups, ofRequest schema settings request = .ok plan ∧
      plan.collect plan.rootType.name [plan.operation.selections] = .ok groups ∧
      (∀ error ∈ response.errors, ∃ location key rest, error.locations = [location] ∧
        key ∈ groups.map FieldGroup.key ∧ error.path = some (.field key :: rest)) ∧
      response.errors.Pairwise fun error later =>
        ∃ path path', error.path = some path ∧ later.path = some path' ∧
          (¬ path <+: path' ∧ ¬ path' <+: path) ∧ plan.Precedes plan.rootPlace [] path path' := by
  obtain ⟨plan, completion, data, hplan, hcompletes, houtcome, rfl⟩ :=
    exists_completes_of_execute h
  obtain ⟨groups, hcollect, hview⟩ :=
    exists_groups_of_root hcompletes (Completion.not_isFatal_of_ok houtcome)
  refine ⟨plan, groups, hplan, hcollect, located_below_root hcompletes hview, ?_⟩
  refine hcompletes.errors_pairwise.imp fun {error later} hprecedes => ?_
  obtain ⟨path, path', hpath, hpath', horder⟩ := hprecedes
  exact ⟨path, path', hpath, hpath', horder.not_prefix, horder⟩

end

/-- The request for boxes, with four values that do not fit their fields. -/
def brokenBoxRequest : Request :=
  { boxRequest with
    root := .object [("count", .string "many"),
      ("boxes", .array [.object [("size", .null), ("label", .array [])],
        .object [("size", .number (.int 2)), ("label", .array [])]])] }

def brokenBoxResponse : Response :=
  let refused (message : String) (column : Nat) (path : ResponsePath) : ResponseError :=
    { message, code := .resolverError, locations := [⟨1, column⟩], path := some path }
  { data := some (.object [("count", .null),
      ("boxes", .list [.null, .object [("size", .number (.int 2)), ("label", .null)]])])
    errors := [
      refused "Int cannot represent value: \"many\"" 3 [.field "count"],
      refused "Cannot return null for non-nullable field Box.size." 17
        [.field "boxes", .index 0, .field "size"],
      refused "String cannot represent value: []" 22 [.field "boxes", .index 0, .field "label"],
      refused "String cannot represent value: []" 22 [.field "boxes", .index 1, .field "label"]] }

theorem errors_ordered_brokenBoxResponse :
    (execute boxSchema .default brokenBoxRequest).value = .ok brokenBoxResponse ∧
    ∃ plan groups, ofRequest boxSchema .default brokenBoxRequest = .ok plan ∧
      plan.collect plan.rootType.name [plan.operation.selections] = .ok groups ∧
      (∀ error ∈ brokenBoxResponse.errors, ∃ location key rest, error.locations = [location] ∧
        key ∈ groups.map FieldGroup.key ∧ error.path = some (.field key :: rest)) ∧
      brokenBoxResponse.errors.Pairwise fun error later =>
        ∃ path path', error.path = some path ∧ later.path = some path' ∧
          (¬ path <+: path' ∧ ¬ path' <+: path) ∧ plan.Precedes plan.rootPlace [] path path' := by
  have hexecute : (execute boxSchema .default brokenBoxRequest).value = .ok brokenBoxResponse := rfl
  exact ⟨hexecute, errors_ordered_of_execute hexecute⟩

end Plan

end GraphQuery
