import GraphQuery.Proofs.Completion.Depth
import GraphQuery.Proofs.Completion.InFlight

/-!
# Events of a level

Where in a response the events of a run happen. Main statement: what happens inside an object of
the response, anywhere in a run, is what the completion of the fields of this object makes happen,
however its surroundings are interleaved with it.
-/

namespace GraphQuery

namespace Event

/-- The event happens at a field somewhere inside the path. -/
def Inside (path : ResponsePath) (event : Event) : Prop :=
  ∃ way key, event.path = path ++ way ++ [.field key]

/-- Whether the event happens at a field of the object at the path. -/
def isFieldOf (path : ResponsePath) (event : Event) : Bool :=
  match event.path.getLast? with
  | some (.field _) => event.path.dropLast == path
  | _ => false

variable {path : ResponsePath} {segment : PathSegment} {event : Event}

theorem isFieldOf_iff : event.isFieldOf path = true ↔
    ∃ key, event.path = path.child (.field key) := by
  unfold isFieldOf
  constructor
  · intro h
    split at h
    · next key hlast =>
      have hpath := List.dropLast_append_getLast? _ hlast
      rw [eq_of_beq h] at hpath
      exact ⟨key, hpath.symm⟩
    · cases h
  · intro ⟨key, hpath⟩
    simp [hpath, ResponsePath.child]

theorem inside_of_isFieldOf (h : event.isFieldOf path = true) : event.Inside path := by
  obtain ⟨key, hpath⟩ := isFieldOf_iff.1 h
  exact ⟨[], key, by rw [hpath, List.append_nil, ResponsePath.child]⟩

private theorem Inside.of_append {way : ResponsePath} (h : event.Inside (path ++ way)) :
    event.Inside path := by
  obtain ⟨rest, key, hpath⟩ := h
  exact ⟨way ++ rest, key, by rw [hpath, List.append_assoc path]⟩

private theorem Inside.isPrefix (h : event.Inside path) : path <+: event.path := by
  obtain ⟨way, key, hpath⟩ := h
  rw [hpath, List.append_assoc]
  exact List.prefix_append ..

theorem Inside.depth_lt (h : event.Inside path) : path.depth < event.path.depth := by
  obtain ⟨way, key, hpath⟩ := h
  have hdepth : event.path.depth = path.depth + way.depth + 1 := by
    rw [hpath, ResponsePath.depth, List.countP_append, List.countP_append]
    rfl
  omega

theorem not_inside_self : ¬ event.Inside event.path := by
  intro ⟨way, key, hpath⟩
  have hlength := congrArg List.length hpath
  simp at hlength

end Event

/-- The siblings at each path are gathered within the limit. -/
def Schedule.Gathers (limit : Nat) (schedule : Schedule) : Prop :=
  ∀ path futures, Future.Gathers limit futures [] (schedule path futures)

theorem Schedule.Gathers.confined {limit : Nat} {schedule : Schedule}
    (hschedule : schedule.Gathers limit) : schedule.Confined := by
  intro path futures event hevent
  have hmem := (hschedule path futures).perm_events.mem_iff.1 hevent
  rwa [List.flatMap_nil, List.nil_append, List.mem_flatMap] at hmem

namespace Plan

/-- What the future lets happen inside the object at the path is what the completion of the fields
of the object makes happen. -/
def RunsFields {α : Type} (plan : Plan) (schedule : Schedule) (object : ObjectType)
    (groups : List FieldGroup) (value : Json) (path : ResponsePath) (future : Future Event α) :
    Prop :=
  ∃ depth, (∀ group ∈ groups, ∀ field ∈ group.fields,
      plan.ValidField (fun _ => True) (depth + 1) field) ∧
    ∀ p : Event → Bool, (∀ event, p event = true → event.Inside path) →
      future.events.filter p =
        (plan.completeGroups schedule (plan.levelAt schedule depth) object groups value
          path).events.filter p

/-- The future runs the fields of each object inside the place. -/
def Hosts {α : Type} (plan : Plan) (schedule : Schedule) (place : Place) (path : ResponsePath)
    (future : Future Event α) : Prop :=
  ∀ way inner object groups value, plan.follow place path way = some inner →
    plan.view inner (path ++ way) = .fields object groups value →
    plan.RunsFields schedule object groups value (path ++ way) future

/-- The future runs what is inside the place, and nothing else. -/
structure Runs {α : Type} (plan : Plan) (schedule : Schedule) (place : Place) (path : ResponsePath)
    (future : Future Event α) : Prop where
  inside : ∀ event ∈ future.events, event.Inside path
  hosts : plan.Hosts schedule place path future

/-- The future runs a part of a place, which is a field or an item. -/
structure RunsPart {α : Type} (plan : Plan) (schedule : Schedule) (path : ResponsePath)
    (entry : PathSegment × Place) (future : Future Event α) : Prop where
  inside : ∀ event ∈ future.events, event.Inside path ∧ path.child entry.1 <+: event.path
  hosts : plan.Hosts schedule entry.2 (path.child entry.1) future

/-- The level runs the objects on which selections are made that fit it. -/
def RunsLevel (plan : Plan) (schedule : Schedule) (level : Level) (depth : Nat) : Prop :=
  ∀ place object selections value path, plan.ObjectAt place path object selections value →
    plan.Fits depth selections →
    plan.Runs schedule place path (level object selections value path)

section

variable {plan : Plan} {schedule : Schedule} {α β : Type} {place child : Place}
  {path : ResponsePath} {segment : PathSegment}

private theorem RunsFields.of_filter {object : ObjectType} {groups : List FieldGroup} {value : Json}
    {future : Future Event α} {other : Future Event β}
    (h : plan.RunsFields schedule object groups value path future)
    (hfilter : ∀ p : Event → Bool, (∀ event, p event = true → event.Inside path) →
      other.events.filter p = future.events.filter p) :
    plan.RunsFields schedule object groups value path other := by
  obtain ⟨depth, hvalid, hevents⟩ := h
  exact ⟨depth, hvalid, fun p hp => (hfilter p hp).trans (hevents p hp)⟩

private theorem runs_done (houter : (plan.view place path).isInner = false) (a : α) :
    plan.Runs schedule place path (.done a : Future Event α) := by
  refine ⟨nofun, ?_⟩
  intro way inner object groups value hfollow hview
  cases way with
  | nil =>
    obtain rfl := Option.some.inj hfollow
    rw [List.append_nil] at hview
    rw [hview] at houter
    cases houter
  | cons segment way =>
    rw [follow_cons, Option.bind_eq_some_iff] at hfollow
    obtain ⟨child, hlookup, -⟩ := hfollow
    obtain ⟨i, hi⟩ := getElem?_of_lookup_inside hlookup
    rw [isInner_of_inside hi] at houter
    cases houter

private theorem Runs.of_events {future : Future Event α} {other : Future Event β}
    (h : plan.Runs schedule place path future) (hevents : other.events = future.events) :
    plan.Runs schedule place path other := by
  refine ⟨?_, ?_⟩
  · rw [hevents]
    exact h.inside
  · intro way inner object groups value hfollow hview
    exact (h.hosts way inner object groups value hfollow hview).of_filter fun p _ => by rw [hevents]

private theorem Runs.bind_done {future : Future Event α} (h : plan.Runs schedule place path future)
    (f : α → β) : plan.Runs schedule place path (future.bind fun a => .done (f a)) :=
  h.of_events (by rw [Future.events_bind, Future.events, List.append_nil])

private theorem Runs.item {future : Future Event α}
    (h : plan.Runs schedule child (path.child segment) future) :
    plan.RunsPart schedule path (segment, child) future :=
  ⟨fun event hevent => ⟨(h.inside event hevent).of_append, (h.inside event hevent).isPrefix⟩,
    h.hosts⟩

private theorem inside_of_parts (hschedule : schedule.Gathers plan.limit)
    {entries : List (PathSegment × Place)} {futures : List (Future Event Completion)}
    (hparts : List.Forall₂ (plan.RunsPart schedule path) entries futures) :
    ∀ event ∈ (schedule path futures).events, event.Inside path := by
  intro event hevent
  obtain ⟨future, hfuture, hevent⟩ := hschedule.confined path futures event hevent
  obtain ⟨entry, -, hpart⟩ := exists_of_mem_right hparts hfuture
  exact (hpart.inside event hevent).1

/-- Siblings that run the parts of a place run what is inside the place together: what happens
inside one part happens in one of them only. -/
theorem hosts_of_parts (hschedule : schedule.Gathers plan.limit)
    {futures : List (Future Event Completion)}
    (hparts : List.Forall₂ (plan.RunsPart schedule path) (plan.inside place path) futures)
    (hself : ∀ object groups value, plan.view place path = .fields object groups value →
      plan.RunsFields schedule object groups value path (schedule path futures)) :
    plan.Hosts schedule place path (schedule path futures) := by
  intro way inner object groups value hfollow hview
  cases way with
  | nil =>
    obtain rfl := Option.some.inj hfollow
    rw [List.append_nil] at hview ⊢
    exact hself object groups value hview
  | cons segment way =>
    rw [follow_cons, Option.bind_eq_some_iff] at hfollow
    obtain ⟨child, hlookup, hfollow⟩ := hfollow
    obtain ⟨before, after, hinside, -⟩ := List.lookup_eq_some_iff.1 hlookup
    have hnodup := plan.nodup_segments_inside place path
    rw [hinside] at hparts hnodup
    obtain ⟨before', future, after', rfl, hbefore, hpart, hafter⟩ := exists_split_of_forall₂ hparts
    have hpath : path.child segment ++ way = path ++ segment :: way := by simp [ResponsePath.child]
    rw [← hpath] at hview
    have hfields := hpart.hosts way inner object groups value hfollow hview
    rw [hpath] at hfields
    refine hfields.of_filter fun p hp => (hschedule path _).filter_events ?_
    intro other hother event hevent
    obtain ⟨entry, hentry, hpart'⟩ := exists_of_mem_right (List.rel_append hbefore hafter) hother
    have hne : entry.1 ≠ segment := key_ne_of_nodup hnodup hentry
    rw [← Bool.not_eq_true]
    intro hselected
    have hchild : path.child segment <+: event.path := by
      rw [← hpath] at hp
      exact (hp event hselected).of_append.isPrefix
    have hother := (hpart'.inside event hevent).2
    have heq := List.prefix_of_prefix_length_le hother hchild (by simp [ResponsePath.child])
    have hsame := heq.eq_of_length (by simp [ResponsePath.child])
    exact hne (by simpa [ResponsePath.child] using hsame)

private theorem runs_named {level : Level} {depth : Nat}
    (hlevel : plan.RunsLevel schedule level depth)
    {site : FieldSite} (hfits : plan.Fits depth site.selections) {name : String} {nullable : Bool}
    {value : Json} (hnull : value.isNull = false) (path : ResponsePath) :
    plan.Runs schedule (.value site (.named name nullable) (.ok value)) path
      (plan.completeNamed level site name value path) := by
  have hshows := plan.shows_namedView site name nullable hnull path
  generalize plan.namedView site name value path = view at hshows
  have hview := view_of_shows hshows
  cases hshows with
  | fields hat | uncollected hat =>
    rw [completeNamed_object hat]
    cases hat with
    | object _ hget => exact hlevel _ _ _ _ path (.object hnull hget) hfits
    | abstract _ hget habstract hruntime =>
      exact hlevel _ _ _ _ path (.abstract hnull hget habstract hruntime) hfits
  | null h | nonNull h => exact absurd h (Bool.not_eq_true _ ▸ hnull)
  | unknown _ hget =>
    simp only [completeNamed, hget]
    exact runs_done (hview ▸ rfl) _
  | impossible _ hget habstract hruntime =>
    rw [completeNamed_abstract hget habstract, completeAbstract, hruntime]
    exact runs_done (hview ▸ rfl) _
  | leaf _ hget hleaf hvalue | refused _ hget hleaf hvalue =>
    rw [completeNamed_leaf hget hleaf, hvalue]
    exact runs_done (hview ▸ rfl) _

private theorem runs_null {site : FieldSite} (type : TypeExpr) {value : Json}
    (hnull : value.isNull = true) (path : ResponsePath) :
    plan.Runs schedule (.value site type (.ok value)) path
      (.done (completeNull site type.nullable path) : Future Event Completion) := by
  cases hnullable : type.nullable with
  | true => exact runs_done (view_of_shows (.null hnull hnullable) ▸ rfl) _
  | false => exact runs_done (view_of_shows (.nonNull hnull hnullable) ▸ rfl) _

private theorem runs_value (hschedule : schedule.Gathers plan.limit) {level : Level} {depth : Nat}
    (hlevel : plan.RunsLevel schedule level depth) {site : FieldSite}
    (hfits : plan.Fits depth site.selections) (type : TypeExpr) (value : Json)
    (path : ResponsePath) :
    plan.Runs schedule (.value site type (.ok value)) path
      (plan.completeValue schedule level site type value path) := by
  induction type generalizing value path with
  | named name nullable =>
    rw [completeValue]
    cases hnull : value.isNull with
    | true => exact runs_null (.named name nullable) hnull path
    | false =>
      rw [if_neg Bool.false_ne_true]
      exact (runs_named hlevel hfits hnull path).bind_done _
  | list item nullable ih =>
    rw [completeValue]
    cases hnull : value.isNull with
    | true => exact runs_null (.list item nullable) hnull path
    | false =>
      rw [if_neg Bool.false_ne_true]
      cases hitems : value.items? with
      | none => exact runs_done (view_of_shows (.noItems hnull hitems) ▸ rfl) _
      | some items =>
        have hview : plan.view (.value site (.list item nullable) (.ok value)) path = _ :=
          view_of_shows (.items hnull hitems)
        have hparts : List.Forall₂ (plan.RunsPart schedule path)
            (plan.inside (.value site (.list item nullable) (.ok value)) path)
            (items.mapIdx fun index value =>
              plan.completeValue schedule level site item value (path.child (.index index))) := by
          rw [forall₂_iff_getElem?]
          refine ⟨by simp [inside, hview, children], ?_⟩
          intro i entry future hentry hfuture
          obtain ⟨segment, child⟩ := entry
          obtain ⟨rfl, hplace⟩ := (getElem?_inside_items hview).1 hentry
          rw [List.getElem?_map, Option.map_eq_some_iff] at hplace
          obtain ⟨inner, hinner, rfl⟩ := hplace
          simp only [List.getElem?_mapIdx, hinner, Option.map_some, Option.some.injEq] at hfuture
          exact hfuture ▸ (ih inner (path.child (.index i))).item
        refine Runs.bind_done ⟨inside_of_parts hschedule hparts, ?_⟩ _
        refine hosts_of_parts hschedule hparts fun object groups held hfields => ?_
        cases hview.symm.trans hfields

/-- What happens at the field of a group itself. -/
def ownEvents (plan : Plan) (object : ObjectType) (parent : Json) (path : ResponsePath)
    (group : FieldGroup) : List Event :=
  let path := path.child (.field group.key)
  if group.first.node.name == "__typename" then []
  else
    match object.field? group.first.node.name with
    | none => []
    | some field =>
      .resolving path object.name field.name ::
        match plan.producer object field parent group.first.node path with
        | .error _ => []
        | .ok producer => producer.events

section

variable {object : ObjectType} {field : FieldDefinition} {parent : Json} {group : FieldGroup}

private theorem isInner_ofFault (fault : ExecutionFault) (position : Position) :
    (View.ofFault fault position).isInner = false := by
  unfold View.ofFault
  split <;> rfl

private theorem isInner_fault (site : FieldSite) (type : TypeExpr) (fault : ExecutionFault) :
    (plan.view (.value site type (.error fault)) path).isInner = false :=
  isInner_ofFault fault site.position

private theorem events_resolveTypename (object : ObjectType) (parent : Json) (node : FieldNode)
    (path : ResponsePath) : (plan.resolveTypename object parent node path).events = [] := by
  unfold resolveTypename
  split
  · rfl
  · next producer hproducer =>
    have hempty : producer.events = [] :=
      List.subset_nil.1 (Bindings.events_wrapProducer_subset hproducer)
    rw [Future.events_bind, hempty]
    rfl

private theorem isInner_typename (object : String) (position : Position)
    (produced : Except ExecutionFault Json) :
    (plan.view (.typename object position produced) path).isInner = false := by
  cases produced with
  | error fault => exact isInner_ofFault fault position
  | ok value =>
    rw [view]
    unfold typenameView
    split <;> rfl

/-- A field makes its own events happen, and then it runs what is inside its value. -/
theorem exists_events_resolveField (hschedule : schedule.Gathers plan.limit) {level : Level}
    {depth : Nat} (hlevel : plan.RunsLevel schedule level depth)
    (hfits : plan.Fits depth group.selections) (object : ObjectType) (parent : Json)
    (path : ResponsePath) :
    ∃ completion : Future Event Completion,
      (plan.resolveField schedule level object parent path group).events =
        plan.ownEvents object parent path group ++ completion.events ∧
      plan.Runs schedule (plan.placeOf object parent path group) (path.child (.field group.key))
        completion := by
  by_cases hname : group.first.node.name = "__typename"
  · simp only [resolveField, ownEvents, hname, beq_self_eq_true, if_true, placeOf_typename]
    refine ⟨.done (.ok .null), ?_, runs_done (isInner_typename ..) _⟩
    rw [events_resolveTypename]
    rfl
  cases hfield : object.field? group.first.node.name with
  | none =>
    simp only [resolveField, ownEvents, beq_iff_eq, hname, if_false, hfield]
    rw [placeOf_undefined hname hfield]
    exact ⟨.done (.ok .null), rfl, runs_done rfl _⟩
  | some field =>
    rw [placeOf_field hname hfield, answer_of_producer (path.child (.field group.key))]
    simp only [resolveField, ownEvents, beq_iff_eq, hname, if_false, hfield]
    cases plan.producer object field parent group.first.node (path.child (.field group.key)) with
    | error fault => exact ⟨.done (.ok .null), rfl, runs_done (isInner_fault ..) _⟩
    | ok producer =>
      simp only [Functor.map, Except.map, bind, Except.bind, Future.events, Future.events_bind]
      cases producer.value with
      | error fault => exact ⟨.done (.ok .null), rfl, runs_done (isInner_fault ..) _⟩
      | ok value => exact ⟨_, rfl, runs_value hschedule hlevel hfits field.type value _⟩

private theorem events_producer {node : FieldNode} {producer : Producer}
    (h : plan.producer object field parent node path = .ok producer) :
    producer.events = [] ∨ ∃ arguments,
      producer.events = (plan.resolve object field parent arguments path).events := by
  rw [Plan.producer, bind_eq_ok_iff] at h
  obtain ⟨arguments, -, hwrapped⟩ := h
  rcases Bindings.events_wrapProducer hwrapped with hevents | hevents
  · exact .inr ⟨arguments, hevents⟩
  · exact .inl hevents

private theorem events_resolve (arguments : ArgumentValues) :
    (plan.resolve object field parent arguments path).events = [] ∨
      (plan.resolve object field parent arguments path).events =
        [.started path object.name { fieldName := field.name, parent, arguments },
          .finished path object.name field.name] := by
  unfold resolve
  cases plan.schema.resolvers object.name field.name with
  | parent => exact .inl rfl
  | custom answer =>
    right
    simp only [Future.events, Future.events_pending]

private theorem ownEvents_cases (object : ObjectType) (parent : Json) (path : ResponsePath)
    (group : FieldGroup) :
    plan.ownEvents object parent path group = [] ∨ ∃ field : FieldDefinition,
      plan.ownEvents object parent path group =
        [.resolving (path.child (.field group.key)) object.name field.name] ∨
      ∃ arguments, plan.ownEvents object parent path group =
        [.resolving (path.child (.field group.key)) object.name field.name,
          .started (path.child (.field group.key)) object.name
            { fieldName := field.name, parent, arguments },
          .finished (path.child (.field group.key)) object.name field.name] := by
  unfold ownEvents
  dsimp only
  split
  · exact .inl rfl
  · split
    · exact .inl rfl
    · next field _ =>
      refine .inr ⟨field, ?_⟩
      split
      · exact .inl rfl
      · next producer hproducer =>
        rcases events_producer hproducer with hevents | ⟨arguments, hevents⟩
        · exact .inl (congrArg _ hevents)
        · rcases @events_resolve plan _ object field parent arguments with hnone | hresolve
          · exact .inl (congrArg _ (hevents.trans hnone))
          · exact .inr ⟨arguments, congrArg _ (hevents.trans hresolve)⟩

theorem solo_ownEvents (object : ObjectType) (parent : Json) (path : ResponsePath)
    (group : FieldGroup) : Event.Solo false (plan.ownEvents object parent path group) := by
  rcases plan.ownEvents_cases object parent path group with h | ⟨field, h | ⟨arguments, h⟩⟩
  · exact h ▸ .nil
  · exact h ▸ .resolving .nil
  · exact h ▸ .resolving (.started (.finished .nil))

theorem path_of_mem_ownEvents {event : Event}
    (h : event ∈ plan.ownEvents object parent path group) :
    event.path = path.child (.field group.key) := by
  rcases plan.ownEvents_cases object parent path group with hown | ⟨field, hown | ⟨_, hown⟩⟩
  · rw [hown] at h
    cases h
  · rw [hown, List.mem_singleton] at h
    exact h ▸ rfl
  · rw [hown] at h
    rcases h with _ | ⟨_, _ | ⟨_, _ | ⟨_, h⟩⟩⟩
    · rfl
    · rfl
    · rfl
    · cases h

theorem runsPart_resolveField (hschedule : schedule.Gathers plan.limit) {level : Level}
    {depth : Nat} (hlevel : plan.RunsLevel schedule level depth)
    (hfits : plan.Fits depth group.selections) (object : ObjectType) (parent : Json)
    (path : ResponsePath) :
    plan.RunsPart schedule path (.field group.key, plan.placeOf object parent path group)
      (plan.resolveField schedule level object parent path group) := by
  obtain ⟨completion, hevents, hruns⟩ :=
    exists_events_resolveField hschedule hlevel hfits object parent path
  refine ⟨?_, ?_⟩
  · intro event hevent
    rw [hevents, List.mem_append] at hevent
    rcases hevent with hown | hevent
    · have hpath := path_of_mem_ownEvents hown
      exact ⟨⟨[], group.key, by rw [hpath, List.append_nil, ResponsePath.child]⟩,
        hpath ▸ List.prefix_refl _⟩
    · have hinside := hruns.inside event hevent
      exact ⟨hinside.of_append, hinside.isPrefix⟩
  · intro way inner object' groups value hfollow hview
    refine (hruns.hosts way inner object' groups value hfollow hview).of_filter fun p hp => ?_
    have hown : (plan.ownEvents object parent path group).filter p = [] := by
      rw [List.filter_eq_nil_iff]
      intro event hevent hselected
      have hinside := (hp event hselected).of_append
      rw [← path_of_mem_ownEvents hevent] at hinside
      exact Event.not_inside_self hinside
    rw [hevents, List.filter_append, hown, List.nil_append]

end

theorem events_completeGroups {level : Level} (object : ObjectType) (groups : List FieldGroup)
    (value : Json) (path : ResponsePath) :
    (plan.completeGroups schedule level object groups value path).events =
      (schedule path (groups.map (plan.resolveField schedule level object value path))).events := by
  rw [completeGroups, Future.events_bind, Future.events, List.append_nil]

private theorem runs_siblings (hschedule : schedule.Gathers plan.limit) {depth : Nat}
    {object : ObjectType}
    {groups : List FieldGroup} {value : Json}
    (hview : plan.view place path = .fields object groups value)
    (hvalid : ∀ group ∈ groups, ∀ field ∈ group.fields,
      plan.ValidField (fun _ => True) (depth + 1) field)
    (hparts : ∀ group ∈ groups, plan.RunsPart schedule path
      (.field group.key, plan.placeOf object value path group)
      (plan.resolveField schedule (plan.levelAt schedule depth) object value path group)) :
    plan.Runs schedule place path
      (plan.completeGroups schedule (plan.levelAt schedule depth) object groups value path) := by
  have hparts : List.Forall₂ (plan.RunsPart schedule path) (plan.inside place path)
      (groups.map
        (plan.resolveField schedule (plan.levelAt schedule depth) object value path)) := by
    rw [inside, hview, children, List.forall₂_map_left_iff, List.forall₂_map_right_iff,
      List.forall₂_same]
    exact hparts
  refine Runs.of_events ⟨inside_of_parts hschedule hparts, ?_⟩ (events_completeGroups ..)
  refine hosts_of_parts hschedule hparts fun object' groups' value' hview' => ?_
  obtain ⟨rfl, rfl, rfl⟩ := View.fields.inj (hview.symm.trans hview')
  exact ⟨depth, hvalid, fun p _ => by rw [events_completeGroups]⟩

theorem runsLevel_levelAt (hschedule : schedule.Gathers plan.limit) (depth : Nat) :
    plan.RunsLevel schedule (plan.levelAt schedule depth) depth := by
  induction depth with
  | zero =>
    intro place object selections value path hat hfits
    have hview := view_of_shows (.fields hat (collect_of_fits_zero object.name hfits))
    have hnone : plan.Runs schedule place path
        (plan.completeGroups schedule (plan.levelAt schedule 0) object [] value path) :=
      runs_siblings hschedule hview nofun nofun
    refine hnone.of_events ?_
    rw [events_completeGroups]
    exact (hschedule path []).perm_events.eq_nil.symm
  | succ depth ih =>
    intro place object selections value path hat hfits
    obtain ⟨groups, hcollect, hvalid⟩ := collect_of_fits object.name hfits
    have hview := view_of_shows (.fields hat hcollect)
    rw [levelAt, levelWith, hcollect]
    refine runs_siblings hschedule hview hvalid fun group hgroup => ?_
    exact runsPart_resolveField hschedule ih (fits_selections (hvalid group hgroup)) ..

/-- The run of an accepted plan runs what is inside the response. -/
theorem runs_runUnder (hschedule : schedule.Gathers plan.limit) (haccepted : plan.Accepted) :
    plan.Runs schedule plan.rootPlace [] (plan.runUnder schedule) := by
  rw [runUnder_eq haccepted.root]
  exact (runsLevel_levelAt hschedule plan.depth _ _ _ _ [] .level
    (fits_operation haccepted)).bind_done respond

end

end Plan

end GraphQuery
