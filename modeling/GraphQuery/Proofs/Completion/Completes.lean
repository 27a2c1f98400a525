import GraphQuery.Proofs.Binding.Answers
import GraphQuery.Proofs.Completion.Outcome
import GraphQuery.Proofs.Completion.Place

/-!
# Completed places

What a run makes of a place, as a relation without levels, futures and limits. Main statement: the
run of an accepted plan completes the root, and the places of the response below it.
-/

namespace GraphQuery

/-- Siblings that run together have the values that each of them has alone. -/
def Schedule.Ordered (schedule : Schedule) : Prop :=
  ∀ path futures, (schedule path futures).value = futures.map Future.value

namespace Plan

/-- The completion of a place at a path, from the completions of the places inside it. -/
inductive Completes (plan : Plan) : Place → ResponsePath → Completion → Prop
  | value {place path value} (hview : plan.view place path = .value value) :
      Completes plan place path (.ok value)
  | failed {place path failure} (hview : plan.view place path = .failed failure) :
      Completes plan place path ((Completion.failed (failure.error path)).absorb place.nullable)
  | fatal {place path fault} (hview : plan.view place path = .fatal fault) :
      Completes plan place path (.fatal fault)
  | inner {place} {path : ResponsePath} {completions : List Completion}
      (hinner : (plan.view place path).isInner = true)
      (hlength : completions.length = (plan.inside place path).length)
      (hinside : ∀ (i : Nat) segment child completion,
        (plan.inside place path)[i]? = some (segment, child) → completions[i]? = some completion →
        Completes plan child (path.child segment) completion) :
      Completes plan place path
        ((Completion.join (plan.view place path).build completions).absorb place.nullable)

section

variable {plan : Plan}

theorem Completes.not_propagates {place : Place} {path : ResponsePath} {completion : Completion}
    (h : plan.Completes place path completion) (hnullable : place.nullable = true) :
    ¬ completion.Propagates := by
  intro hpropagates
  cases h with
  | value | fatal => cases hpropagates
  | failed | inner =>
    rw [Completion.propagates_absorb_iff, hnullable] at hpropagates
    cases hpropagates.2

theorem Completes.eq_of_value {place : Place} {path : ResponsePath} {completion : Completion}
    {value : Value} (h : plan.Completes place path completion)
    (hview : plan.view place path = .value value) : completion = .ok value := by
  cases h with
  | value hview' => rw [View.value.inj (hview'.symm.trans hview)]
  | failed hview' | fatal hview' => cases hview'.symm.trans hview
  | inner hinner =>
    rw [hview] at hinner
    cases hinner

theorem Completes.eq_of_failed {place : Place} {path : ResponsePath} {completion : Completion}
    {failure : Failure} (h : plan.Completes place path completion)
    (hview : plan.view place path = .failed failure) :
    completion = (Completion.failed (failure.error path)).absorb place.nullable := by
  cases h with
  | failed hview' => rw [View.failed.inj (hview'.symm.trans hview)]
  | value hview' | fatal hview' => cases hview'.symm.trans hview
  | inner hinner =>
    rw [hview] at hinner
    cases hinner

theorem Completes.eq_of_fatal {place : Place} {path : ResponsePath} {completion : Completion}
    {fault : ExecutionFault} (h : plan.Completes place path completion)
    (hview : plan.view place path = .fatal fault) : completion = .fatal fault := by
  cases h with
  | fatal hview' => rw [View.fatal.inj (hview'.symm.trans hview)]
  | value hview' | failed hview' => cases hview'.symm.trans hview
  | inner hinner =>
    rw [hview] at hinner
    cases hinner

theorem Completes.exists_join {place : Place} {path : ResponsePath} {completion : Completion}
    (h : plan.Completes place path completion) (hinner : (plan.view place path).isInner = true) :
    ∃ completions : List Completion, completions.length = (plan.inside place path).length ∧
      (∀ (i : Nat) segment child completion, (plan.inside place path)[i]? = some (segment, child) →
        completions[i]? = some completion →
        plan.Completes child (path.child segment) completion) ∧
      completion = (Completion.join (plan.view place path).build completions).absorb
        place.nullable := by
  cases h with
  | inner _ hlength hinside => exact ⟨_, hlength, hinside, rfl⟩
  | value hview | failed hview | fatal hview =>
    rw [hview] at hinner
    cases hinner

theorem isInner_of_inside {place child : Place} {path : ResponsePath} {segment : PathSegment}
    {i : Nat} (h : (plan.inside place path)[i]? = some (segment, child)) :
    (plan.view place path).isInner = true := by
  cases hview : plan.view place path with
  | items | fields => rfl
  | value | failed | fatal =>
    rw [inside, hview] at h
    cases h

/-- A place below is completed as a part of the whole: its errors are recorded, and it is not fatal
alone. -/
theorem Completes.exists_below {place inner : Place} {path rest : ResponsePath}
    {completion : Completion} (h : plan.Completes place path completion)
    (hfollow : plan.follow place path rest = some inner) :
    ∃ below, plan.Completes inner (path ++ rest) below ∧ below.errors ⊆ completion.errors ∧
      (below.IsFatal → completion.IsFatal) := by
  induction rest generalizing place path completion with
  | nil =>
    obtain rfl := Option.some.inj hfollow
    rw [List.append_nil]
    exact ⟨completion, h, fun _ => id, id⟩
  | cons segment rest ih =>
    rw [follow_cons, Option.bind_eq_some_iff] at hfollow
    obtain ⟨child, hlookup, hfollow⟩ := hfollow
    obtain ⟨i, hi⟩ := getElem?_of_lookup_inside hlookup
    obtain ⟨completions, hlength, hinside, rfl⟩ := h.exists_join (isInner_of_inside hi)
    obtain ⟨completion, hcompletion⟩ := exists_getElem?_of_length_eq hlength.symm hi
    have hmem := List.mem_of_getElem? hcompletion
    obtain ⟨below, hbelow, herrors, hfatal⟩ :=
      ih (hinside i segment child completion hi hcompletion) hfollow
    rw [ResponsePath.child, List.append_assoc, List.singleton_append] at hbelow
    refine ⟨below, hbelow, fun error herror => ?_, fun hbelow => ?_⟩
    · rw [Completion.errors_absorb, Completion.errors_join]
      exact List.mem_flatMap.2 ⟨completion, hmem, herrors herror⟩
    · rw [Completion.isFatal_absorb_iff, Completion.join_isFatal_iff]
      exact ⟨completion, hmem, hfatal hbelow⟩

theorem completes_of_inner {place : Place} {path : ResponsePath} {view : View}
    (hview : plan.view place path = view) (hinner : view.isInner = true)
    {completions : List Completion} (hlength : completions.length = (plan.inside place path).length)
    (hinside : ∀ (i : Nat) segment child completion,
      (plan.inside place path)[i]? = some (segment, child) → completions[i]? = some completion →
      plan.Completes child (path.child segment) completion) :
    plan.Completes place path
      ((Completion.join view.build completions).absorb place.nullable) := by
  subst hview
  exact .inner hinner hlength hinside

/-- A place has one completion. -/
theorem Completes.eq {place : Place} {path : ResponsePath} {completion completion' : Completion}
    (h : plan.Completes place path completion) (h' : plan.Completes place path completion') :
    completion' = completion := by
  induction h generalizing completion' with
  | value hview => exact h'.eq_of_value hview
  | failed hview => exact h'.eq_of_failed hview
  | fatal hview => exact h'.eq_of_fatal hview
  | @inner place path completions hinner hlength hinside ih =>
    obtain ⟨completions', hlength', hinside', rfl⟩ := h'.exists_join hinner
    have heq : completions' = completions := by
      refine List.ext_getElem? fun i => ?_
      by_cases hi : i < (plan.inside place path).length
      · obtain ⟨⟨segment, child⟩, hchild⟩ : ∃ entry, (plan.inside place path)[i]? = some entry :=
          ⟨_, List.getElem?_eq_getElem hi⟩
        obtain ⟨inner, hcompletion⟩ := exists_getElem?_of_length_eq hlength.symm hchild
        obtain ⟨inner', hcompletion'⟩ := exists_getElem?_of_length_eq hlength'.symm hchild
        have hinner' := hinside' i segment child inner' hchild hcompletion'
        rw [hcompletion, hcompletion', ih i segment child inner hchild hcompletion hinner']
      · rw [List.getElem?_eq_none (by omega), List.getElem?_eq_none (by omega)]
    rw [heq]

/-- What a plan completes, a plan that shows the same from there on completes alike. -/
theorem Completes.transfer {other : Plan} (known : Place → Prop)
    (hview : ∀ place path, known place → other.view place path = plan.view place path)
    (hinside : ∀ place path, known place → other.inside place path = plan.inside place path)
    (hleads : ∀ place path child, known place → plan.Leads place path child → known child)
    {place : Place} {path : ResponsePath} {completion : Completion}
    (h : plan.Completes place path completion)
    (hknown : known place) : other.Completes place path completion := by
  induction h with
  | value hshown => exact .value ((hview _ _ hknown).trans hshown)
  | failed hshown => exact .failed ((hview _ _ hknown).trans hshown)
  | fatal hshown => exact .fatal ((hview _ _ hknown).trans hshown)
  | @inner place path completions hinner hlength _ ih =>
    have hsame := hinside place path hknown
    rw [← hview place path hknown] at hinner ⊢
    refine .inner hinner (hlength.trans (congrArg List.length hsame.symm)) ?_
    intro i segment child completion hchild hcompletion
    rw [hsame] at hchild
    exact ih i segment child completion hchild hcompletion
      (hleads place path child hknown (leads_of_inside hchild))

private theorem value_resolve {object : ObjectType} {field : FieldDefinition} {parent : Json}
    {arguments : ArgumentValues} (path : ResponsePath) :
    (plan.resolve object field parent arguments path).value =
      (plan.schema.resolvers object.name field.name).answer path
        { fieldName := field.name, parent, arguments } := by
  unfold resolve Resolver.answer
  cases plan.schema.resolvers object.name field.name with
  | parent => rfl
  | custom answer => simp [Future.value]

theorem map_value_producer {object : ObjectType} {field : FieldDefinition} {parent : Json}
    {node : FieldNode} (path : ResponsePath) :
    Future.value <$> plan.producer object field parent node path = (do
      let arguments ← plan.bindArguments field.arguments node.arguments
      let old := (plan.schema.resolvers object.name field.name).answer path
        { fieldName := field.name, parent, arguments }
      (BoundDirective.answers parent · old) <$> plan.bindDirectives .field node.directives) := by
  rw [producer, map_bind]
  refine bind_congr fun arguments => ?_
  rw [Bindings.map_value_wrapProducer, value_resolve]

theorem answer_of_producer {object : ObjectType} {field : FieldDefinition} {parent : Json}
    {node : FieldNode} (path : ResponsePath) :
    plan.answer object field parent node path = (do
      (← Future.value <$> plan.producer object field parent node path).mapError .resolver) := by
  unfold answer
  cases plan.producer object field parent node path <;> rfl

theorem ordered_gather (buffering : Future.Buffering ResponsePath Event Completion) :
    Schedule.Ordered (buffering.gather plan.limit) :=
  fun path futures => buffering.value_gather path futures (Nat.le_max_right _ 1)

/-- The selections are valid up to a depth, whatever they are selected on. -/
def Fits (plan : Plan) (depth : Nat) (selections : List (List Selection)) : Prop :=
  ∀ list ∈ selections, ∃ parent, ∀ selection ∈ list, plan.Valid parent depth selection

/-- The level completes the objects on which selections are made that fit it. -/
def Sound (plan : Plan) (level : Level) (depth : Nat) : Prop :=
  ∀ place object selections value path, plan.ObjectAt place path object selections value →
    plan.Fits depth selections →
    plan.Completes place path ((level object selections value path).value.absorb place.nullable)

private theorem completes_of_ofFault (place : Place) {path : ResponsePath} {fault : ExecutionFault}
    {position : Position} (hview : plan.view place path = .ofFault fault position) :
    plan.Completes place path (.ofFault fault place.nullable position path) := by
  unfold View.ofFault at hview
  unfold Completion.ofFault
  by_cases hfatal : fault.isFatal = true
  · rw [if_pos hfatal] at hview ⊢
    exact .fatal hview
  · rw [if_neg hfatal] at hview ⊢
    exact .failed hview

private theorem completes_null {site : FieldSite} (type : TypeExpr) {value : Json}
    (hnull : value.isNull = true) (path : ResponsePath) :
    plan.Completes (.value site type (.ok value)) path
      (completeNull site type.nullable path) := by
  unfold completeNull
  cases hnullable : type.nullable with
  | true => exact .value (view_of_shows (.null hnull hnullable))
  | false =>
    have h : plan.Completes (.value site type (.ok value)) path _ :=
      .failed (view_of_shows (.nonNull hnull hnullable))
    rwa [Place.nullable, hnullable] at h

theorem completeNamed_abstract {level : Level} {site : FieldSite} {name : String}
    {type : TypeDefinition} {value : Json} {path : ResponsePath}
    (hget : plan.system.get? name = some type) (habstract : type.isAbstract = true) :
    plan.completeNamed level site name value path =
      plan.completeAbstract level site type value path := by
  unfold completeNamed
  cases type with
  | object | enum | scalar => cases habstract
  | interface | union => simp only [hget, habstract, if_true]

theorem completeNamed_leaf {level : Level} {site : FieldSite} {name : String}
    {type : TypeDefinition} {value : Json} {path : ResponsePath}
    (hget : plan.system.get? name = some type) (hleaf : type.isLeaf = true) :
    plan.completeNamed level site name value path =
      match plan.schema.leaf type value with
      | .ok value => .done (.ok value)
      | .error message => .done (site.failed message path) := by
  cases type with
  | object | interface | union => cases hleaf
  | enum | scalar =>
    rw [completeNamed, hget]
    rfl

theorem completeNamed_object {level : Level} {site : FieldSite} {name : String}
    {nullable : Bool} {object : ObjectType} {selections : List (List Selection)}
    {value held : Json} {path : ResponsePath}
    (hat : plan.ObjectAt (.value site (.named name nullable) (.ok value)) path object selections
      held) :
    plan.completeNamed level site name value path = level object selections held path := by
  cases hat with
  | object _ hget => simp only [completeNamed, hget]
  | abstract _ hget habstract hruntime =>
    rw [completeNamed_abstract hget habstract, completeAbstract, hruntime]

private theorem completes_named {level : Level} {depth : Nat} (hlevel : plan.Sound level depth)
    {site : FieldSite} (hfits : plan.Fits depth site.selections) {name : String}
    {nullable : Bool} {value : Json} (hnull : value.isNull = false) (path : ResponsePath) :
    plan.Completes (.value site (.named name nullable) (.ok value)) path
      ((plan.completeNamed level site name value path).value.absorb nullable) := by
  have hshows := plan.shows_namedView site name nullable hnull path
  generalize plan.namedView site name value path = view at hshows
  have hview := view_of_shows hshows
  cases hshows with
  | fields hat | uncollected hat =>
    rw [completeNamed_object hat]
    cases hat with
    | object _ hget => exact hlevel _ _ _ _ path (.object hnull hget) hfits
    | abstract _ hget habstract hruntime =>
      exact hlevel _ _ _ _ path (.abstract hnull hget habstract hruntime) hfits
  | null h | nonNull h => exact absurd h (Bool.not_eq_true _ ▸ hnull)
  | unknown _ hget =>
    simp only [completeNamed, hget]
    exact .fatal hview
  | impossible _ hget habstract hruntime =>
    rw [completeNamed_abstract hget habstract, completeAbstract, hruntime]
    exact .failed hview
  | leaf _ hget hleaf hvalue =>
    rw [completeNamed_leaf hget hleaf, hvalue]
    exact .value hview
  | refused _ hget hleaf hvalue =>
    rw [completeNamed_leaf hget hleaf, hvalue]
    exact .failed hview

private theorem isNull_of_items {value : Json} {items : List Json}
    (hitems : value.items? = some items) :
    value.isNull = false := by
  cases value with
  | null => cases hitems
  | bool | number | string | array | object => rfl

theorem value_completeValue_items {schedule : Schedule} (hschedule : schedule.Ordered)
    (level : Level) (site : FieldSite) (item : TypeExpr) (nullable : Bool) {value : Json}
    {items : List Json} (hitems : value.items? = some items) (path : ResponsePath) :
    (plan.completeValue schedule level site (.list item nullable) value path).value =
      Completion.absorb nullable (.ofItems (items.mapIdx fun index value =>
        (plan.completeValue schedule level site item value
          (path.child (.index index))).value)) := by
  have hvalues (f : Nat → Json → Future Event Completion) :
      (items.mapIdx f).map Future.value = items.mapIdx fun index value => (f index value).value :=
    List.ext_getElem? fun index => by
      rw [List.getElem?_map, List.getElem?_mapIdx, List.getElem?_mapIdx, Option.map_map]
      rfl
  rw [completeValue, if_neg (by simp [isNull_of_items hitems]), hitems]
  simp only [Future.value_bind, hschedule _ _, hvalues]
  rfl

private theorem completes_value {schedule : Schedule} (hschedule : schedule.Ordered) {level : Level}
    {depth : Nat} (hlevel : plan.Sound level depth)
    {site : FieldSite} (hfits : plan.Fits depth site.selections) (type : TypeExpr) (value : Json)
    (path : ResponsePath) :
    plan.Completes (.value site type (.ok value)) path
      (plan.completeValue schedule level site type value path).value := by
  induction type generalizing value path with
  | named name nullable =>
    rw [completeValue]
    cases hnull : value.isNull with
    | true => exact completes_null (.named name nullable) hnull path
    | false =>
      rw [if_neg Bool.false_ne_true, Future.value_bind]
      exact completes_named hlevel hfits hnull path
  | list item nullable ih =>
    cases hitems : value.items? with
    | none =>
      rw [completeValue, hitems]
      cases hnull : value.isNull with
      | true => exact completes_null (.list item nullable) hnull path
      | false => exact .failed (view_of_shows (.noItems hnull hitems))
    | some items =>
      have hview : plan.view (.value site (.list item nullable) (.ok value)) path = _ :=
        view_of_shows (.items (isNull_of_items hitems) hitems)
      rw [value_completeValue_items hschedule level site item nullable hitems]
      refine completes_of_inner hview rfl (by simp [inside, hview, children])
        fun i segment child completion hentry hi => ?_
      obtain ⟨rfl, hchild⟩ := (getElem?_inside_items hview).1 hentry
      rw [List.getElem?_map, Option.map_eq_some_iff] at hchild
      obtain ⟨inner, hinner, rfl⟩ := hchild
      rw [List.getElem?_mapIdx, hinner, Option.map_some] at hi
      exact Option.some.inj hi ▸ ih inner (path.child (.index i))

private theorem completes_typename {object : ObjectType} {parent : Json} {node : FieldNode}
    (path : ResponsePath) :
    plan.Completes (.typename object.name node.position (plan.typenameAnswer object parent node))
      path (plan.resolveTypename object parent node path).value := by
  unfold resolveTypename typenameAnswer
  cases plan.wrapProducer (.done (.ok (.string object.name))) parent node.directives with
  | error fault => exact completes_of_ofFault (.typename ..) rfl
  | ok producer =>
    simp only [Future.value_bind, bind, Except.bind]
    cases producer.value with
    | error fault => exact completes_of_ofFault (.typename ..) rfl
    | ok value =>
      simp only [Except.mapError]
      by_cases hstring : ∃ name, value = .string name
      · obtain ⟨name, rfl⟩ := hstring
        exact .value rfl
      · have h : plan.Completes (.typename object.name node.position (.ok value)) path _ :=
          .failed (view_of_shows (.noTypename fun name heq => hstring ⟨name, heq⟩))
        split
        · next heq => cases heq
        · next heq => exact absurd ⟨_, Except.ok.inj heq⟩ hstring
        · next heq => exact Except.ok.inj heq ▸ h

private theorem completes_produced {schedule : Schedule} (hschedule : schedule.Ordered)
    {level : Level}
    {depth : Nat} (hlevel : plan.Sound level depth)
    (site : FieldSite) (hfits : plan.Fits depth site.selections) (type : TypeExpr)
    (produced : Except ExecutionFault Producer) (path : ResponsePath) :
    plan.Completes
      (.value site type (do (← Future.value <$> produced).mapError .resolver)) path
      (match produced with
        | .error fault => .ofFault fault type.nullable site.position path
        | .ok producer =>
          match producer.value with
          | .error fault => .ofFault (.resolver fault) type.nullable site.position path
          | .ok value => (plan.completeValue schedule level site type value path).value) := by
  cases produced with
  | error fault => exact completes_of_ofFault (.value site type (.error fault)) rfl
  | ok producer =>
    simp only [Functor.map, Except.map, bind, Except.bind]
    cases producer.value with
    | error fault =>
      exact completes_of_ofFault (.value site type (.error (.resolver fault))) rfl
    | ok value => exact completes_value hschedule hlevel hfits type value path

theorem value_resolveField {schedule : Schedule} {level : Level} {object : ObjectType}
    {parent : Json}
    {path : ResponsePath} {group : FieldGroup} {field : FieldDefinition}
    (hname : group.first.node.name ≠ "__typename")
    (hfield : object.field? group.first.node.name = some field) :
    (plan.resolveField schedule level object parent path group).value =
      match plan.producer object field parent group.first.node (path.child (.field group.key)) with
      | .error fault =>
        .ofFault fault field.type.nullable group.first.node.position
          (path.child (.field group.key))
      | .ok producer =>
        match producer.value with
        | .error fault =>
          .ofFault (.resolver fault) field.type.nullable group.first.node.position
            (path.child (.field group.key))
        | .ok value =>
          (plan.completeValue schedule level
            { object := object.name
              field := field.name
              position := group.first.node.position
              selections := group.selections }
            field.type value (path.child (.field group.key))).value := by
  unfold resolveField
  simp only [beq_iff_eq, hname, hfield, if_false, Future.value]
  cases plan.producer object field parent group.first.node (path.child (.field group.key)) with
  | error fault => rfl
  | ok producer =>
    simp only [Future.value_bind]
    cases producer.value <;> rfl

private theorem completes_field {schedule : Schedule} (hschedule : schedule.Ordered) {level : Level}
    {depth : Nat} (hlevel : plan.Sound level depth)
    {object : ObjectType} {parent : Json} {group : FieldGroup}
    (hfits : plan.Fits depth group.selections) (path : ResponsePath) :
    plan.Completes (plan.placeOf object parent path group) (path.child (.field group.key))
      (plan.resolveField schedule level object parent path group).value := by
  by_cases hname : group.first.node.name = "__typename"
  · rw [placeOf_typename hname]
    simp only [resolveField, hname, beq_self_eq_true, if_true]
    exact completes_typename _
  · cases hfield : object.field? group.first.node.name with
    | none =>
      rw [placeOf_undefined hname hfield]
      simp only [resolveField, beq_iff_eq, hname, if_false, hfield]
      exact .fatal rfl
    | some field =>
      rw [placeOf_field hname hfield, value_resolveField hname hfield,
        answer_of_producer (path.child (.field group.key))]
      exact completes_produced hschedule hlevel ⟨object.name, field.name, group.first.node.position,
        group.selections⟩ hfits field.type _ _

theorem fits_selections {depth : Nat} {group : FieldGroup}
    (h : ∀ field ∈ group.fields, plan.ValidField (fun _ => True) (depth + 1) field) :
    plan.Fits depth group.selections := by
  intro list hlist
  obtain ⟨field, hfield, rfl⟩ := List.mem_map.1 hlist
  obtain ⟨parent, -, hvalid⟩ := h field hfield
  obtain ⟨node, selections⟩ := field
  cases hvalid with
  | typename | leaf => exact ⟨parent, by simp⟩
  | @composite _ _ _ _ _ type _ _ _ _ _ _ _ hall => exact ⟨type, hall⟩

theorem valid_of_fits {depth : Nat} {selections : List (List Selection)}
    (hfits : plan.Fits depth selections) :
    ∀ list ∈ selections, ∀ selection ∈ list, ∃ parent depth, plan.Valid parent depth selection := by
  intro list hlist selection hmem
  obtain ⟨parent, hall⟩ := hfits list hlist
  exact ⟨parent, depth, hall selection hmem⟩

theorem collect_of_fits {depth : Nat} (object : String) {selections : List (List Selection)}
    (hfits : plan.Fits depth selections) :
    ∃ groups, plan.collect object selections = .ok groups ∧
      ∀ group ∈ groups, ∀ field ∈ group.fields,
        plan.ValidField (fun _ => True) depth field := by
  refine Scope.exists_collect_eq_ok (fun _ _ _ _ => trivial) fun list hlist => ?_
  obtain ⟨parent, hall⟩ := hfits list hlist
  exact ⟨parent, trivial, hall⟩

theorem collect_of_fits_zero (object : String) {selections : List (List Selection)}
    (hfits : plan.Fits 0 selections) : plan.collect object selections = .ok [] := by
  obtain ⟨groups, hcollect, hfields⟩ := collect_of_fits object hfits
  cases groups with
  | nil => exact hcollect
  | cons group rest =>
    obtain ⟨parent, -, hvalid⟩ := hfields group List.mem_cons_self group.first List.mem_cons_self
    exact absurd hvalid Scope.not_valid_zero_field

private theorem completes_groups {schedule : Schedule} (hschedule : schedule.Ordered)
    {level : Level}
    {depth : Nat} (hlevel : plan.Sound level depth)
    {place : Place} {path : ResponsePath} {object : ObjectType} {groups : List FieldGroup}
    {value : Json} (hview : plan.view place path = .fields object groups value)
    (hfits : ∀ group ∈ groups, plan.Fits depth group.selections) :
    plan.Completes place path
      ((plan.completeGroups schedule level object groups value path).value.absorb
        place.nullable) := by
  unfold completeGroups
  simp only [Future.value_bind, hschedule _ _]
  have hlength : ((groups.map (plan.resolveField schedule level object value path)).map
      Future.value).length = (plan.inside place path).length := by
    simp [inside, hview, children]
  refine completes_of_inner hview rfl hlength fun i segment child completion hentry hi => ?_
  obtain ⟨group, hgroup, rfl, rfl⟩ := (getElem?_inside_fields hview).1 hentry
  simp only [List.getElem?_map, hgroup, Option.map_some, Option.some.injEq] at hi
  exact hi ▸ completes_field hschedule hlevel (hfits group (List.mem_of_getElem? hgroup)) path

theorem sound_levelAt {schedule : Schedule} (hschedule : schedule.Ordered) (depth : Nat) :
    plan.Sound (plan.levelAt schedule depth) depth := by
  unfold levelAt
  induction depth with
  | zero =>
    intro place object selections value path hat hfits
    have hview := view_of_shows (.fields hat (collect_of_fits_zero object.name hfits))
    have hlength : ([] : List Completion).length = (plan.inside place path).length := by
      simp [inside, hview, children]
    exact completes_of_inner hview rfl hlength (by simp)
  | succ depth ih =>
    intro place object selections value path hat hfits
    obtain ⟨groups, hcollect, hvalid⟩ := collect_of_fits object.name hfits
    have hview := view_of_shows (.fields hat hcollect)
    simp only [levelWith, hcollect]
    exact completes_groups hschedule ih hview
      fun group hgroup => fits_selections (hvalid group hgroup)

end

end Plan

end GraphQuery
