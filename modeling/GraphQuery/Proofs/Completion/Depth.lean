import GraphQuery.Proofs.Completion.Arguments
import GraphQuery.Proofs.Completion.Invocations
import GraphQuery.Proofs.Completion.Nulls

/-!
# The depth of a run

How deep a run gets into a response. Selections that are valid up to a depth lead no further than
that many response keys down, whatever types objects have and however selections are merged. Main
statement: a limit on the depth of a request bounds every path of its run, of its errors and of its
data.
-/

namespace GraphQuery

def PathSegment.isField : PathSegment → Bool
  | .field _ => true
  | .index _ => false

namespace ResponsePath

/-- How many response keys there are on the path. -/
def depth (path : ResponsePath) : Nat := path.countP PathSegment.isField

@[simp] theorem depth_nil : depth [] = 0 := rfl

private theorem depth_cons (segment : PathSegment) (path : ResponsePath) :
    depth (segment :: path) = depth path + depth [segment] := by
  simp [depth, List.countP_cons]

@[simp] theorem depth_child_field (path : ResponsePath) (key : String) :
    (path.child (.field key)).depth = path.depth + 1 := by
  simp [depth, child, PathSegment.isField]

@[simp] theorem depth_child_index (path : ResponsePath) (i : Nat) :
    (path.child (.index i)).depth = path.depth := by
  simp [depth, child, PathSegment.isField]

end ResponsePath

def Event.path : Event → ResponsePath
  | .resolving path _ _ => path
  | .started path _ _ => path
  | .finished path _ _ => path

namespace Plan

section

variable {plan : Plan} {place child : Place} {path : ResponsePath} {segment : PathSegment}

/-- What is selected at a place nests at most `depth` deep. -/
def Nests (plan : Plan) (depth : Nat) : Place → Prop
  | .level _ selections _ => plan.Fits depth selections
  | .value site _ _ => plan.Fits depth site.selections
  | .typename .. => True
  | .undefined .. => True

private theorem Nests.fits {depth : Nat} (h : plan.Nests depth place) {object : ObjectType}
    {selections : List (List Selection)} {value : Json}
    (hat : plan.ObjectAt place path object selections value) : plan.Fits depth selections := by
  cases hat with
  | level | object | abstract => exact h

private theorem exists_fits_of_collect {depth : Nat} {selections : List (List Selection)}
    (hfits : plan.Fits depth selections) {object : String} {groups : List FieldGroup}
    (hcollect : plan.collect object selections = .ok groups) {group : FieldGroup}
    (hgroup : group ∈ groups) : ∃ less, depth = less + 1 ∧ plan.Fits less group.selections := by
  obtain ⟨found, hfound, hvalid⟩ := collect_of_fits object hfits
  obtain rfl := Except.ok.inj (hcollect.symm.trans hfound)
  obtain ⟨parent, -, hfirst⟩ := hvalid group hgroup group.first List.mem_cons_self
  obtain ⟨-, less, rfl⟩ := keeps_of_valid hfirst
  exact ⟨less, rfl, fits_selections (hvalid group hgroup)⟩

private theorem nests_placeOf {depth : Nat} {group : FieldGroup}
    (hfits : plan.Fits depth group.selections)
    (object : ObjectType) (parent : Json) :
    plan.Nests depth (plan.placeOf object parent path group) := by
  by_cases hname : group.first.node.name = "__typename"
  · rw [placeOf_typename hname]
    trivial
  · cases hfield : object.field? group.first.node.name with
    | none =>
      rw [placeOf_undefined hname hfield]
      trivial
    | some field =>
      rw [placeOf_field hname hfield]
      exact hfits

/-- The step of the invariant: an item nests as deep as its list, and a field one level less deep
than its object. -/
private theorem Nests.inside {depth : Nat} (h : plan.Nests depth place) {i : Nat}
    (hchild : (plan.inside place path)[i]? = some (segment, child)) :
    ∃ less, less + ResponsePath.depth [segment] = depth ∧ plan.Nests less child := by
  have hshows := plan.shows_view place path
  cases hview : plan.view place path with
  | value | failed | fatal =>
    rw [Plan.inside, hview] at hchild
    cases hchild
  | items children =>
    obtain ⟨rfl, hitem⟩ := (getElem?_inside_items hview).1 hchild
    rw [hview] at hshows
    cases hshows with
    | items =>
      obtain ⟨held, -, rfl⟩ := List.mem_map.1 (List.mem_of_getElem? hitem)
      exact ⟨depth, rfl, h⟩
  | fields object groups value =>
    obtain ⟨group, hgroup, rfl, rfl⟩ := (getElem?_inside_fields hview).1 hchild
    rw [hview] at hshows
    cases hshows with
    | fields hat hcollect =>
      obtain ⟨less, rfl, hfits⟩ :=
        exists_fits_of_collect (h.fits hat) hcollect (List.mem_of_getElem? hgroup)
      exact ⟨less, rfl, nests_placeOf hfits object value⟩

private theorem Nests.follow {depth : Nat} (h : plan.Nests depth place) {way : ResponsePath}
    {inner : Place} (hfollow : plan.follow place path way = some inner) :
    ∃ less, less + way.depth = depth ∧ plan.Nests less inner := by
  induction way generalizing place path depth with
  | nil =>
    obtain rfl := Option.some.inj hfollow
    exact ⟨depth, rfl, h⟩
  | cons segment way ih =>
    rw [follow_cons, Option.bind_eq_some_iff] at hfollow
    obtain ⟨child, hlookup, hfollow⟩ := hfollow
    obtain ⟨i, hi⟩ := getElem?_of_lookup_inside hlookup
    obtain ⟨between, rfl, hchild⟩ := h.inside hi
    obtain ⟨less, rfl, hinner⟩ := ih hchild hfollow
    exact ⟨less, by rw [ResponsePath.depth_cons, Nat.add_assoc], hinner⟩

private theorem Completes.placed {completion : Completion}
    (h : plan.Completes place path completion)
    {value : Value} (hvalue : completion.outcome = .ok value) {rest : ResponsePath} {held : Value}
    (hheld : value.at? rest = some held) :
    ∃ way below inner, rest = way ++ below ∧ plan.follow place path way = some inner ∧
      (below = [] ∨ ∃ leaf, plan.view inner (path ++ way) = .value leaf) := by
  induction h generalizing value rest with
  | @value place path leaf hview =>
    rw [← List.append_nil path] at hview
    exact ⟨[], rest, place, rfl, List.append_nil path ▸ rfl, .inr ⟨leaf, hview⟩⟩
  | @failed place path failure hview =>
    rcases Completion.outcome_absorb_eq_ok_iff.1 hvalue with h | ⟨-, -, rfl⟩
    · cases h
    · obtain rfl := Value.eq_nil_of_at?_null hheld
      exact ⟨[], [], place, rfl, rfl, .inl rfl⟩
  | fatal => cases hvalue
  | @inner place path completions hinner hlength hinside ih =>
    cases rest with
    | nil => exact ⟨[], [], place, rfl, rfl, .inl rfl⟩
    | cons segment rest =>
      rw [Value.at?_cons] at hheld
      obtain ⟨between, hstep, hbetween⟩ := Option.bind_eq_some_iff.1 hheld
      rcases Completion.join_eq_ok hvalue with ⟨values, hvalues, rfl⟩ | ⟨-, rfl, -⟩
      · have hlength' := (Completion.length_of_map_eq hvalues).trans hlength
        obtain ⟨i, child, hchild, hi⟩ := exists_of_inside?_build hinner hlength' hstep
        obtain ⟨completion, hcompletion, hok⟩ := Completion.outcome_of_map_eq hvalues hi
        obtain ⟨way, below, inner, rfl, hfollow, hbelow⟩ :=
          ih i segment child completion hchild hcompletion hok hbetween
        rw [append_child] at hbelow
        exact ⟨segment :: way, below, inner, rfl, by rw [follow_inside hchild, hfollow], hbelow⟩
      · cases segment <;> cases hstep

end

/-- What happens in the future happens at most `depth` keys deep. -/
def Within {α : Type} (depth : Nat) (future : Future Event α) : Prop :=
  ∀ event ∈ future.events, event.path.depth ≤ depth

/-- The level stays as deep as what is selected. -/
def WithinLevel (plan : Plan) (level : Level) : Prop :=
  ∀ depth object selections value path, plan.Fits depth selections →
    Within (path.depth + depth) (level object selections value path)

section

variable {plan : Plan} {α β : Type} {depth : Nat}

private theorem within_done (a : α) : Within depth (.done a) := by
  intro event hevent
  cases hevent

private theorem Within.bind {future : Future Event α} (h : Within depth future)
    {next : α → Future Event β} (hnext : Within depth (next future.value)) :
    Within depth (future.bind next) := by
  intro event hevent
  rw [Future.events_bind, List.mem_append] at hevent
  exact hevent.elim (h event) (hnext event)

private theorem Within.emit {future : Future Event α} (h : Within depth future) {event : Event}
    (hevent : event.path.depth ≤ depth) : Within depth (.emit event future) := by
  intro other hother
  rcases List.mem_cons.1 hother with rfl | hother
  · exact hevent
  · exact h other hother

private theorem within_schedule {schedule : Schedule} (hschedule : schedule.Confined)
    {path : ResponsePath} {futures : List (Future Event Completion)}
    (h : ∀ future ∈ futures, Within depth future) : Within depth (schedule path futures) := by
  intro event hevent
  obtain ⟨future, hmem, hfuture⟩ := hschedule path futures event hevent
  exact h future hmem event hfuture

private theorem within_resolve (plan : Plan) (object : ObjectType) (field : FieldDefinition)
    (parent : Json)
    (arguments : ArgumentValues) {path : ResponsePath} (hpath : path.depth ≤ depth) :
    Within depth (plan.resolve object field parent arguments path) := by
  unfold resolve
  cases plan.schema.resolvers object.name field.name with
  | parent => exact within_done _
  | custom answer =>
    refine Within.emit (fun event hevent => ?_) hpath
    rw [Future.events_pending] at hevent
    exact (within_done _).emit hpath event hevent

private theorem within_producer {object : ObjectType} {field : FieldDefinition} {parent : Json}
    {node : FieldNode} {path : ResponsePath} (hpath : path.depth ≤ depth) {producer : Producer}
    (hproducer : plan.producer object field parent node path = .ok producer) :
    Within depth producer := by
  rw [Plan.producer, bind_eq_ok_iff] at hproducer
  obtain ⟨arguments, -, hwrapped⟩ := hproducer
  have hresolve := plan.within_resolve object field parent arguments hpath
  exact fun event hevent => hresolve event (Bindings.events_wrapProducer_subset hwrapped hevent)

private theorem within_completeNamed {level : Level} (hlevel : plan.WithinLevel level)
    {site : FieldSite}
    (hfits : plan.Fits depth site.selections) (name : String) (value : Json)
    (path : ResponsePath) :
    Within (path.depth + depth) (plan.completeNamed level site name value path) := by
  unfold completeNamed
  split
  · exact within_done _
  · exact hlevel depth _ _ value path hfits
  · next type _ _ =>
    split
    · unfold completeAbstract
      cases plan.runtimeType site type value path with
      | error message => exact within_done _
      | ok object => exact hlevel depth object _ value path hfits
    · cases plan.schema.leaf type value <;> exact within_done _

private theorem within_completeValue {schedule : Schedule} (hschedule : schedule.Confined)
    {level : Level}
    (hlevel : plan.WithinLevel level) {site : FieldSite}
    (hfits : plan.Fits depth site.selections) (type : TypeExpr) (value : Json)
    (path : ResponsePath) :
    Within (path.depth + depth) (plan.completeValue schedule level site type value path) := by
  induction type generalizing value path with
  | named name nullable =>
    rw [completeValue]
    split
    · exact within_done _
    · exact (within_completeNamed hlevel hfits name value path).bind (within_done _)
  | list item nullable ih =>
    rw [completeValue]
    split
    · exact within_done _
    · cases value.items? with
      | none => exact within_done _
      | some items =>
        refine (within_schedule hschedule fun future hmem => ?_).bind (within_done _)
        obtain ⟨i, hi, rfl⟩ := List.mem_mapIdx.1 hmem
        have hitem := ih items[i] (path.child (.index i))
        rwa [ResponsePath.depth_child_index] at hitem

private theorem within_resolveTypename (object : ObjectType) (parent : Json) (node : FieldNode)
    (path : ResponsePath) : Within depth (plan.resolveTypename object parent node path) := by
  unfold resolveTypename
  split
  · exact within_done _
  · next producer hproducer =>
    refine Within.bind (fun event hevent => ?_) (within_done _)
    cases Bindings.events_wrapProducer_subset hproducer hevent

theorem within_resolveField {schedule : Schedule} (hschedule : schedule.Confined) {level : Level}
    (hlevel : plan.WithinLevel level) {group : FieldGroup}
    (hfits : plan.Fits depth group.selections) (object : ObjectType) (parent : Json)
    (path : ResponsePath) :
    Within (path.depth + (depth + 1))
      (plan.resolveField schedule level object parent path group) := by
  have hpath : (path.child (.field group.key)).depth ≤ path.depth + (depth + 1) := by
    rw [ResponsePath.depth_child_field]
    omega
  unfold resolveField
  dsimp only
  split
  · exact within_resolveTypename object parent _ _
  · split
    · exact within_done _
    · next field hfield =>
      refine Within.emit ?_ hpath
      split
      · exact within_done _
      · next producer hproducer =>
        refine (within_producer hpath hproducer).bind ?_
        split
        · exact within_done _
        · next value _ =>
          let site : FieldSite :=
            ⟨object.name, field.name, group.first.node.position, group.selections⟩
          have hsite : plan.Fits depth site.selections := hfits
          have hvalue := within_completeValue hschedule hlevel hsite field.type value
            (path.child (.field group.key))
          rwa [ResponsePath.depth_child_field, Nat.add_assoc, Nat.add_comm 1] at hvalue

/-- Levels stay as deep as what is selected, however many there are. -/
theorem withinLevel_levelAt {schedule : Schedule} (hschedule : schedule.Confined) (budget : Nat) :
    plan.WithinLevel (plan.levelAt schedule budget) := by
  unfold levelAt
  induction budget with
  | zero => exact fun _ _ _ _ _ _ => within_done _
  | succ budget ih =>
    intro depth object selections value path hfits
    rw [levelWith]
    split
    · exact within_done _
    · next groups hcollect =>
      refine (within_schedule hschedule fun future hmem => ?_).bind (within_done _)
      obtain ⟨group, hgroup, rfl⟩ := List.mem_map.1 hmem
      obtain ⟨less, rfl, hbelow⟩ := exists_fits_of_collect hfits hcollect hgroup
      exact within_resolveField hschedule ih hbelow object value path

end

section

variable {schema : ExecutableSchema} {settings : Settings} {request : Request} {plan : Plan}

private theorem le_of_checkDepth {maxDepth : Nat} (hlimit : settings.maxDepth = some maxDepth)
    {operation : Operation} {depth : Nat} {checked : Unit}
    (hcheck : checkDepth settings operation depth = .ok checked) : depth ≤ maxDepth := by
  rw [checkDepth, hlimit] at hcheck
  by_contra hdeep
  simp only [if_pos (Nat.lt_of_not_le hdeep), reduceCtorEq] at hcheck

private theorem depth_le_of_ofRequest {maxDepth : Nat} (hlimit : settings.maxDepth = some maxDepth)
    (hplan : ofRequest schema settings request = .ok plan) : plan.depth ≤ maxDepth := by
  simp only [ofRequest_eq, bind_eq_ok_iff, mapError_eq_ok_iff, pure_eq_ok_iff] at hplan
  obtain ⟨operation, -, _, -, values, -, _, -, _, -, depth, -, _, hcheck, rfl⟩ := hplan
  exact le_of_checkDepth hlimit hcheck

private theorem nests_rootPlace (hplan : ofRequest schema settings request = .ok plan) :
    plan.Nests plan.depth plan.rootPlace := by
  obtain ⟨-, -, -, haccepted⟩ := accepted_of_ofRequest hplan
  exact fits_operation haccepted

private theorem depth_le_of_place? {maxDepth : Nat} (hlimit : settings.maxDepth = some maxDepth)
    (hplan : ofRequest schema settings request = .ok plan) {path : ResponsePath} {place : Place}
    (hplace : plan.place? path = some place) : path.depth ≤ maxDepth := by
  have hle := depth_le_of_ofRequest hlimit hplan
  obtain ⟨less, hless, -⟩ := (nests_rootPlace hplan).follow hplace
  omega

end

end Plan

/-- A limit on the depth bounds the run of every request that is accepted under it: no event lies
below more response keys, however siblings are interleaved and however many levels the run is given,
and neither does a place of the response, an error or a position of the data outside leaves. -/
theorem depth_of_executeUnder {schema : ExecutableSchema} {settings : Settings} {request : Request}
    {plan : Plan} {maxDepth : Nat} (hlimit : settings.maxDepth = some maxDepth)
    (hplan : Plan.ofRequest schema settings request = .ok plan)
    (buffering : Future.Buffering ResponsePath Event Completion) :
    (∀ event ∈ (executeUnder buffering schema settings request).events,
      event.path.depth ≤ maxDepth) ∧
    (∀ levels, ∀ event ∈ (plan.levelAt (buffering.gather plan.limit) levels plan.rootType
      [plan.operation.selections] plan.root []).events, event.path.depth ≤ maxDepth) ∧
    (∀ path place, plan.place? path = some place → path.depth ≤ maxDepth) ∧
    ∀ response, (executeUnder buffering schema settings request).value = .ok response →
      (∀ error ∈ response.errors, ∃ path, error.path = some path ∧ path.depth ≤ maxDepth) ∧
      ∃ data, response.data = some data ∧
        ∀ path value, data.at? path = some value → ∃ way below place, path = way ++ below ∧
          way.depth ≤ maxDepth ∧ plan.place? way = some place ∧
          (below = [] ∨ ∃ leaf, plan.view place way = .value leaf) := by
  obtain ⟨-, -, -, haccepted⟩ := Plan.accepted_of_ofRequest hplan
  have hlevels (levels : Nat) : Plan.Within maxDepth (plan.levelAt (buffering.gather plan.limit)
      levels plan.rootType [plan.operation.selections] plan.root []) := by
    intro event hevent
    have hconfined : Schedule.Confined (buffering.gather plan.limit) :=
      Plan.confined_gather buffering
    have hwithin :=
      Plan.withinLevel_levelAt hconfined levels plan.depth plan.rootType _ plan.root []
      (Plan.fits_operation haccepted) event hevent
    rw [ResponsePath.depth_nil, Nat.zero_add] at hwithin
    exact Nat.le_trans hwithin (Plan.depth_le_of_ofRequest hlimit hplan)
  have hplaces (path : ResponsePath) (place : Place) (hplace : plan.place? path = some place) :
      path.depth ≤ maxDepth := Plan.depth_le_of_place? hlimit hplan hplace
  unfold executeUnder
  rw [hplan]
  refine ⟨?_, hlevels, hplaces, fun response hresponse => ?_⟩
  · dsimp only
    rw [Plan.runUnder_eq haccepted.root]
    exact (hlevels plan.depth).bind (Plan.within_done _)
  · obtain ⟨completion, hcompletes, hrun⟩ := Plan.completes_runUnder buffering haccepted
    obtain ⟨data, houtcome, rfl⟩ := hcompletes.exists_data (hrun.symm.trans hresponse)
    refine ⟨fun error herror => ?_, data, rfl, fun path value hvalue => ?_⟩
    · obtain ⟨path, hpath, hplace, -⟩ :=
        hcompletes.nulled (Completion.not_isFatal_of_ok houtcome) error herror
      obtain ⟨place, hplace⟩ := Option.isSome_iff_exists.1 hplace
      exact ⟨path, hpath, hplaces path place hplace⟩
    · obtain ⟨way, below, place, hpath, hplace, hbelow⟩ := hcompletes.placed houtcome hvalue
      exact ⟨way, below, place, hpath, hplaces way place hplace, hplace, hbelow⟩

/-- The request for boxes is two keys deep, items not counted, and so are its run and its errors. -/
theorem depth_of_watchedRequest :
    (executeUnder (.rounds ..) watchedSchema ⟨32, some 2⟩ watchedRequest).invocations.map
        (fun invocation => invocation.path.depth) = [1, 2, 2, 2, 2] ∧
      (fun response => response.errors.map fun error => error.path.map ResponsePath.depth) <$>
          (executeUnder (.rounds ..) watchedSchema ⟨32, some 2⟩ watchedRequest).value =
        .ok [some 2, some 2] ∧
      (∀ event ∈ (executeUnder (.rounds ..) watchedSchema ⟨32, some 2⟩ watchedRequest).events,
        event.path.depth ≤ 2) ∧
      Response.errors <$> (execute watchedSchema ⟨32, some 1⟩ watchedRequest).value =
        .error (.validation (.tooDeep 1 ⟨1, 1⟩)) := by
  obtain ⟨plan, hplan⟩ := exists_of_toBool
    (by decide +kernel :
      (Plan.ofRequest watchedSchema ⟨32, some 2⟩ watchedRequest).toBool = true)
  have hdepth := depth_of_executeUnder rfl hplan (.rounds ..)
  exact ⟨by decide +kernel, by decide +kernel, hdepth.1, by decide +kernel⟩

end GraphQuery
