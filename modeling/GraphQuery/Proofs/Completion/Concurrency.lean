import GraphQuery.Proofs.Completion.LevelEvents

/-!
# Concurrency of siblings

How many resolvers of one object run at once. Main statement: never more than the limit allows,
each resolver that is called for starts once and finishes, and if none of them is ready at once then
the limit is used up.
-/

namespace GraphQuery

/-- The resolver of the invocation waits for at least one poll. -/
def Invocation.Waits (invocation : Invocation) (delays : Delays) : Prop :=
  0 < delays invocation.object invocation.context.fieldName invocation.path

/-- What happens at the field of an invocation. -/
def Invocation.events (invocation : Invocation) : List Event :=
  [.resolving invocation.path invocation.object invocation.context.fieldName,
    .started invocation.path invocation.object invocation.context,
    .finished invocation.path invocation.object invocation.context.fieldName]

namespace Plan

section

variable {plan : Plan} {schedule : Schedule} {level : Level} {object : ObjectType} {value : Json}
  {path : ResponsePath} {group : FieldGroup} {groups : List FieldGroup} {depth : Nat}
  {invocation : Invocation}

private theorem filter_resolveField (hschedule : schedule.Gathers plan.limit)
    (hlevel : plan.RunsLevel schedule level depth) (hfits : plan.Fits depth group.selections)
    {p : Event → Bool} (hown : ∀ event, event.path = path.child (.field group.key) → p event = true)
    (hbelow : ∀ event, event.Inside (path.child (.field group.key)) → p event = false) :
    (plan.resolveField schedule level object value path group).events.filter p =
      plan.ownEvents object value path group := by
  obtain ⟨completion, hevents, hruns⟩ :=
    exists_events_resolveField hschedule hlevel hfits object value path
  have hkept : (plan.ownEvents object value path group).filter p =
      plan.ownEvents object value path group := by
    rw [List.filter_eq_self]
    intro event hevent
    exact hown event (path_of_mem_ownEvents hevent)
  have hnone : completion.events.filter p = [] := by
    rw [List.filter_eq_nil_iff]
    intro event hevent
    rw [hbelow event (hruns.inside event hevent)]
    exact Bool.false_ne_true
  rw [hevents, List.filter_append, hkept, hnone, List.append_nil]

private theorem not_isFieldOf_of_inside {event : Event}
    (h : event.Inside (path.child (.field group.key))) : event.isFieldOf path = false := by
  rw [← Bool.not_eq_true, Event.isFieldOf_iff]
  intro ⟨key, hpath⟩
  obtain ⟨way, last, hpath'⟩ := h
  have hlength := congrArg List.length (hpath.symm.trans hpath')
  simp [ResponsePath.child] at hlength

private theorem filter_isFieldOf_resolveField (hschedule : schedule.Gathers plan.limit)
    (hlevel : plan.RunsLevel schedule level depth) (hfits : plan.Fits depth group.selections) :
    (plan.resolveField schedule level object value path group).events.filter
      (Event.isFieldOf path) = plan.ownEvents object value path group := by
  apply filter_resolveField hschedule hlevel hfits
  · intro event hpath
    exact Event.isFieldOf_iff.2 ⟨_, hpath⟩
  · intro event hinside
    exact not_isFieldOf_of_inside hinside

private theorem ownEvents_of_invokes
    (hinvokes : plan.InvokesField object value path group invocation)
    (hwrap : ∀ producer parent,
      plan.wrapProducer producer parent group.first.node.directives = .ok producer) :
    plan.ownEvents object value path group = invocation.events := by
  obtain ⟨field, answer, arguments, hname, hfield, hresolver, hbound, rfl⟩ := hinvokes
  have hproducer : plan.producer object field value group.first.node
      (path.child (.field group.key)) =
      .ok (plan.resolve object field value arguments (path.child (.field group.key))) := by
    rw [producer, hbound]
    exact hwrap _ _
  simp only [ownEvents, beq_iff_eq, hname, if_false, hfield, hproducer, resolve, hresolver,
    Future.events, Future.events_pending]
  rfl

/-- The first poll of a field starts its resolver, which keeps running if it has to wait. -/
theorem poll_resolveField (schedule : Schedule) (level : Level)
    (hinvokes : plan.InvokesField object value path group invocation)
    (hwaits : invocation.Waits plan.delays)
    (hwrap : ∀ producer parent,
      plan.wrapProducer producer parent group.first.node.directives = .ok producer) :
    (plan.resolveField schedule level object value path group).poll.1 =
      [.resolving invocation.path invocation.object invocation.context.fieldName,
        .started invocation.path invocation.object invocation.context] := by
  obtain ⟨field, answer, arguments, hname, hfield, hresolver, hbound, rfl⟩ := hinvokes
  obtain ⟨polls, hpolls⟩ := Nat.exists_eq_succ_of_ne_zero (Nat.pos_iff_ne_zero.1 hwaits)
  rw [resolveField_of_unwrapped schedule level hname hfield hbound hwrap, resolve, hresolver]
  simp only [hpolls]
  rfl

private theorem maxInFlight_completeGroups_le (hschedule : schedule.Gathers plan.limit)
    (hlevel : plan.RunsLevel schedule level depth)
    (hfits : ∀ group ∈ groups, plan.Fits depth group.selections) :
    maxInFlight ((plan.completeGroups schedule level object groups value path).events.filter
      (Event.isFieldOf path)) ≤ min plan.limit groups.length := by
  have hsolo : ∀ future ∈ groups.map (plan.resolveField schedule level object value path),
      Event.Solo false (future.events.filter (Event.isFieldOf path)) := by
    intro future hfuture
    obtain ⟨group, hgroup, rfl⟩ := List.mem_map.1 hfuture
    rw [filter_isFieldOf_resolveField hschedule hlevel (hfits group hgroup)]
    exact solo_ownEvents ..
  have hbound := (hschedule path _).maxInFlight_le hsolo
  rwa [List.length_map, ← events_completeGroups] at hbound

private theorem le_maxInFlight_completeGroups
    (hfills : ∀ futures, Future.Fills plan.limit futures [] (schedule path futures))
    (hwaits : ∀ group ∈ groups, ∃ invocation,
      plan.InvokesField object value path group invocation ∧ invocation.Waits plan.delays)
    (hwrap : ∀ group ∈ groups, ∀ producer parent,
      plan.wrapProducer producer parent group.first.node.directives = .ok producer) :
    min plan.limit groups.length ≤
      maxInFlight ((plan.completeGroups schedule level object groups value path).events.filter
        (Event.isFieldOf path)) := by
  have hfirst : ∀ future ∈ groups.map (plan.resolveField schedule level object value path),
      ∀ count, (future.poll.1.filter (Event.isFieldOf path)).foldl Event.running count =
        count + 1 := by
    intro future hfuture count
    obtain ⟨group, hgroup, rfl⟩ := List.mem_map.1 hfuture
    obtain ⟨invocation, hinvokes, hwaits⟩ := hwaits group hgroup
    have hfield (event : Event) (hpath : event.path = invocation.path) :
        event.isFieldOf path = true :=
      Event.isFieldOf_iff.2 ⟨group.key, hpath.trans hinvokes.path_eq⟩
    rw [poll_resolveField schedule level hinvokes hwaits (hwrap group hgroup),
      List.filter_cons_of_pos (hfield _ rfl), List.filter_cons_of_pos (hfield _ rfl)]
    rfl
  have hbound := (hfills _).le_maxInFlight hfirst
  rwa [List.length_map, ← events_completeGroups] at hbound

private theorem filter_completeGroups (hschedule : schedule.Gathers plan.limit)
    (hlevel : plan.RunsLevel schedule level depth)
    (hfits : ∀ group ∈ groups, plan.Fits depth group.selections)
    (hkeys : (groups.map FieldGroup.key).Nodup) (hgroup : group ∈ groups) :
    (plan.completeGroups schedule level object groups value path).events.filter
        (fun event => event.path == path.child (.field group.key)) =
      plan.ownEvents object value path group := by
  obtain ⟨before, after, rfl⟩ := List.append_of_mem hgroup
  rw [events_completeGroups, List.map_append, List.map_cons]
  rw [(hschedule path _).filter_events]
  · apply filter_resolveField hschedule hlevel (hfits group hgroup)
    · intro event hpath
      exact beq_iff_eq.2 hpath
    · intro event hinside
      rw [beq_eq_false_iff_ne]
      intro hpath
      rw [← hpath] at hinside
      exact Event.not_inside_self hinside
  · rw [← List.map_append]
    intro future hfuture event hevent
    obtain ⟨other, hother, rfl⟩ := List.mem_map.1 hfuture
    have hmem : other ∈ before ++ group :: after := by
      simp only [List.mem_append, List.mem_cons] at hother ⊢
      exact hother.imp_right .inr
    have hpart := runsPart_resolveField hschedule hlevel (hfits other hmem) object value path
    have hprefix := (hpart.inside event hevent).2
    rw [beq_eq_false_iff_ne]
    intro hpath
    rw [hpath] at hprefix
    have hsame := hprefix.eq_of_length (by simp [ResponsePath.child])
    exact key_ne_of_nodup hkeys hother (by simpa [ResponsePath.child] using hsame)

private theorem fits_zero_of_flat {selections : List (List Selection)}
    (hflat : selections.flatten = [])
    (parent : TypeDefinition) : plan.Fits 0 selections := by
  intro list hlist
  rw [List.flatten_eq_nil_iff.1 hflat list hlist]
  exact ⟨parent, nofun⟩

private theorem isFieldOf_of_flat (hschedule : schedule.Gathers plan.limit)
    (hfits : ∀ group ∈ groups, plan.Fits depth group.selections)
    (hflat : ∀ group ∈ groups, group.selections.flatten = []) (parent : TypeDefinition) :
    ∀ event ∈ (plan.completeGroups schedule (plan.levelAt schedule depth) object groups value
      path).events, event.isFieldOf path = true := by
  intro event hevent
  rw [events_completeGroups] at hevent
  obtain ⟨future, hfuture, hevent⟩ := hschedule.confined path _ event hevent
  obtain ⟨group, hgroup, rfl⟩ := List.mem_map.1 hfuture
  have hwithin := within_resolveField hschedule.confined
    (withinLevel_levelAt hschedule.confined depth)
    (fits_zero_of_flat (hflat group hgroup) parent) object value path event hevent
  obtain ⟨completion, hevents, hruns⟩ := exists_events_resolveField hschedule
    (runsLevel_levelAt hschedule depth) (hfits group hgroup) object value path
  rw [hevents, List.mem_append] at hevent
  rcases hevent with hown | hbelow
  · exact Event.isFieldOf_iff.2 ⟨group.key, path_of_mem_ownEvents hown⟩
  · have hdeep := (hruns.inside event hbelow).depth_lt
    rw [ResponsePath.depth_child_field] at hdeep
    omega

variable {α : Type} {future : Future Event α}

namespace RunsFields

private theorem maxInFlight_le (hruns : plan.RunsFields schedule object groups value path future)
    (hschedule : schedule.Gathers plan.limit) :
    maxInFlight (future.events.filter (Event.isFieldOf path)) ≤ min plan.limit groups.length := by
  obtain ⟨depth, hvalid, hfilter⟩ := hruns
  rw [hfilter _ fun event => Event.inside_of_isFieldOf]
  exact maxInFlight_completeGroups_le hschedule (runsLevel_levelAt hschedule depth)
    fun group hgroup => fits_selections (hvalid group hgroup)

private theorem filter_invocation (hruns : plan.RunsFields schedule object groups value path future)
    (hschedule : schedule.Gathers plan.limit) (hkeys : (groups.map FieldGroup.key).Nodup)
    (hgroup : group ∈ groups) (hunwrapped : group.first.node.Unwrapped plan.schema)
    (hinvokes : plan.InvokesField object value path group invocation) :
    future.events.filter (fun event => event.path == invocation.path) = invocation.events := by
  obtain ⟨depth, hvalid, hfilter⟩ := hruns
  have hinside (event : Event) (h : (event.path == path.child (.field group.key)) = true) :
      event.Inside path :=
    Event.inside_of_isFieldOf (Event.isFieldOf_iff.2 ⟨group.key, eq_of_beq h⟩)
  rw [hinvokes.path_eq, hfilter _ hinside,
    filter_completeGroups hschedule (runsLevel_levelAt hschedule depth)
      (fun group hgroup => fits_selections (hvalid group hgroup)) hkeys hgroup]
  apply ownEvents_of_invokes hinvokes
  exact wrapProducer_of_unwrapped (hvalid group hgroup _ List.mem_cons_self) hunwrapped

/-- Fields without hooks that all wait for their resolvers use the limit up. -/
theorem maxInFlight_eq (hruns : plan.RunsFields schedule object groups value path future)
    (hschedule : schedule.Gathers plan.limit)
    (hfills : ∀ futures, Future.Fills plan.limit futures [] (schedule path futures))
    (hwaits : ∀ group ∈ groups, group.first.node.Unwrapped plan.schema ∧ ∃ invocation,
      plan.InvokesField object value path group invocation ∧ invocation.Waits plan.delays) :
    maxInFlight (future.events.filter (Event.isFieldOf path)) = min plan.limit groups.length := by
  apply Nat.le_antisymm (hruns.maxInFlight_le hschedule)
  obtain ⟨depth, hvalid, hfilter⟩ := hruns
  rw [hfilter _ fun event => Event.inside_of_isFieldOf]
  apply le_maxInFlight_completeGroups hfills
  · intro group hgroup
    exact (hwaits group hgroup).2
  · intro group hgroup
    exact wrapProducer_of_unwrapped (hvalid group hgroup _ List.mem_cons_self)
      (hwaits group hgroup).1

/-- If nothing happens outside an object and its fields have no selections, then all events are at
its fields. -/
theorem filter_isFieldOf_of_flat
    (hruns : plan.RunsFields schedule object groups value path future)
    (hschedule : schedule.Gathers plan.limit) (hinside : ∀ event ∈ future.events, event.Inside path)
    (hflat : ∀ group ∈ groups, group.selections.flatten = []) (parent : TypeDefinition) :
    future.events.filter (Event.isFieldOf path) = future.events := by
  classical
  obtain ⟨depth, hvalid, hfilter⟩ := hruns
  have hall := hfilter (fun event => event.Inside path) fun event => of_decide_eq_true
  rw [List.filter_eq_self.2 fun event h => decide_eq_true (hinside event h)] at hall
  rw [List.filter_eq_self]
  intro event hevent
  rw [hall] at hevent
  exact isFieldOf_of_flat hschedule (fun group hgroup => fits_selections (hvalid group hgroup))
    hflat parent event (List.mem_of_mem_filter hevent)

end RunsFields

end

end Plan

/-- Siblings and the limit. Let an object stand anywhere in the response of an accepted request.
However its surroundings are interleaved with it, and however long resolvers wait, at most as many
resolvers of its fields run at once as the limit allows, where a limit of zero counts as one. A
field without hooks that has a resolver and whose arguments are bound starts this resolver once, and
the resolver finishes. If siblings are run without leaving room unused and if all fields of the
object wait for such resolvers, then as many of these run at once as the limit allows and as there
are fields; and if it is the root and has no fields inside its fields, no others run at all. -/
theorem concurrency_of_executeUnder {schema : ExecutableSchema} {settings : Settings}
    {request : Request} {plan : Plan} (hplan : Plan.ofRequest schema settings request = .ok plan)
    (buffering : Future.Buffering ResponsePath Event Completion) {path : ResponsePath}
    {place : Place} {object : ObjectType} {groups : List FieldGroup} {value : Json}
    (hplace : plan.place? path = some place)
    (hview : plan.view place path = .fields object groups value) :
    maxInFlight ((executeUnder buffering schema settings request).events.filter
      (Event.isFieldOf path)) ≤ max settings.concurrencyLimit 1 ∧
    (∀ group ∈ groups, group.first.node.Unwrapped schema.toSchema →
      ∀ invocation, plan.InvokesField object value path group invocation →
        (executeUnder buffering schema settings request).events.filter
          (fun event => event.path == invocation.path) = invocation.events) ∧
    (buffering.Filling →
      (∀ group ∈ groups, group.first.node.Unwrapped schema.toSchema ∧ ∃ invocation,
        plan.InvokesField object value path group invocation ∧
        invocation.Waits schema.delays) →
      maxInFlight ((executeUnder buffering schema settings request).events.filter
          (Event.isFieldOf path)) = min (max settings.concurrencyLimit 1) groups.length ∧
      (path = [] → (∀ group ∈ groups, group.selections.flatten = []) →
        maxInFlight (executeUnder buffering schema settings request).events =
          min (max settings.concurrencyLimit 1) groups.length)) := by
  obtain ⟨hschema, hdelays, -, haccepted⟩ := Plan.accepted_of_ofRequest hplan
  obtain ⟨hsettings, -⟩ := Plan.settings_of_ofRequest hplan
  have hlimit : plan.limit = max settings.concurrencyLimit 1 := by
    rw [Plan.limit, hsettings, Settings.siblingLimit]
  have hpositive : 0 < plan.limit := hlimit ▸ Nat.le_max_right _ 1
  have hexecute : executeUnder buffering schema settings request =
      plan.runUnder (buffering.gather plan.limit) := by
    rw [executeUnder, hplan]
  have hschedule : Schedule.Gathers plan.limit (buffering.gather plan.limit) :=
    fun path futures => buffering.gathers plan.limit path futures hpositive
  have hruns := Plan.runs_runUnder hschedule haccepted
  have hfields : plan.RunsFields (buffering.gather plan.limit) object groups value path
      (plan.runUnder (buffering.gather plan.limit)) :=
    hruns.hosts path place object groups value hplace hview
  rw [hexecute, ← hlimit]
  refine ⟨Nat.le_trans (hfields.maxInFlight_le hschedule) (Nat.min_le_left ..), ?_, ?_⟩
  · intro group hgroup hunwrapped invocation hinvokes
    exact hfields.filter_invocation hschedule (Plan.nodup_keys_of_view hview) hgroup
      (hschema ▸ hunwrapped) hinvokes
  · intro hfilling hwaits
    have hfills : ∀ futures, Future.Fills plan.limit futures []
        (buffering.gather plan.limit path futures) :=
      fun futures => hfilling plan.limit path futures hpositive
    have hexact := hfields.maxInFlight_eq hschedule hfills (by rwa [hschema, hdelays])
    refine ⟨hexact, ?_⟩
    rintro rfl hflat
    rwa [hfields.filter_isFieldOf_of_flat hschedule hruns.inside hflat (.object plan.rootType)]
      at hexact

/-- Answers with its argument after three polls. -/
def probeResolver : CustomResolver :=
  { answer := fun _ context => .ok (context.arguments.json "id"), polls := fun _ => 3 }

def probeField : FieldDefinition :=
  ⟨"probe", .named "Int" false, [⟨"id", .named "Int" false, none, none⟩]⟩

def probeQuery : ObjectType := ⟨"Query", [probeField], []⟩

def probeDraft : SchemaDraft :=
  ((SchemaDraft.new "Query").register (.object probeQuery)).resolve "Query" "probe" probeResolver

def probeSchema : ExecutableSchema :=
  { toTypeSystem := probeDraft.typeSystem
    resolvers := probeDraft.resolvers
    directives := DirectiveSpec.builtins
    translator := .standard
    delays := probeDraft.delays }

def probeNode (key : String) (id : Int) : FieldNode :=
  ⟨⟨1, 3⟩, some key, "probe", [⟨"id", .number (.int id), ⟨1, 9⟩⟩], []⟩

/-- The operation `{ a: probe(id: 1) b: probe(id: 2) c: probe(id: 3) }`. -/
def probeOperation : Operation :=
  ⟨⟨1, 1⟩, .query, [], [],
    [.field (probeNode "a" 1) [], .field (probeNode "b" 2) [], .field (probeNode "c" 3) []]⟩

def probeRequest : Request :=
  { document := { operations := .single probeOperation, fragments := [] }
    operationName := none
    inputs := .empty
    root := .null }

def probePlan (limit : Nat) : Plan :=
  { schema := probeSchema.toSchema
    values := []
    fragments := []
    delays := probeSchema.delays
    settings := ⟨limit, none⟩
    operation := probeOperation
    rootType := probeQuery
    root := .null
    depth := 1 }

def probeGroup (key : String) (id : Int) : FieldGroup := ⟨key, ⟨probeNode key id, []⟩, []⟩

def probeInvocation (key : String) (id : Int) : Invocation :=
  { path := [.field key]
    object := "Query"
    context := { fieldName := "probe", parent := .null, arguments := [("id", .number (.int id))] } }

private theorem invokes_probeGroup (limit : Nat) (key : String) {id : Int}
    (hid : (probePlan limit).bindArguments probeField.arguments (probeNode key id).arguments =
      .ok [("id", .number (.int id))]) :
    (probePlan limit).InvokesField probeQuery .null [] (probeGroup key id)
        (probeInvocation key id) ∧
      (probeInvocation key id).Waits probeSchema.delays := by
  refine ⟨⟨probeField, probeResolver.answer, _, by simp [probeGroup, probeNode], rfl, rfl, hid,
    rfl⟩, ?_⟩
  exact Nat.succ_pos 2

/-- Of three probes one is in flight under the limits zero and one, two under the limit two, and
all of them under greater limits. The last probe starts once and finishes. -/
theorem maxInFlight_of_probeRequest :
    ([0, 1, 2, 32].map fun limit =>
      maxInFlight (executeUnder (.rounds ..) probeSchema ⟨limit, none⟩ probeRequest).events) =
      [1, 1, 2, 3] ∧
    ((executeUnder (.rounds ..) probeSchema ⟨2, none⟩ probeRequest).events.filter fun event =>
      event.path == [.field "c"]) = (probeInvocation "c" 3).events := by
  have hview (limit : Nat) : (probePlan limit).view (probePlan limit).rootPlace [] =
      .fields probeQuery [probeGroup "a" 1, probeGroup "b" 2, probeGroup "c" 3] .null := rfl
  have hplan (limit : Nat) : Plan.ofRequest probeSchema ⟨limit, none⟩ probeRequest =
      .ok (probePlan limit) := rfl
  have hroot (limit : Nat) : (probePlan limit).place? [] = some (probePlan limit).rootPlace := rfl
  have hconcurrency (limit : Nat) := concurrency_of_executeUnder (hplan limit) (.rounds ..)
    (hroot limit) (hview limit)
  constructor
  · have hexact (limit : Nat) := ((hconcurrency limit).2.2 Future.filling_rounds (by
      simp only [List.forall_mem_cons, List.not_mem_nil, false_implies, implies_true, and_true]
      exact ⟨⟨nofun, _, invokes_probeGroup limit "a" rfl⟩,
        ⟨nofun, _, invokes_probeGroup limit "b" rfl⟩,
        ⟨nofun, _, invokes_probeGroup limit "c" rfl⟩⟩)).2 rfl (by decide)
    simp only [List.map_cons, List.map_nil, hexact]
    rfl
  · exact (hconcurrency 2).2.1 (probeGroup "c" 3) (by simp) nofun _
      (invokes_probeGroup 2 "c" rfl).1

end GraphQuery
