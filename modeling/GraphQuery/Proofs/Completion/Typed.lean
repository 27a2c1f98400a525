import GraphQuery.Proofs.Completion.Fatal
import GraphQuery.Proofs.TypeSystem.Admits

/-!
# Typed places

Which plans come to no field that its object does not have. The walk checks a selection against
static types and field by field, a run merges the fields of a key and takes the types of the
object that it finds. Main statement: a rejected request has executed nothing, and an accepted
one fails exactly if its run comes to an undefined field, which it never does if objects keep to
the types of their interfaces and no key stands for two fields.
-/

namespace GraphQuery

namespace TypeSystem

/-- Objects give the fields of their interfaces the types that the interfaces declare, up to lists
and nulls. The checks of a schema do not ask for it. -/
def Faithful (system : TypeSystem) : Prop :=
  ∀ interface object, .interface interface ∈ system.types →
    object.name ∈ interface.possibleTypes → system.object? object.name = some object →
    ∀ name declared own, FieldDefinition.find? interface.fields name = some declared →
      object.field? name = some own → own.type.innermost = declared.type.innermost

variable {system : TypeSystem} {object : ObjectType}

private theorem Admits.exists_field (hwell : system.WellFormed) (hfaithful : system.Faithful)
    (hobject : system.object? object.name = some object) {type : TypeDefinition}
    (hadmits : system.Admits object type) {name : String} {declared : FieldDefinition}
    (hdeclared : type.field? name = some declared) :
    ∃ own, object.field? name = some own ∧ own.type.innermost = declared.type.innermost := by
  obtain ⟨hget, hmem⟩ := hadmits
  cases type with
  | object other =>
    have hname : object.name = other.name := List.mem_singleton.1 hmem
    have hother := object?_eq_some_iff.2 hget
    rw [TypeDefinition.name, ← hname, hobject] at hother
    obtain rfl := Option.some.inj hother
    exact ⟨declared, hdeclared, rfl⟩
  | interface interface =>
    obtain ⟨own, hown⟩ := Admits.has_field hwell hobject ⟨hget, hmem⟩ hdeclared
    exact ⟨own, hown, hfaithful interface _ (List.mem_of_find?_eq_some hget) hmem hobject name
      declared own hdeclared hown⟩
  | union | enum | scalar => cases hdeclared

end TypeSystem

namespace Plan

/-- Wherever a run comes, the fields that it merges under a key have one name. -/
def Unmixed (plan : Plan) : Prop :=
  ∀ path place object groups value, plan.place? path = some place →
    plan.view place path = .fields object groups value →
    ∀ group ∈ groups, ∀ field ∈ group.fields, field.node.name = group.first.node.name

/-- The selections that make up the operation and the fragments of a plan. -/
inductive Occurs (plan : Plan) : Selection → Prop
  | operation {selection} (hmem : selection ∈ plan.operation.selections) : Occurs plan selection
  | fragment {fragment selection} (hfragment : fragment ∈ plan.fragments)
      (hmem : selection ∈ fragment.selections) : Occurs plan selection
  | field {node selections selection} (houter : Occurs plan (.field node selections))
      (hmem : selection ∈ selections) : Occurs plan selection
  | inline {node selections selection} (houter : Occurs plan (.inline node selections))
      (hmem : selection ∈ selections) : Occurs plan selection

/-- The selections are valid on the type up to a depth. -/
def SelectsOn (plan : Plan) (type : TypeDefinition) (depth : Nat)
    (selections : List (List Selection)) : Prop :=
  ∀ list ∈ selections, ∀ selection ∈ list, plan.Valid type depth selection

/-- The invariant of the places where static types and objects agree. -/
def Typed (plan : Plan) : Place → Prop
  | .level object selections _ =>
    plan.system.object? object.name = some object ∧
      ∃ depth, plan.SelectsOn (.object object) depth selections
  | .typename .. => True
  | .undefined .. => False
  | .value site type _ =>
    ∃ found, plan.system.innermost? type = some found ∧
      ∃ depth, plan.SelectsOn found depth site.selections

section

variable {plan : Plan}

private theorem closed_occurs : plan.Closed plan.Occurs :=
  ⟨fun _ _ houter _ hmem => .inline houter hmem, fun _ hfragment _ hmem => .fragment hfragment hmem⟩

/-- What is selected on an object or below a field occurs in the document. -/
def Written (plan : Plan) : Place → Prop
  | .level _ selections _ => ∀ list ∈ selections, ∀ selection ∈ list, plan.Occurs selection
  | .value site _ _ => ∀ list ∈ site.selections, ∀ selection ∈ list, plan.Occurs selection
  | _ => True

private theorem Written.occurs_of_collect {place : Place} {path : ResponsePath}
    {object : ObjectType}
    {selections : List (List Selection)} {value : Json} (hwritten : plan.Written place)
    (hat : plan.ObjectAt place path object selections value) {groups : List FieldGroup}
    (hcollect : plan.collect object.name selections = .ok groups) :
    ∀ group ∈ groups, ∀ field ∈ group.fields,
      field.node.responseKey = group.key ∧ plan.Occurs (.field field.node field.selections) := by
  have hoccurs : ∀ list ∈ selections, ∀ selection ∈ list, plan.Occurs selection := by
    cases hat with
    | level | object | abstract => exact hwritten
  exact Scope.occurs_of_collect closed_occurs hoccurs hcollect

private theorem Written.leads {place child : Place} {path : ResponsePath}
    (hwritten : plan.Written place)
    (hleads : plan.Leads place path child) : plan.Written child := by
  cases hleads with
  | item => exact hwritten
  | @field place path object selections value groups group hat hcollect hgroup =>
    have hoccurs := hwritten.occurs_of_collect hat hcollect group hgroup
    simp only [placeOf]
    split
    · trivial
    · split
      · trivial
      · intro list hlist selection hmem
        obtain ⟨field, hfield, rfl⟩ := List.mem_map.1 hlist
        exact .field (hoccurs field hfield).2 hmem

theorem occurs_of_view {path : ResponsePath} {place : Place} {object : ObjectType}
    {groups : List FieldGroup} {value : Json} (hplace : plan.place? path = some place)
    (hview : plan.view place path = .fields object groups value) :
    ∀ group ∈ groups, ∀ field ∈ group.fields,
      field.node.responseKey = group.key ∧ plan.Occurs (.field field.node field.selections) := by
  have hroot : plan.Written plan.rootPlace := by
    intro list hlist selection hmem
    exact .operation (List.mem_singleton.1 hlist ▸ hmem)
  have hwritten : plan.Written place :=
    place_induction hroot (fun _ _ _ _ hwritten hleads => hwritten.leads hleads) hplace
  have hshows := plan.shows_view place path
  rw [hview] at hshows
  cases hshows with
  | fields hat hcollect => exact hwritten.occurs_of_collect hat hcollect

private theorem unmixed_of_keys
    (hkeys : ∀ node other selections others, plan.Occurs (.field node selections) →
      plan.Occurs (.field other others) → node.responseKey = other.responseKey →
      node.name = other.name) :
    plan.Unmixed := by
  intro path place object groups value hplace hview group hgroup field hfield
  have hoccurs := occurs_of_view hplace hview group hgroup
  obtain ⟨hkey, hfield⟩ := hoccurs field hfield
  obtain ⟨hfirst, hgroup⟩ := hoccurs group.first List.mem_cons_self
  exact hkeys _ _ _ _ hfield hgroup (hkey.trans hfirst.symm)

private theorem Typed.object {place : Place} {path : ResponsePath} {object : ObjectType}
    {selections : List (List Selection)}
    {value : Json} (htyped : plan.Typed place)
    (hat : plan.ObjectAt place path object selections value) :
    plan.system.object? object.name = some object ∧
      ∃ type, plan.system.Admits object type ∧ ∃ depth, plan.SelectsOn type depth selections := by
  cases hat with
  | level =>
    obtain ⟨hobject, hselects⟩ := htyped
    exact ⟨hobject, .object object, TypeSystem.admits_self hobject, hselects⟩
  | object _ hget =>
    obtain ⟨found, hfound, hselects⟩ := htyped
    obtain rfl : .object object = found := Option.some.inj (hget.symm.trans hfound)
    have hobject := TypeSystem.object?_name (TypeSystem.object?_eq_some_iff.2 hget)
    exact ⟨hobject, .object object, TypeSystem.admits_self hobject, hselects⟩
  | @abstract _ name _ type _ _ _ _ hget _ hruntime =>
    obtain ⟨found, hfound, hselects⟩ := htyped
    obtain rfl : type = found := Option.some.inj (hget.symm.trans hfound)
    obtain ⟨⟨other, hother⟩, hpossible⟩ := possible_of_runtimeType hruntime
    rw [TypeSystem.name_of_get? hget] at hpossible
    have hadmits := TypeSystem.admits_of_isPossible hget hpossible
    exact ⟨TypeSystem.object?_name hother, type, hadmits, hselects⟩

private theorem declared_of_valid {parent : TypeDefinition} {depth : Nat} {node : FieldNode}
    {selections : List Selection} (h : plan.Valid parent depth (.field node selections))
    (htypename : node.name ≠ "__typename") :
    ∃ declared type, parent.field? node.name = some declared ∧
      plan.system.innermost? declared.type = some type := by
  cases h with
  | typename _ hname => exact absurd hname htypename
  | leaf _ _ hdeclared htype | composite _ _ hdeclared htype => exact ⟨_, _, hdeclared, htype⟩

private theorem selectsOn_of_validField (hwell : plan.system.WellFormed)
    (hfaithful : plan.system.Faithful) {object : ObjectType}
    (hobject : plan.system.object? object.name = some object) {depth : Nat} {group : FieldGroup}
    (hvalid : ∀ field ∈ group.fields,
      plan.ValidField (plan.system.Admits object) (depth + 1) field)
    {name : String} (hnames : ∀ field ∈ group.fields, field.node.name = name)
    {own : FieldDefinition} (hown : object.field? name = some own) {type : TypeDefinition}
    (htype : plan.system.innermost? own.type = some type) :
    plan.SelectsOn type depth group.selections := by
  intro list hlist
  obtain ⟨⟨node, selections⟩, hfield, rfl⟩ := List.mem_map.1 hlist
  obtain ⟨parent, hadmits, hselection⟩ := hvalid _ hfield
  have hname : node.name = name := hnames _ hfield
  cases hselection with
  | typename | leaf => simp
  | @composite _ _ _ _ declared found _ _ _ hdeclared hfound _ _ hall =>
    obtain ⟨other, hother, hinnermost⟩ :=
      hadmits.exists_field hwell hfaithful hobject hdeclared
    obtain rfl := Option.some.inj (hother.symm.trans (hname ▸ hown))
    rw [TypeSystem.innermost?, hinnermost] at htype
    obtain rfl : found = type := Option.some.inj (hfound.symm.trans htype)
    exact hall

private theorem typed_placeOf (hwell : plan.system.WellFormed) (hfaithful : plan.system.Faithful)
    {object : ObjectType} (hobject : plan.system.object? object.name = some object)
    {depth : Nat} {group : FieldGroup}
    (hvalid : ∀ field ∈ group.fields, plan.ValidField (plan.system.Admits object) depth field)
    (hnames : ∀ field ∈ group.fields, field.node.name = group.first.node.name) (parent : Json)
    (path : ResponsePath) :
    plan.Typed (plan.placeOf object parent path group) := by
  by_cases htypename : group.first.node.name = "__typename"
  · rw [placeOf_typename htypename]
    trivial
  · -- The first field decides what is executed; the walk has checked it on a static type only.
    obtain ⟨static, hadmits, hfirst⟩ := hvalid group.first List.mem_cons_self
    obtain ⟨declared, type, hdeclared, htype⟩ := declared_of_valid hfirst htypename
    obtain ⟨own, hown, hinnermost⟩ := hadmits.exists_field hwell hfaithful hobject hdeclared
    have hfound : plan.system.innermost? own.type = some type := by
      rw [TypeSystem.innermost?, hinnermost]
      exact htype
    obtain ⟨-, less, rfl⟩ := keeps_of_valid hfirst
    rw [placeOf_field htypename hown]
    exact ⟨type, hfound, less,
      selectsOn_of_validField hwell hfaithful hobject hvalid hnames hown hfound⟩

private theorem Typed.leads (hwell : plan.system.WellFormed) (hfaithful : plan.system.Faithful)
    (hunmixed : plan.Unmixed) {path : ResponsePath} {place child : Place}
    (hplace : plan.place? path = some place) (htyped : plan.Typed place)
    (hleads : plan.Leads place path child) : plan.Typed child := by
  cases hleads with
  | item => exact htyped
  | @field place path object selections value groups group hat hcollect hgroup =>
    have hview := view_of_shows (.fields hat hcollect)
    have hnames := hunmixed path place object groups value hplace hview group hgroup
    obtain ⟨hobject, type, hadmits, depth, hselects⟩ := htyped.object hat
    have hnarrows : plan.Narrows object.name (plan.system.Admits object) :=
      fun _ _ hget happlies => TypeSystem.admits_of_applies hobject hget happlies
    obtain ⟨found, hfound, hvalid⟩ := Scope.exists_collect_eq_ok hnarrows
      fun list hlist => ⟨type, hadmits, hselects list hlist⟩
    obtain rfl := Except.ok.inj (hcollect.symm.trans hfound)
    exact typed_placeOf hwell hfaithful hobject (hvalid group hgroup) hnames value path

/-- In a faithful schema a plan that does not mix fields comes to no undefined field. -/
theorem not_undefined_of_unmixed {schema : ExecutableSchema} {settings : Settings}
    {request : Request} (hwell : schema.toTypeSystem.WellFormed)
    (hfaithful : schema.toTypeSystem.Faithful)
    (hplan : ofRequest schema settings request = .ok plan) (hunmixed : plan.Unmixed)
    {path : ResponsePath} {object : String} {node : FieldNode} :
    plan.place? path ≠ some (.undefined object node) := by
  intro hplace
  obtain ⟨hschema, -, hroot, haccepted⟩ := accepted_of_ofRequest hplan
  have hsystem : plan.system = schema.toTypeSystem := by rw [Scope.system, hschema]
  rw [← hsystem] at hwell hfaithful
  have hobject : plan.system.object? plan.rootType.name = some plan.rootType :=
    TypeSystem.object?_name (hsystem ▸ hroot)
  have hselects :
      plan.SelectsOn (.object plan.rootType) plan.depth [plan.operation.selections] := by
    intro list hlist
    exact List.mem_singleton.1 hlist ▸ Scope.valid_of_depth_eq_ok haccepted.depth
  exact place_induction (motive := plan.Typed) ⟨hobject, plan.depth, hselects⟩
    (fun _ _ _ hplace htyped hleads => htyped.leads hwell hfaithful hunmixed hplace hleads) hplace

end

end Plan

/-- A request that is rejected has executed nothing. An accepted one fails exactly if its run comes
to a field that the object there does not have, and reports such a field. This takes an object
that changes the type of a field of its interface, or fields of several names under one key:
without either the run has a response, whatever the resolvers return. -/
theorem failure_of_execute {draft : SchemaDraft} {schema : ExecutableSchema}
    (hfinish : draft.finish = .ok schema) (settings : Settings) (request : Request) :
    (∀ fault, Plan.ofRequest schema settings request = .error fault →
      (execute schema settings request).value = .error fault ∧
        (execute schema settings request).events = []) ∧
    ∀ plan, Plan.ofRequest schema settings request = .ok plan →
      ((∃ fault, (execute schema settings request).value = .error fault) ↔
        ∃ path object node, plan.place? path = some (.undefined object node)) ∧
      (∀ fault, (execute schema settings request).value = .error fault →
        ∃ path object node, plan.place? path = some (.undefined object node) ∧
          fault = .validation (.unknownField node.name object node.position)) ∧
      (schema.toTypeSystem.Faithful → plan.Unmixed →
        ∃ response, (execute schema settings request).value = .ok response) := by
  have hwell := SchemaDraft.wellFormed_of_finish hfinish
  refine ⟨fun fault hfault => ?_, fun plan hplan => ?_⟩
  · rw [execute, hfault]
    exact ⟨rfl, rfl⟩
  · have hexecute : execute schema settings request = plan.run := by rw [execute, hplan]
    obtain ⟨hiff, hblame⟩ := Plan.run_error_iff hwell hplan
    rw [hexecute]
    refine ⟨hiff, hblame, fun hfaithful hunmixed => ?_⟩
    cases hrun : plan.run.value with
    | ok response => exact ⟨response, rfl⟩
    | error fault =>
      obtain ⟨path, object, node, hplace, -⟩ := hblame fault hrun
      exact absurd hplace (Plan.not_undefined_of_unmixed hwell hfaithful hplan hunmixed)

/-- A schema in which an object gives the field `link` of its interface the type `own`. -/
def linkDraft (own : String) : SchemaDraft :=
  let field (name type : String) : FieldDefinition := ⟨name, .named type true, []⟩
  [.object ⟨"Query", [field "node" "Node"], []⟩,
    .interface ⟨"Node", [field "link" "A"], [], none⟩,
    .object ⟨"Page", [field "link" own], ["Node"]⟩,
    .object ⟨"A", [field "a" "Int"], []⟩,
    .object ⟨"B", [field "b" "Int"], []⟩].foldl SchemaDraft.register (.new "Query")

def linkSchema (own : String) : ExecutableSchema :=
  { toTypeSystem := SchemaDraft.withPossibleTypes (linkDraft own).typeSystem
    resolvers := .parents
    directives := DirectiveSpec.builtins
    translator := .standard
    delays := .none }

def linkField (column : Nat) (name : String) (selections : List Selection) : Selection :=
  .field ⟨⟨1, column⟩, none, name, [], []⟩ selections

/-- The request `{ node { link { name } } }` where the value of `node` is a `Page`. -/
def linkRequest (name : String) : Request :=
  { document :=
      { operations := .single ⟨⟨1, 1⟩, .query, [], [],
          [linkField 3 "node" [linkField 10 "link" [linkField 17 name []]]]⟩
        fragments := [] }
    operationName := none
    inputs := .empty
    root := .object [("node", .object [("__typename", .string "Page"), ("link", .object [])])] }

private theorem faithful_linkSchema : (linkSchema "A").Faithful := by
  intro interface object hmem hpossible hobject name declared own hdeclared hown
  obtain rfl : interface = ⟨"Node", [⟨"link", .named "A" true, []⟩], ["Page"], none⟩ := by
    simpa [linkSchema, linkDraft, SchemaDraft.withPossibleTypes, SchemaDraft.typeSystem,
      SchemaDraft.register, SchemaDraft.new, SchemaDraft.builtinScalars,
      SchemaDraft.declarersOf] using hmem
  rw [List.mem_singleton.1 hpossible] at hobject
  cases hobject
  have hsame : declared = own := Option.some.inj (hdeclared.symm.trans hown)
  rw [hsame]

private theorem mem_of_occurs {plan : Plan} (hfragments : plan.fragments = [])
    (hoperation : plan.operation.selections =
      [linkField 3 "node" [linkField 10 "link" [linkField 17 "a" []]]])
    {selection : Selection} (h : plan.Occurs selection) :
    selection ∈ [linkField 3 "node" [linkField 10 "link" [linkField 17 "a" []]],
      linkField 10 "link" [linkField 17 "a" []], linkField 17 "a" []] := by
  induction h with
  | operation hmem => exact List.mem_append_left _ (hoperation ▸ hmem)
  | fragment hfragment =>
    rw [hfragments] at hfragment
    cases hfragment
  | inline _ _ ih => simp [linkField] at ih
  | field _ hmem ih =>
    simp only [linkField, List.mem_cons, Selection.field.injEq, List.not_mem_nil, or_false] at ih ⊢
    rcases ih with ⟨-, rfl⟩ | ⟨-, rfl⟩ | ⟨-, rfl⟩
    · exact .inr (.inl (List.mem_singleton.1 hmem))
    · exact .inr (.inr (List.mem_singleton.1 hmem))
    · cases hmem

private theorem unmixed_linkRequest {plan : Plan}
    (hplan : Plan.ofRequest (linkSchema "A") .default (linkRequest "a") = .ok plan) :
    plan.Unmixed := by
  have hplain {node : FieldNode} {selections : List Selection}
      (h : plan.Occurs (.field node selections)) : node.responseKey = node.name := by
    have hmem := mem_of_occurs (Except.ok.inj hplan ▸ rfl) (Except.ok.inj hplan ▸ rfl) h
    simp only [linkField, List.mem_cons, Selection.field.injEq, List.not_mem_nil, or_false] at hmem
    rcases hmem with ⟨rfl, -⟩ | ⟨rfl, -⟩ | ⟨rfl, -⟩ <;> rfl
  refine Plan.unmixed_of_keys fun node other selections others hnode hother hkey => ?_
  rw [← hplain hnode, hkey, hplain hother]

/-- Whether the request fails depends on what the object makes of the interface's field. -/
theorem failure_of_linkRequest :
    ((∃ fault, Plan.ofRequest (linkSchema "A") .default (linkRequest "b") = .error fault ∧
        (execute (linkSchema "A") .default (linkRequest "b")).events = []) ∧
      ∃ response, (execute (linkSchema "A") .default (linkRequest "a")).value = .ok response) ∧
    (∃ fault, (execute (linkSchema "B") .default (linkRequest "a")).value = .error fault) ∧
      (execute (linkSchema "B") .default (linkRequest "a")).events ≠ [] := by
  have haccepted : (linkDraft "A").finish = .ok (linkSchema "A") := rfl
  have haccepted' : (linkDraft "B").finish = .ok (linkSchema "B") := rfl
  obtain ⟨hrejected, -⟩ := failure_of_execute haccepted .default (linkRequest "b")
  obtain ⟨-, hplans⟩ := failure_of_execute haccepted .default (linkRequest "a")
  obtain ⟨-, hplans'⟩ := failure_of_execute haccepted' .default (linkRequest "a")
  refine ⟨⟨⟨_, rfl, (hrejected _ rfl).2⟩, ?_⟩, ?_, nofun⟩
  · exact (hplans _ rfl).2.2 faithful_linkSchema (unmixed_linkRequest rfl)
  · exact (hplans' _ rfl).1.2 ⟨[.field "node", .field "link", .field "a"], _, _, rfl⟩

end GraphQuery
