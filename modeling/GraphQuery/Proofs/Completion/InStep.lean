import GraphQuery.Completion.Run
import GraphQuery.Proofs.Success

/-!
# Levels in step

Two plans that complete an object after different selections, group by group alike. Main statement:
if two ways to collect fields find groups that are executed alike, and the selections below these
are related again, then the levels of both plans, and so their runs, are alike, event by event.
-/

namespace GraphQuery

/-- The nodes of two fields, of which the second is executed as the first is. -/
structure FieldNode.RunsAs (bindings : Bindings) (node node' : FieldNode) : Prop where
  position : node'.position = node.position
  name : node'.name = node.name
  arguments : node'.arguments = node.arguments
  wraps : ∀ producer parent,
    bindings.wrapProducer producer parent node'.directives =
      bindings.wrapProducer producer parent node.directives

theorem FieldNode.RunsAs.refl (bindings : Bindings) (node : FieldNode) :
    FieldNode.RunsAs bindings node node :=
  ⟨rfl, rfl, rfl, fun _ _ => rfl⟩

/-- Groups under one key whose first fields are executed alike and whose selections are related. -/
structure FieldGroup.InStep (bindings : Bindings)
    (below : List (List Selection) → List (List Selection) → Prop) (group group' : FieldGroup) :
    Prop where
  key : group'.key = group.key
  first : FieldNode.RunsAs bindings group.first.node group'.first.node
  below : below group.selections group'.selections

namespace Plan

/-- Plans that read values alike: with the same schema and variables, and in the same times. -/
structure SameBasis (plan other : Plan) : Prop where
  bindings : other.toBindings = plan.toBindings
  delays : other.delays = plan.delays

/-- Plans that read values alike and serialize leaves alike. -/
structure ReadsAlike (plan other : Plan) : Prop where
  system : other.system = plan.system
  arguments : other.bindArguments = plan.bindArguments
  wraps : other.wrapProducer = plan.wrapProducer
  leaf : ∀ type, type.isLeaf = true → other.schema.leaf type = plan.schema.leaf type
  resolvers : other.schema.resolvers = plan.schema.resolvers
  delays : other.delays = plan.delays

section

variable {plan other : Plan} {schedule : Schedule} {level level' : Level}

theorem SameBasis.refl (plan : Plan) : plan.SameBasis plan := ⟨rfl, rfl⟩

theorem SameBasis.readsAlike (h : plan.SameBasis other) : plan.ReadsAlike other where
  system := by rw [Scope.system, Scope.system, h.bindings]
  arguments := by rw [h.bindings]
  wraps := by rw [h.bindings]
  leaf := by simp only [h.bindings, implies_true]
  resolvers := by rw [h.bindings]
  delays := h.delays

private theorem ReadsAlike.runtimeType_eq (h : plan.ReadsAlike other) :
    other.runtimeType = plan.runtimeType := by
  unfold runtimeType
  rw [h.system]

private theorem ReadsAlike.producer_eq (h : plan.ReadsAlike other) :
    other.producer = plan.producer := by
  unfold producer resolve
  rw [h.arguments, h.wraps, h.resolvers, h.delays]

private theorem completeNamed_inStep (hreads : plan.ReadsAlike other) (site : FieldSite)
    {selections : List (List Selection)}
    (h : ∀ object value path,
      level' object selections value path = level object site.selections value path)
    (name : String) (value : Json) (path : ResponsePath) :
    other.completeNamed level' { site with selections } name value path =
      plan.completeNamed level site name value path := by
  have habstract (type : TypeDefinition) :
      other.completeAbstract level' { site with selections } type value path =
        plan.completeAbstract level site type value path := by
    have hruntime : other.runtimeType { site with selections } type value path =
        plan.runtimeType site type value path := by
      rw [hreads.runtimeType_eq]
      rfl
    unfold completeAbstract
    rw [hruntime]
    cases plan.runtimeType site type value path with
    | ok object => exact h object value path
    | error message => rfl
  unfold completeNamed
  rw [hreads.system]
  cases plan.system.get? name with
  | none => rfl
  | some type =>
    cases type with
    | object object => exact h object value path
    | interface | union => exact habstract _
    | enum type =>
      simp only [hreads.leaf (.enum type) rfl]
      rfl
    | scalar type =>
      simp only [hreads.leaf (.scalar type) rfl]
      rfl

private theorem completeValue_inStep (hreads : plan.ReadsAlike other) (site : FieldSite)
    {selections : List (List Selection)}
    (h : ∀ object value path,
      level' object selections value path = level object site.selections value path)
    (type : TypeExpr) (value : Json) (path : ResponsePath) :
    other.completeValue schedule level' { site with selections } type value path =
      plan.completeValue schedule level site type value path := by
  induction type generalizing value path with
  | named name nullable =>
    simp only [completeValue, completeNamed_inStep hreads site h]
    rfl
  | list item nullable ih =>
    simp only [completeValue, ih]
    rfl

private theorem resolveField_inStep (hreads : plan.ReadsAlike other)
    {below : List (List Selection) → List (List Selection) → Prop} {group group' : FieldGroup}
    (hgroup : group.InStep plan.toBindings below group')
    (h : ∀ object value path,
      level' object group'.selections value path = level object group.selections value path)
    (object : ObjectType) (parent : Json) (path : ResponsePath) :
    other.resolveField schedule level' object parent path group' =
      plan.resolveField schedule level object parent path group := by
  obtain ⟨hposition, hname, harguments, hwraps⟩ := hgroup.first
  have htypename : other.resolveTypename object parent group'.first.node =
      plan.resolveTypename object parent group.first.node := by
    unfold resolveTypename
    simp only [hreads.wraps, hwraps, hposition]
  have hproducer (field : FieldDefinition) (path : ResponsePath) :
      other.producer object field parent group'.first.node path =
        plan.producer object field parent group.first.node path := by
    rw [hreads.producer_eq]
    unfold producer
    simp only [harguments, hwraps]
  have hvalue (field : FieldDefinition) (value : Json) (path : ResponsePath) :
      other.completeValue schedule level'
          ⟨object.name, field.name, group.first.node.position, group'.selections⟩ field.type value
          path =
        plan.completeValue schedule level
          ⟨object.name, field.name, group.first.node.position, group.selections⟩ field.type value
          path :=
    completeValue_inStep hreads ⟨_, _, _, group.selections⟩ h field.type value path
  unfold resolveField
  simp only [hgroup.key, hname, hposition, htypename, hproducer, hvalue]

theorem completeGroups_inStep (hreads : plan.ReadsAlike other)
    {below : List (List Selection) → List (List Selection) → Prop}
    {groups groups' : List FieldGroup}
    (hgroups : List.Forall₂ (FieldGroup.InStep plan.toBindings below) groups groups')
    (h : ∀ selections selections', below selections selections' → ∀ object value path,
      level' object selections' value path = level object selections value path)
    (object : ObjectType) (value : Json) (path : ResponsePath) :
    other.completeGroups schedule level' object groups' value path =
      plan.completeGroups schedule level object groups value path := by
  have hfields : groups'.map (other.resolveField schedule level' object value path) =
      groups.map (plan.resolveField schedule level object value path) := by
    refine map_eq_of_forall₂ hgroups fun group group' hgroup => ?_
    exact resolveField_inStep hreads hgroup (h _ _ hgroup.below) object value path
  have hkeys : groups'.map FieldGroup.key = groups.map FieldGroup.key :=
    map_eq_of_forall₂ hgroups fun _ _ hgroup => hgroup.key
  rw [completeGroups, completeGroups, hfields, hkeys]

/-- Levels run alike on related selections, if these are collected to groups in step whose
selections are related one level below. -/
theorem levelWith_inStep (schedule : Schedule) (hreads : plan.ReadsAlike other)
    {collect collect' : Collection}
    {related : Nat → List (List Selection) → List (List Selection) → Prop}
    (hcollect : ∀ depth object selections selections', related (depth + 1) selections selections' →
      Related (List.Forall₂ (FieldGroup.InStep plan.toBindings (related depth)))
        (collect object selections) (collect' object selections'))
    (depth : Nat) (object : ObjectType) (selections selections' : List (List Selection))
    (value : Json) (path : ResponsePath) (h : related depth selections selections') :
    other.levelWith schedule collect' depth object selections' value path =
      plan.levelWith schedule collect depth object selections value path := by
  induction depth generalizing object selections selections' value path with
  | zero => rfl
  | succ depth ih =>
    have hrelated := hcollect depth object.name selections selections' h
    rw [levelWith, levelWith]
    generalize collect object.name selections = found at hrelated
    generalize collect' object.name selections' = found' at hrelated
    cases hrelated with
    | error => rfl
    | ok hgroups =>
      refine completeGroups_inStep hreads hgroups ?_ object value path
      intro inner inner' hinner object value path
      exact ih object inner inner' value path hinner

/-- Runs are alike if the selections of the two operations are related as deep as these are. -/
theorem runWith_inStep (schedule : Schedule) (hreads : plan.ReadsAlike other)
    {collect collect' : Collection}
    {related : Nat → List (List Selection) → List (List Selection) → Prop}
    (hcollect : ∀ depth object selections selections', related (depth + 1) selections selections' →
      Related (List.Forall₂ (FieldGroup.InStep plan.toBindings (related depth)))
        (collect object selections) (collect' object selections'))
    (hquery : rootTypeOf other.system other.operation = rootTypeOf plan.system plan.operation)
    (hdepth : other.depth = plan.depth) (hroot : other.root = plan.root)
    (h : related plan.depth [plan.operation.selections] [other.operation.selections]) :
    other.runWith schedule collect' = plan.runWith schedule collect := by
  rw [runWith, runWith, hquery, hdepth, hroot]
  cases rootTypeOf plan.system plan.operation with
  | error violation => rfl
  | ok object =>
    have hlevel := levelWith_inStep schedule hreads hcollect plan.depth object _ _ plan.root [] h
    exact congrArg (Future.bind · fun completion => .done (respond completion)) hlevel

end

end Plan

end GraphQuery
