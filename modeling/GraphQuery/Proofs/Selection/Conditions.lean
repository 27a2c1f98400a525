import GraphQuery.Proofs.Schema.PossibleTypes
import GraphQuery.Proofs.Selection.Executable
import GraphQuery.Proofs.Selection.Flattening

/-!
# Type conditions

Fragments are tested twice. The walk tests the type condition against the static parent type, before
there are any values, and field collection tests it against the object that a value turned out to
be. Main statement: the walk refuses fragments on a type as impossible exactly if field collection
skips them for every object that the parent can be, and lets them pass exactly if it enters them for
one of these objects.
-/

namespace GraphQuery

namespace Scope

/-- The selection is a fragment with the type condition, and its directives are applicable. -/
inductive RestrictedTo (scope : Scope) (condition : TypeCondition) : Selection → Prop
  | inline {node selections kept} (hcondition : node.condition = some condition)
      (hkeeps : scope.keeps .inlineFragment node.directives = .ok kept) :
      RestrictedTo scope condition (.inline node selections)
  | spread {node fragment kept keptFragment}
      (hkeeps : scope.keeps .fragmentSpread node.directives = .ok kept)
      (hfragment : scope.fragment? node.name = some fragment)
      (hcondition : fragment.condition = condition)
      (hkeepsFragment :
        scope.keeps .fragmentDefinition fragment.directives = .ok keptFragment) :
      RestrictedTo scope condition (.spread node)

/-- The walk refuses every fragment on the type, whatever is inside, as impossible on the parent. -/
def Refuses (scope : Scope) (parent : TypeDefinition) (type : String) : Prop :=
  ∀ position selection, scope.RestrictedTo ⟨type, position⟩ selection →
    ∀ budget visiting depths,
      (scope.walkSelection (scope.walkSpread budget visiting) parent selection).run depths =
        .error (.validation (.incompatibleFragment type parent.name position))

/-- The walk finds no fault in any condition on the type, and walks what is inside on this type. -/
def Passes (scope : Scope) (parent type : TypeDefinition) : Prop :=
  ∀ position, scope.conditionType parent ⟨type.name, position⟩ = .ok type

/-- Nothing inside a fragment on the type is collected for the object. -/
def Skips (scope : Scope) (object type : String) : Prop :=
  ∀ position selection, scope.RestrictedTo ⟨type, position⟩ selection →
    ∀ budget groups,
      scope.collectSelection (scope.collectSpread object budget) object selection groups =
        .ok groups

/-- What is inside a fragment on the type is collected for the object, if directives keep it. -/
structure Enters (scope : Scope) (object type : String) : Prop where
  inline : ∀ {node position}, node.condition = some ⟨type, position⟩ →
    scope.keeps .inlineFragment node.directives = .ok true →
    ∀ budget selections groups,
      scope.collectSelection (scope.collectSpread object budget) object (.inline node selections)
          groups =
        scope.collectSelections (scope.collectSpread object budget) object selections groups
  spread : ∀ {node fragment}, scope.keeps .fragmentSpread node.directives = .ok true →
    scope.fragment? node.name = some fragment → fragment.condition.name = type →
    scope.keeps .fragmentDefinition fragment.directives = .ok true →
    ∀ budget groups,
      scope.collectSelection (scope.collectSpread object (budget + 1)) object (.spread node)
          groups =
        scope.collectSelections (scope.collectSpread object budget) object fragment.selections
          groups

/-- How the tests of fragments on `type` that stand on `parent` fit together. -/
structure TestsAgree (scope : Scope) (parent type : TypeDefinition) : Prop where
  /-- The objects that the parent can be are those that are registered to be of it. -/
  possible_iff : ∀ object, .object object ∈ scope.system.types →
    (scope.system.isPossible parent.name object.name = true ↔ object.Belongs parent)
  /-- Types overlap exactly if a fragment on one applies to some object that the other can be. -/
  overlap_iff : scope.system.overlap parent.name type.name = true ↔
    ∃ object, .object object ∈ scope.system.types ∧
      scope.system.isPossible parent.name object.name = true ∧
      scope.system.applies object.name type.name = true
  overlap_symm :
    scope.system.overlap parent.name type.name = scope.system.overlap type.name parent.name
  /-- On an object the test of the walk is that of field collection. -/
  overlap_object : ∀ object, parent = .object object →
    scope.system.overlap parent.name type.name = scope.system.applies object.name type.name
  /-- The walk refuses what field collection skips for every object that the parent can be. -/
  refuses_iff : scope.Refuses parent type.name ↔
    ∀ object, .object object ∈ scope.system.types →
      scope.system.isPossible parent.name object.name = true →
      scope.Skips object.name type.name
  /-- The walk lets pass what field collection enters for some object that the parent can be. -/
  passes_iff : scope.Passes parent type ↔
    ∃ object, .object object ∈ scope.system.types ∧
      scope.system.isPossible parent.name object.name = true ∧
      scope.Enters object.name type.name

def nodeOn (type : String) : InlineNode := ⟨⟨1, 1⟩, some ⟨type, ⟨1, 1⟩⟩, []⟩

/-- The fragment `... on type { selections }`. -/
def fragmentOn (type : String) (selections : List Selection) : Selection :=
  .inline (nodeOn type) selections

/-- The field `__typename`, which every object has. -/
def typenameNode : FieldNode := ⟨⟨1, 1⟩, none, "__typename", [], []⟩

variable {scope : Scope}

private theorem restrictedTo_fragmentOn (type : String) (selections : List Selection) :
    scope.RestrictedTo ⟨type, ⟨1, 1⟩⟩ (fragmentOn type selections) :=
  .inline rfl (scope.keeps_nil .inlineFragment)

section

variable {parent type : TypeDefinition}

private theorem conditionType_of_disjoint (htype : scope.system.get? type.name = some type)
    (hdisjoint : scope.system.overlap parent.name type.name = false) (position : Position) :
    scope.conditionType parent ⟨type.name, position⟩ =
      .error (.validation (.incompatibleFragment type.name parent.name position)) := by
  simp only [conditionType, htype, hdisjoint]
  rfl

private theorem refuses_of_disjoint (htype : scope.system.get? type.name = some type)
    (hdisjoint : scope.system.overlap parent.name type.name = false) :
    scope.Refuses parent type.name := by
  intro position selection hrestricted budget visiting depths
  have hcondition := conditionType_of_disjoint htype hdisjoint position
  cases hrestricted with
  | inline hnode hkeeps =>
    rw [walkSelection, hkeeps, hnode]
    simp only [hcondition]
    rfl
  | spread hkeeps hfragment hnode =>
    rw [walkSelection_spread hkeeps, walkSpread.eq_def]
    simp only [hfragment, hnode, hcondition]
    rfl

private theorem passes_iff_overlap (htype : scope.system.get? type.name = some type) :
    scope.Passes parent type ↔ scope.system.overlap parent.name type.name = true := by
  simp only [Passes, conditionType_eq_ok_iff, htype, true_and, forall_const]

private theorem Passes.not_refuses (h : scope.Passes parent type) :
    ¬ scope.Refuses parent type.name := by
  intro hrefuses
  have hrefused := hrefuses ⟨1, 1⟩ _ (restrictedTo_fragmentOn type.name []) 0 [] []
  have hpassed : scope.walkSelection (scope.walkSpread 0 []) parent (fragmentOn type.name []) =
      pure 0 := walkSelection_inlineOn rfl (scope.keeps_nil .inlineFragment) (h ⟨1, 1⟩)
  rw [hpassed] at hrefused
  cases hrefused

private theorem refuses_iff_disjoint (htype : scope.system.get? type.name = some type) :
    scope.Refuses parent type.name ↔ scope.system.overlap parent.name type.name = false := by
  refine ⟨fun hrefuses => ?_, refuses_of_disjoint htype⟩
  rw [← Bool.not_eq_true, ← passes_iff_overlap htype]
  exact fun hpasses => hpasses.not_refuses hrefuses

end

section

variable {object type : String}

private theorem collectSpread_of_not_applies {node : SpreadNode} {fragment : Fragment} {kept : Bool}
    (hfragment : scope.fragment? node.name = some fragment)
    (hkeeps : scope.keeps .fragmentDefinition fragment.directives = .ok kept)
    (happlies : scope.system.applies object fragment.condition.name = false) (budget : Nat)
    (groups : List FieldGroup) : scope.collectSpread object budget node groups = .ok groups := by
  rw [collectSpread.eq_def]
  simp only [hfragment, hkeeps, happlies, Bool.and_false]
  rfl

private theorem skips_of_not_applies (happlies : scope.system.applies object type = false) :
    scope.Skips object type := by
  intro position selection hrestricted budget groups
  cases hrestricted with
  | inline hcondition hkeeps =>
    rw [collectSelection_inline hkeeps, hcondition]
    simp only [Option.all_some, happlies, Bool.and_false]
    rfl
  | @spread _ _ kept _ hkeeps hfragment hcondition hkeepsFragment =>
    have hspread := collectSpread_of_not_applies hfragment hkeepsFragment
      (by rw [hcondition, happlies]) budget groups
    rw [collectSelection, hkeeps]
    cases kept with
    | false => rfl
    | true => exact hspread

private theorem enters_of_applies (happlies : scope.system.applies object type = true) :
    scope.Enters object type := by
  constructor
  case inline =>
    intro node position hcondition hkeeps budget selections groups
    rw [collectSelection_inline hkeeps, hcondition]
    simp only [Option.all_some, happlies, Bool.and_self, if_true]
  case spread =>
    rintro node fragment hkeeps hfragment rfl hkeepsFragment budget groups
    rw [collectSelection_spread hkeeps hfragment hkeepsFragment]
    simp only [happlies, Bool.and_self, if_true]

private theorem Enters.not_skips (h : scope.Enters object type) : ¬ scope.Skips object type := by
  intro hskips
  have hskipped := hskips ⟨1, 1⟩ _ (restrictedTo_fragmentOn type [.field typenameNode []]) 0 []
  have hentered := h.inline (rfl : (nodeOn type).condition = some ⟨type, ⟨1, 1⟩⟩)
    (scope.keeps_nil .inlineFragment) 0 [.field typenameNode []] []
  cases hentered.symm.trans hskipped

private theorem skips_iff_not_applies :
    scope.Skips object type ↔ scope.system.applies object type = false := by
  refine ⟨fun hskips => ?_, skips_of_not_applies⟩
  rw [← Bool.not_eq_true]
  exact fun happlies => (enters_of_applies happlies).not_skips hskips

private theorem enters_iff_applies :
    scope.Enters object type ↔ scope.system.applies object type = true := by
  refine ⟨fun henters => ?_, enters_of_applies⟩
  rw [← Bool.not_eq_false]
  exact fun happlies => henters.not_skips (skips_of_not_applies happlies)

end

end Scope

/-- In a finished schema the walk refuses fragments as impossible exactly if field collection could
never enter them. Its test does not tell the parent from the condition: both are types of some
registered object. On an object it is the test of field collection. -/
theorem testsAgree_of_finish {draft : SchemaDraft} {schema : ExecutableSchema}
    (hfinish : draft.finish = .ok schema) {scope : Scope} (hschema : scope.schema = schema.toSchema)
    {parent type : TypeDefinition} (hparent : parent ∈ schema.types)
    (htype : type ∈ schema.types) : scope.TestsAgree parent type := by
  have hsystem : scope.system = schema.toTypeSystem := by rw [Scope.system, hschema]
  have hwell := Scope.wellFormed_of_finish hschema hfinish
  rw [← hsystem] at hparent htype
  have hgetParent := hwell.unique parent hparent
  have hgetType := hwell.unique type htype
  have hoverlap := TypeSystem.overlap_iff_exists_applies hwell hgetParent hgetType
  simp only [hwell.object?_iff] at hoverlap
  constructor
  case possible_iff =>
    intro object hobject
    rw [hsystem] at hobject hparent ⊢
    exact SchemaDraft.isPossible_iff_belongs hfinish hparent hobject
  case overlap_iff => exact hoverlap
  case overlap_symm => exact TypeSystem.overlap_comm scope.system parent.name type.name
  case overlap_object =>
    rintro object rfl
    exact TypeSystem.overlap_eq_applies (hwell.object?_iff.2 hparent) type.name
  case refuses_iff =>
    rw [Scope.refuses_iff_disjoint hgetType, ← Bool.not_eq_true, hoverlap]
    simp only [not_exists, not_and, Scope.skips_iff_not_applies, Bool.not_eq_true]
  case passes_iff =>
    rw [Scope.passes_iff_overlap hgetType, hoverlap]
    simp only [Scope.enters_iff_applies]

def entryUnion : UnionType := ⟨"Entry", ["Note", "Page"], none⟩

def remarkUnion : UnionType := ⟨"Remark", ["Note"], none⟩

/-- Pages are nodes and entries; notes are entries and remarks, but no nodes. -/
def entryDraft : SchemaDraft :=
  [.object ⟨"Note", [⟨"id", .named "ID" false, []⟩], []⟩, .union entryUnion,
    .union remarkUnion].foldl SchemaDraft.register pageDraft

def entrySchema : ExecutableSchema :=
  { toTypeSystem := SchemaDraft.withPossibleTypes entryDraft.typeSystem
    resolvers := .parents
    directives := DirectiveSpec.builtins
    translator := .standard
    delays := .none }

def entryScope : Scope := { schema := entrySchema.toSchema, values := [], fragments := [] }

/-- The nodes of the finished schema. -/
def nodeInterface : InterfaceType :=
  { name := "Node"
    fields := pageObject.fields
    possibleTypes := ["Page"]
    typeResolver := none }

/-- A node can be a page, so fragments on entries pass on nodes. It can be no remark, so fragments
on remarks are refused on nodes, and no page enters them. -/
theorem testsAgree_of_entries :
    pageObject.Belongs (.interface nodeInterface) ∧
      entryScope.Passes (.interface nodeInterface) (.union entryUnion) ∧
      entryScope.Refuses (.interface nodeInterface) "Remark" ∧
      entryScope.Skips "Page" "Remark" := by
  have hfinish : entryDraft.finish = .ok entrySchema := rfl
  have hnode : .interface nodeInterface ∈ entrySchema.types :=
    List.mem_of_find?_eq_some (rfl : entrySchema.get? "Node" = some (.interface nodeInterface))
  have hentry : .union entryUnion ∈ entrySchema.types :=
    List.mem_of_find?_eq_some (rfl : entrySchema.get? "Entry" = some (.union entryUnion))
  have hremark : .union remarkUnion ∈ entrySchema.types :=
    List.mem_of_find?_eq_some (rfl : entrySchema.get? "Remark" = some (.union remarkUnion))
  have hpage : .object pageObject ∈ entrySchema.types :=
    List.mem_of_find?_eq_some (rfl : entrySchema.get? "Page" = some (.object pageObject))
  have hentries := testsAgree_of_finish hfinish (rfl : entryScope.schema = _) hnode hentry
  have hremarks := testsAgree_of_finish hfinish (rfl : entryScope.schema = _) hnode hremark
  have henters : entryScope.Enters "Page" "Entry" := Scope.enters_of_applies rfl
  have hrefuses : entryScope.Refuses (.interface nodeInterface)
      (TypeDefinition.union remarkUnion).name := Scope.refuses_of_disjoint rfl rfl
  exact ⟨(hentries.possible_iff pageObject hpage).1 rfl,
    hentries.passes_iff.2 ⟨pageObject, hpage, rfl, henters⟩, hrefuses,
    hremarks.refuses_iff.1 hrefuses pageObject hpage rfl⟩

end GraphQuery
