import GraphQuery.Proofs.Selection.Reached
import Mathlib.Logic.Function.Basic

/-!
# Renamed response keys

Selections whose fields have other response keys, one for each old one. Main statements: they are
walked like the old ones, and they ask for the same fields in the same order, in groups that are
renamed.
-/

namespace GraphQuery

variable {r : String → String}

/-- The field under its renamed key. -/
def FieldNode.renamed (r : String → String) (node : FieldNode) : FieldNode :=
  { node with aliasName := some (r node.responseKey) }

@[simp] theorem FieldNode.responseKey_renamed (node : FieldNode) :
    (node.renamed r).responseKey = r node.responseKey := rfl

mutual

/-- The selection with all its fields under renamed keys, at any depth. -/
def Selection.renamed (r : String → String) : Selection → Selection
  | .field node selections => .field (node.renamed r) (Selection.renamedAll r selections)
  | .spread node => .spread node
  | .inline node selections => .inline node (Selection.renamedAll r selections)

def Selection.renamedAll (r : String → String) : List Selection → List Selection
  | [] => []
  | selection :: rest => selection.renamed r :: Selection.renamedAll r rest

end

private theorem Selection.isEmpty_renamedAll (selections : List Selection) :
    (Selection.renamedAll r selections).isEmpty = selections.isEmpty := by
  cases selections <;> rfl

def Fragment.renamed (r : String → String) (fragment : Fragment) : Fragment :=
  { fragment with selections := Selection.renamedAll r fragment.selections }

def Operation.renamed (r : String → String) (operation : Operation) : Operation :=
  { operation with selections := Selection.renamedAll r operation.selections }

private theorem Fragment.find?_renamed (fragments : List Fragment) (name : String) :
    Fragment.find? (fragments.map (Fragment.renamed r)) name =
      (Fragment.find? fragments name).map (Fragment.renamed r) := by
  unfold Fragment.find?
  rw [List.find?_map]
  rfl

def SelectedField.renamed (r : String → String) (field : SelectedField) : SelectedField :=
  { node := field.node.renamed r, selections := Selection.renamedAll r field.selections }

namespace FieldGroup

def renamed (r : String → String) (group : FieldGroup) : FieldGroup :=
  { key := r group.key
    first := group.first.renamed r
    rest := group.rest.map (SelectedField.renamed r) }

theorem selections_renamed (group : FieldGroup) :
    (group.renamed r).selections = group.selections.map (Selection.renamedAll r) := by
  simp only [selections, fields, renamed, List.map_cons, List.map_map]
  rfl

private theorem add_renamed (hr : r.Injective) (field : SelectedField) (groups : List FieldGroup) :
    add (field.renamed r) (groups.map (renamed r)) = (add field groups).map (renamed r) := by
  induction groups with
  | nil => rfl
  | cons group groups ih =>
    have hkey : (group.renamed r).key = (field.renamed r).node.responseKey ↔
        group.key = field.node.responseKey := hr.eq_iff
    rw [List.map_cons, add, add]
    by_cases hsame : group.key = field.node.responseKey
    · rw [if_pos (hkey.2 hsame), if_pos hsame, List.map_cons]
      simp only [renamed, List.map_append, List.map_cons, List.map_nil]
    · rw [if_neg (mt hkey.1 hsame), if_neg hsame, List.map_cons, ih]

end FieldGroup

namespace Scope

variable {scope : Scope}

/-- The scope of a document whose fragments have renamed keys. -/
def renamed (r : String → String) (scope : Scope) : Scope :=
  { scope with fragments := scope.fragments.map (Fragment.renamed r) }

@[simp] theorem toBindings_renamed : (scope.renamed r).toBindings = scope.toBindings := rfl

private theorem fragment?_renamed (name : String) :
    (scope.renamed r).fragment? name = (scope.fragment? name).map (Fragment.renamed r) :=
  Fragment.find?_renamed scope.fragments name

section Walk

variable {spread spread' : TypeDefinition → SpreadNode → Walk Nat}

mutual

private theorem walkSelection_renamed
    (hspread : ∀ parent node, spread' parent node = spread parent node)
    (parent : TypeDefinition) : ∀ selection : Selection,
      (scope.renamed r).walkSelection spread' parent (selection.renamed r) =
        scope.walkSelection spread parent selection
  | .field node selections => by
    have hbelow (type : TypeDefinition) := walkSelections_renamed hspread type selections
    have htype : (scope.renamed r).fieldType parent (node.renamed r) =
        scope.fieldType parent node := rfl
    simp only [Selection.renamed, walkSelection, Selection.isEmpty_renamedAll, htype, hbelow]
    rfl
  | .spread node => by
    simp only [Selection.renamed, walkSelection, hspread]
    rfl
  | .inline node selections => by
    have hinside (type : TypeDefinition) := walkSelections_renamed hspread type selections
    have htype : (scope.renamed r).conditionType = scope.conditionType := rfl
    simp only [Selection.renamed, walkSelection, htype, hinside]
    rfl

private theorem walkSelections_renamed
    (hspread : ∀ parent node, spread' parent node = spread parent node)
    (parent : TypeDefinition) : ∀ selections : List Selection,
      (scope.renamed r).walkSelections spread' parent (Selection.renamedAll r selections) =
        scope.walkSelections spread parent selections
  | [] => by simp only [Selection.renamedAll, walkSelections]
  | selection :: rest => by
    simp only [Selection.renamedAll, walkSelections, walkSelection_renamed hspread parent selection,
      walkSelections_renamed hspread parent rest]

end

private theorem walkSpread_renamed (budget : Nat) (visiting : List String) (parent : TypeDefinition)
    (node : SpreadNode) :
    (scope.renamed r).walkSpread budget visiting parent node =
      scope.walkSpread budget visiting parent node := by
  induction budget using Nat.strongRecOn generalizing visiting parent node with
  | ind budget ih =>
    rw [walkSpread.eq_def, walkSpread.eq_def, fragment?_renamed]
    cases scope.fragment? node.name with
    | none => rfl
    | some fragment =>
      cases budget with
      | zero => rfl
      | succ less =>
        have hbelow := ih less (Nat.lt_succ_self less) (node.name :: visiting)
        have hinside (type : TypeDefinition) :
            (scope.renamed r).walkSelections _ type (Selection.renamedAll r fragment.selections) =
              scope.walkSelections _ type fragment.selections :=
          walkSelections_renamed hbelow type fragment.selections
        simp only [Option.map_some, Fragment.renamed, hinside]
        rfl

theorem depth_renamed (r : String → String) (scope : Scope) (root : TypeDefinition)
    (selections : List Selection) :
    (scope.renamed r).depth root (Selection.renamedAll r selections) =
      scope.depth root selections := by
  have hlength : (scope.renamed r).fragments.length = scope.fragments.length :=
    List.length_map _
  unfold Scope.depth
  rw [hlength, walkSelections_renamed (walkSpread_renamed scope.fragments.length [])]

end Walk

section Collection

variable {splice splice' : SpreadNode → Collector}

mutual

private theorem collectSelection_renamed (hr : r.Injective)
    (hsplice : ∀ node groups, splice' node (groups.map (FieldGroup.renamed r)) =
      List.map (FieldGroup.renamed r) <$> splice node groups) (object : String) :
    ∀ (selection : Selection) (groups : List FieldGroup),
      (scope.renamed r).collectSelection splice' object (selection.renamed r)
          (groups.map (FieldGroup.renamed r)) =
        List.map (FieldGroup.renamed r) <$> scope.collectSelection splice object selection groups
  | .field node selections, groups => by
    have hadd := FieldGroup.add_renamed hr ⟨node, selections⟩ groups
    simp only [Selection.renamed, collectSelection, toBindings_renamed, map_bind]
    refine bind_congr fun kept => ?_
    cases kept with
    | true => exact congrArg Except.ok hadd
    | false => rfl
  | .spread node, groups => by
    simp only [Selection.renamed, collectSelection, toBindings_renamed, map_bind]
    refine bind_congr fun kept => ?_
    cases kept with
    | true => exact hsplice node groups
    | false => rfl
  | .inline node selections, groups => by
    have hinside := collectSelections_renamed hr hsplice object selections groups
    simp only [Selection.renamed, collectSelection, toBindings_renamed, map_bind]
    refine bind_congr fun kept => ?_
    cases kept with
    | true =>
      have hsystem : (scope.renamed r).system = scope.system := rfl
      simp only [if_true, hsystem]
      split
      · exact hinside
      · rfl
    | false => rfl

private theorem collectSelections_renamed (hr : r.Injective)
    (hsplice : ∀ node groups, splice' node (groups.map (FieldGroup.renamed r)) =
      List.map (FieldGroup.renamed r) <$> splice node groups) (object : String) :
    ∀ (selections : List Selection) (groups : List FieldGroup),
      (scope.renamed r).collectSelections splice' object (Selection.renamedAll r selections)
          (groups.map (FieldGroup.renamed r)) =
        List.map (FieldGroup.renamed r) <$>
          scope.collectSelections splice object selections groups
  | [], groups => by
    simp only [Selection.renamedAll, collectSelections, map_pure]
  | selection :: rest, groups => by
    simp only [Selection.renamedAll, collectSelections,
      collectSelection_renamed hr hsplice object selection groups, map_bind, bind_map_left]
    exact bind_congr fun groups => collectSelections_renamed hr hsplice object rest groups

end

private theorem collectSpread_renamed (scope : Scope) (hr : r.Injective) (object : String)
    (budget : Nat)
    (node : SpreadNode) (groups : List FieldGroup) :
    (scope.renamed r).collectSpread object budget node (groups.map (FieldGroup.renamed r)) =
      List.map (FieldGroup.renamed r) <$> scope.collectSpread object budget node groups := by
  induction budget using Nat.strongRecOn generalizing node groups with
  | ind budget ih =>
    rw [collectSpread.eq_def, collectSpread.eq_def, fragment?_renamed]
    cases scope.fragment? node.name with
    | none => rfl
    | some fragment =>
      have hsystem : (scope.renamed r).system = scope.system := rfl
      simp only [Option.map_some, Fragment.renamed, toBindings_renamed, hsystem, map_bind]
      refine bind_congr fun kept => ?_
      split
      · cases budget with
        | zero => rfl
        | succ less =>
          exact collectSelections_renamed hr (ih less (Nat.lt_succ_self less)) object
            fragment.selections groups
      · rfl

theorem collect_renamed (hr : r.Injective) (object : String)
    (selections : List (List Selection)) :
    (scope.renamed r).collect object (selections.map (Selection.renamedAll r)) =
      List.map (FieldGroup.renamed r) <$> scope.collect object selections := by
  have hlength : (scope.renamed r).fragments.length = scope.fragments.length :=
    List.length_map _
  unfold collect
  rw [hlength]
  refine foldlM_semiconj (f := List.map (FieldGroup.renamed r)) (fun groups list => ?_)
    selections []
  have hspread := scope.collectSpread_renamed hr object scope.fragments.length
  exact collectSelections_renamed hr hspread object list groups

end Collection

end Scope

end GraphQuery
