import GraphQuery.Proofs.Binding.Agreement
import GraphQuery.Selection.Collected
import GraphQuery.Selection.Walk

/-!
# Agreeing scopes

Scopes that keep the same selections. Main statements: the walk finds the same depth in them, or
the same fault, and the same fields are collected.
-/

namespace GraphQuery

namespace Scope

/-- The scopes have the same types and fragments, and keep the same nodes. -/
structure Agrees (scope other : Scope) : Prop where
  system : other.system = scope.system
  fragments : other.fragments = scope.fragments
  keeps : other.keeps = scope.keeps

variable {scope other : Scope}

namespace Agrees

private theorem fragment? (h : scope.Agrees other) : other.fragment? = scope.fragment? := by
  funext name
  rw [Scope.fragment?, Scope.fragment?, h.fragments]

private theorem conditionType (h : scope.Agrees other) :
    other.conditionType = scope.conditionType := by
  funext parent condition
  simp only [Scope.conditionType, h.system]

private theorem fieldType (h : scope.Agrees other) : other.fieldType = scope.fieldType := by
  funext parent node hasSelections
  simp only [Scope.fieldType, h.system]

mutual

private theorem walkSelection (h : scope.Agrees other)
    {spread spread' : TypeDefinition → SpreadNode → Walk Nat} (hspread : spread' = spread)
    (parent : TypeDefinition) :
    ∀ selection, other.walkSelection spread' parent selection =
      scope.walkSelection spread parent selection
  | .field node selections => by
    have hbelow (type : TypeDefinition) := walkSelections h hspread type selections
    simp only [Scope.walkSelection, h.keeps, h.fieldType, hbelow]
  | .spread node => by simp only [Scope.walkSelection, h.keeps, hspread]
  | .inline node selections => by
    have hinside (type : TypeDefinition) := walkSelections h hspread type selections
    simp only [Scope.walkSelection, h.keeps, h.conditionType, hinside]

private theorem walkSelections (h : scope.Agrees other)
    {spread spread' : TypeDefinition → SpreadNode → Walk Nat} (hspread : spread' = spread)
    (parent : TypeDefinition) :
    ∀ selections, other.walkSelections spread' parent selections =
      scope.walkSelections spread parent selections
  | [] => rfl
  | selection :: rest => by
    rw [Scope.walkSelections, Scope.walkSelections, walkSelection h hspread parent selection,
      walkSelections h hspread parent rest]

end

private theorem walkSpread (h : scope.Agrees other) (budget : Nat) :
    other.walkSpread budget = scope.walkSpread budget := by
  induction budget with
  | zero =>
    funext visiting parent node
    simp only [Scope.walkSpread, h.fragment?, h.conditionType, h.keeps]
  | succ budget ih =>
    have hinside (visiting : List String) :=
      h.walkSelections (congrFun ih visiting : _ = scope.walkSpread budget visiting)
    funext visiting parent node
    simp only [Scope.walkSpread, h.fragment?, h.conditionType, h.keeps, hinside]

theorem depth (h : scope.Agrees other) : other.depth = scope.depth := by
  funext root selections
  unfold Scope.depth
  rw [h.fragments, h.walkSelections (congrFun (h.walkSpread _) [])]

mutual

private theorem collectSelection (h : scope.Agrees other) {splice splice' : SpreadNode → Collector}
    (hsplice : splice' = splice) (object : String) :
    ∀ selection groups, other.collectSelection splice' object selection groups =
      scope.collectSelection splice object selection groups
  | .field node selections, groups => by simp only [Scope.collectSelection, h.keeps]
  | .spread node, groups => by simp only [Scope.collectSelection, h.keeps, hsplice]
  | .inline node selections, groups => by
    simp only [Scope.collectSelection, h.keeps, h.system,
      collectSelections h hsplice object selections]

private theorem collectSelections (h : scope.Agrees other) {splice splice' : SpreadNode → Collector}
    (hsplice : splice' = splice) (object : String) :
    ∀ selections groups, other.collectSelections splice' object selections groups =
      scope.collectSelections splice object selections groups
  | [], groups => rfl
  | selection :: rest, groups => by
    have hrest := collectSelections h hsplice object rest
    simp only [Scope.collectSelections, collectSelection h hsplice object selection, hrest]

end

private theorem collectSpread (h : scope.Agrees other) (object : String) (budget : Nat) :
    other.collectSpread object budget = scope.collectSpread object budget := by
  induction budget with
  | zero =>
    funext node groups
    simp only [Scope.collectSpread, h.fragment?, h.keeps, h.system]
  | succ budget ih =>
    funext node groups
    simp only [Scope.collectSpread, h.fragment?, h.keeps, h.system, h.collectSelections ih]

theorem collect (h : scope.Agrees other) : other.collect = scope.collect := by
  funext object selections
  simp only [Scope.collect, h.fragments, h.collectSelections (h.collectSpread object _)]

end Agrees

end Scope

end GraphQuery
