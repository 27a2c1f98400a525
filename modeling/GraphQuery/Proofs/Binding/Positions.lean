import GraphQuery.Proofs.Success
import GraphQuery.Selection.Scope

/-!
# Positions in a document

Arguments and directives that say the same, wherever they stand. Main statement: they are bound
alike, and where they cannot be bound, the faults say the same too.
-/

namespace GraphQuery

open List (Forall₂)

/-- What an argument says, wherever it stands. -/
def Argument.content (argument : Argument) : String × Term := (argument.name, argument.value)

def DirectiveUse.content (use : DirectiveUse) : String × List (String × Term) :=
  (use.name, use.arguments.map Argument.content)

/-- The nodes select the same field with the same arguments and directives, under any key. -/
structure FieldNode.SameCall (node other : FieldNode) : Prop where
  name : other.name = node.name
  arguments : other.arguments.map Argument.content = node.arguments.map Argument.content
  directives : other.directives.map DirectiveUse.content = node.directives.map DirectiveUse.content

theorem FieldNode.SameCall.trans {node other third : FieldNode} (h : node.SameCall other)
    (hother : other.SameCall third) : node.SameCall third where
  name := hother.name.trans h.name
  arguments := hother.arguments.trans h.arguments
  directives := hother.directives.trans h.directives

private theorem forall₂_of_map_eq {α β : Type} {f : α → β} {as bs : List α}
    (h : bs.map f = as.map f) :
    Forall₂ (fun a b => f b = f a) as bs := by
  have hall : Forall₂ Eq (bs.map f) (as.map f) := List.forall₂_eq_eq_eq ▸ h
  rw [List.forall₂_map_left_iff, List.forall₂_map_right_iff] at hall
  exact hall.flip

/-- What a fault says, wherever it has arisen. -/
def ExecutionFault.report (fault : ExecutionFault) : String × ErrorCode :=
  (fault.message, fault.code)

/-- Computations with related values, or with faults that say the same. -/
inductive SameReport {α β : Type} (R : α → β → Prop) :
    Except ExecutionFault α → Except ExecutionFault β → Prop
  | ok {a b} (h : R a b) : SameReport R (.ok a) (.ok b)
  | error {fault fault'} (h : ExecutionFault.report fault' = fault.report) :
      SameReport R (.error fault) (.error fault')

namespace SameReport

variable {α β γ δ : Type} {R : α → β → Prop} {S : γ → δ → Prop}

theorem bind {x : Except ExecutionFault α} {y : Except ExecutionFault β} (h : SameReport R x y)
    {next : α → Except ExecutionFault γ} {next' : β → Except ExecutionFault δ}
    (hnext : ∀ a b, R a b → SameReport S (next a) (next' b)) :
    SameReport S (x >>= next) (y >>= next') := by
  cases h with
  | ok h => exact hnext _ _ h
  | error h => exact .error h

private theorem mapM {f : γ → Except ExecutionFault α} {g : δ → Except ExecutionFault β}
    {cs : List γ}
    {ds : List δ} (h : Forall₂ (fun c d => SameReport R (f c) (g d)) cs ds) :
    SameReport (Forall₂ R) (cs.mapM f) (ds.mapM g) := by
  induction h with
  | nil => exact .ok .nil
  | cons hfirst _ ih =>
    rw [List.mapM_cons, List.mapM_cons]
    refine hfirst.bind fun a b hab => ?_
    exact ih.bind fun as bs hrest => .ok (.cons hab hrest)

private theorem mapM_eq {f g : γ → Except ExecutionFault α} {cs : List γ}
    (h : ∀ c ∈ cs, SameReport Eq (f c) (g c)) : SameReport Eq (cs.mapM f) (cs.mapM g) := by
  have hall : SameReport (Forall₂ Eq) (cs.mapM f) (cs.mapM g) := mapM (List.forall₂_same.2 h)
  rwa [List.forall₂_eq_eq_eq] at hall

theorem refl (x : Except ExecutionFault α) : SameReport Eq x x := by
  cases x with
  | ok a => exact .ok rfl
  | error fault => exact .error rfl

private theorem ok_of_ok {x y : Except ExecutionFault α} (h : SameReport Eq x y) {a : α}
    (hx : x = .ok a) : y = .ok a := by
  subst hx
  cases h with
  | ok h => exact congrArg Except.ok h.symm

end SameReport

namespace Bindings

variable {bindings : Bindings}

mutual

private theorem sameReport_readTerm (position position' : Position) :
    ∀ term : Term, SameReport Eq (bindings.readTerm position term)
      (bindings.readTerm position' term)
  | .list items => by
    have hitems := sameReport_readItems position position' items
    rw [readTerm, readTerm]
    cases bindings.schema.translator.literal (.list items) with
    | some value => exact .ok rfl
    | none => exact hitems.bind fun values values' hvalues => .ok (congrArg Value.list hvalues)
  | .variable name => by
    rw [readTerm, readTerm]
    exact .refl _
  | .object fields => by
    rw [readTerm, readTerm]
    cases bindings.schema.translator.literal (.object fields) with
    | some value => exact .ok rfl
    | none => exact .error rfl
  | .null | .number _ | .string _ | .boolean _ | .binary _ | .enum _ => by
    simp only [readTerm]
    split
    · exact .ok rfl
    · exact .error rfl

private theorem sameReport_readItems (position position' : Position) :
    ∀ items : List Term, SameReport Eq (bindings.readItems position items)
      (bindings.readItems position' items)
  | [] => .ok rfl
  | term :: rest => by
    rw [readItems, readItems]
    refine (sameReport_readTerm position position' term).bind fun value value' hvalue => ?_
    refine (sameReport_readItems position position' rest).bind fun values values' hvalues => ?_
    exact .ok (by rw [hvalue, hvalues])

end

section

variable {arguments arguments' : List Argument}

private theorem sameReport_bindParameter
    (h : arguments'.map Argument.content = arguments.map Argument.content)
    (parameter : Parameter) :
    SameReport Eq (bindings.bindParameter arguments parameter)
      (bindings.bindParameter arguments' parameter) := by
  have hfound := rel_find? (p := fun argument => argument.name == parameter.name)
    (q := fun argument => argument.name == parameter.name) (forall₂_of_map_eq h)
    fun argument argument' hsame => congrArg (fun content => content.1 == parameter.name) hsame.symm
  unfold bindParameter
  generalize arguments'.find? _ = found' at hfound
  generalize arguments.find? _ = found at hfound
  cases hfound with
  | none => exact .refl _
  | @some argument argument' hsame =>
    obtain ⟨-, hvalue⟩ := Prod.mk.inj hsame
    have hread : SameReport Eq (bindings.readTerm argument.position argument.value)
        (bindings.readTerm argument'.position argument'.value) := by
      rw [hvalue]
      exact sameReport_readTerm argument.position argument'.position argument.value
    refine hread.bind fun value value' hvalues => ?_
    rw [hvalues]
    exact .refl _

theorem sameReport_bindArguments
    (h : arguments'.map Argument.content = arguments.map Argument.content)
    (parameters : List Parameter) :
    SameReport Eq (bindings.bindArguments parameters arguments)
      (bindings.bindArguments parameters arguments') := by
  have hfound := rel_find?
    (p := fun argument => !parameters.any fun parameter => parameter.name == argument.name)
    (q := fun argument => !parameters.any fun parameter => parameter.name == argument.name)
    (forall₂_of_map_eq h) fun argument argument' hsame => by rw [(Prod.mk.inj hsame).1]
  unfold bindArguments undeclared?
  generalize arguments'.find? _ = found' at hfound
  generalize arguments.find? _ = found at hfound
  cases hfound with
  | @some argument argument' hsame =>
    refine .error ?_
    rw [(Prod.mk.inj hsame).1]
  | none =>
    refine SameReport.mapM_eq fun parameter _ => ?_
    refine (sameReport_bindParameter h parameter).bind fun value value' hvalue => ?_
    exact .ok (congrArg (Prod.mk parameter.name) hvalue)

end

/-- The directives are bound to the same arguments. -/
def SameBound (directive directive' : BoundDirective) : Prop :=
  directive'.spec = directive.spec ∧ directive'.arguments = directive.arguments

private theorem sameReport_bindDirective (location : DirectiveLocation) {use use' : DirectiveUse}
    (h : use'.content = use.content) :
    SameReport SameBound (bindings.bindDirective location use)
      (bindings.bindDirective location use') := by
  obtain ⟨hname, harguments⟩ := Prod.mk.inj h
  unfold bindDirective
  rw [hname]
  cases bindings.schema.directive? use.name with
  | none => exact .error rfl
  | some spec =>
    dsimp only
    split
    · have hbound : SameReport Eq (bindings.bindArguments spec.arguments use.arguments)
          (bindings.bindArguments spec.arguments use'.arguments) :=
        sameReport_bindArguments harguments spec.arguments
      generalize bindings.bindArguments spec.arguments use.arguments = bound at hbound
      generalize bindings.bindArguments spec.arguments use'.arguments = bound' at hbound
      cases hbound with
      | ok hsame => exact .ok ⟨rfl, hsame.symm⟩
      | @error fault fault' hreport =>
        obtain ⟨hmessage, -⟩ := Prod.mk.inj hreport
        refine .error ?_
        rw [hmessage]
        rfl
    · exact .error rfl

section

variable {uses uses' : List DirectiveUse}

private theorem sameReport_bindDirectives (location : DirectiveLocation)
    (h : uses'.map DirectiveUse.content = uses.map DirectiveUse.content) :
    SameReport (Forall₂ SameBound) (bindings.bindDirectives location uses)
      (bindings.bindDirectives location uses') :=
  SameReport.mapM
    ((forall₂_of_map_eq h).imp fun _ _ hsame => sameReport_bindDirective location hsame)

private theorem sameReport_keepAll (system : BoundSystem)
    {directives directives' : List BoundDirective}
    (h : Forall₂ SameBound directives directives') :
    SameReport Eq (BoundDirective.keepAll system directives)
      (BoundDirective.keepAll system directives') := by
  induction h with
  | nil => exact .ok rfl
  | @cons directive directive' _ _ hsame _ ih =>
    have hkeeps : SameReport Eq (directive.keeps system) (directive'.keeps system) := by
      unfold BoundDirective.keeps
      rw [hsame.1, hsame.2]
      cases directive.spec.includes directive.arguments system with
      | ok kept => exact .ok rfl
      | error message => exact .error rfl
    rw [BoundDirective.keepAll, BoundDirective.keepAll]
    refine hkeeps.bind fun kept kept' hkept => ?_
    refine ih.bind fun others others' hothers => ?_
    exact .ok (by rw [hkept, hothers])

theorem keeps_eq_ok_of_content (location : DirectiveLocation)
    (h : uses'.map DirectiveUse.content = uses.map DirectiveUse.content) {kept : Bool}
    (hkept : bindings.keeps location uses = .ok kept) :
    bindings.keeps location uses' = .ok kept := by
  have hsame : SameReport Eq (bindings.keeps location uses) (bindings.keeps location uses') :=
    (sameReport_bindDirectives location h).bind fun _ _ hall => sameReport_keepAll _ hall
  exact hsame.ok_of_ok hkept

theorem sameReport_wrapProducer
    (h : uses'.map DirectiveUse.content = uses.map DirectiveUse.content) (producer : Producer)
    (parent : Json) :
    SameReport Eq (bindings.wrapProducer producer parent uses)
      (bindings.wrapProducer producer parent uses') := by
  refine (sameReport_bindDirectives .field h).bind fun directives directives' hall => .ok ?_
  induction hall generalizing producer with
  | nil => rfl
  | @cons directive directive' _ _ hsame _ ih =>
    rw [List.foldl_cons, List.foldl_cons, hsame.1, hsame.2]
    exact ih _

end

end Bindings

end GraphQuery
