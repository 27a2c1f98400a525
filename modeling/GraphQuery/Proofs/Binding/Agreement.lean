import GraphQuery.Proofs.Binding.Answers
import GraphQuery.Proofs.Success

/-!
# Agreeing directives

Two schemas that differ in what their directives do, but only with arguments that are never bound.
Main statements: nodes are kept alike, and directives make the same of an answer.
-/

namespace GraphQuery

open List (Forall₂)

/-- The arguments that parameters may get. -/
abbrev Admissible := List Parameter → ArgumentValues → Prop

/-- The directives are used alike and do the same with admissible arguments, each on its own
system. How long their hooks take is left open. -/
structure DirectiveSpec.Agrees (admissible : Admissible) (system system' : BoundSystem)
    (spec other : DirectiveSpec) : Prop where
  name : other.name = spec.name
  locations : other.locations = spec.locations
  arguments : other.arguments = spec.arguments
  includes : ∀ arguments, admissible spec.arguments arguments →
    other.includes arguments system' = spec.includes arguments system
  answer : ∀ parent arguments old, admissible spec.arguments arguments →
    other.answer parent arguments old = spec.answer parent arguments old

namespace Schema

/-- The schemas have the same types, translators that do the same, and agreeing directives. -/
structure Agrees (admissible : Admissible) (schema other : Schema) : Prop where
  system : other.toTypeSystem = schema.toTypeSystem
  literal : other.translator.literal = schema.translator.literal
  coerce : other.coerce = schema.coerce
  leaf : other.leaf = schema.leaf
  directives : Forall₂
    (DirectiveSpec.Agrees admissible schema.toBoundSystem other.toBoundSystem)
    schema.directives other.directives

/-- The parameters of a field of an object, or of a directive. -/
inductive Declares (schema : Schema) : List Parameter → Prop
  | field {object field} (hobject : .object object ∈ schema.types)
    (hfield : field ∈ object.fields) :
      Declares schema field.arguments
  | directive {spec} (hspec : spec ∈ schema.directives) : Declares schema spec.arguments

/-- Whatever is bound to declared parameters is admissible. -/
def Ensures (schema : Schema) (admissible : Admissible) : Prop :=
  ∀ values parameters uses arguments, schema.Declares parameters →
    Bindings.bindArguments { schema, values } parameters uses = .ok arguments →
    admissible parameters arguments

private theorem Agrees.directive? {admissible : Admissible} {schema other : Schema}
    (h : schema.Agrees admissible other) (name : String) :
    Option.Rel (DirectiveSpec.Agrees admissible schema.toBoundSystem other.toBoundSystem)
      (schema.directive? name) (other.directive? name) :=
  rel_find? h.directives fun _ _ hspec => by rw [hspec.name]

end Schema

/-- The same directive is used with the same arguments. -/
structure BoundDirective.Agrees (admissible : Admissible) (system system' : BoundSystem)
    (directive other : BoundDirective) : Prop where
  spec : directive.spec.Agrees admissible system system' other.spec
  arguments : other.arguments = directive.arguments
  position : other.position = directive.position
  admits : admissible directive.spec.arguments directive.arguments

/-- The bindings read in agreeing schemas. -/
structure Bindings.Agrees (admissible : Admissible) (bindings other : Bindings) : Prop where
  schema : bindings.schema.Agrees admissible other.schema
  values : other.values = bindings.values
  ensures : bindings.schema.Ensures admissible

namespace BoundDirective

variable {admissible : Admissible} {system system' : BoundSystem}

private theorem keepAll_eq {directives others : List BoundDirective}
    (h : Forall₂ (Agrees admissible system system') directives others) :
    keepAll system' others = keepAll system directives := by
  induction h with
  | nil => rfl
  | @cons directive other _ _ hagrees _ ih =>
    have hincludes := hagrees.spec.includes _ hagrees.admits
    have hkeeps : other.keeps system' = directive.keeps system := by
      rw [keeps, keeps, hagrees.arguments, hincludes, hagrees.spec.name, hagrees.position]
    rw [keepAll, keepAll, hkeeps, ih]

private theorem answers_eq (parent : Json) {directives others : List BoundDirective}
    (h : Forall₂ (Agrees admissible system system') directives others)
    (old : Except ResolverFault Json) :
    answers parent others old = answers parent directives old := by
  induction h generalizing old with
  | nil => rfl
  | @cons directive other _ _ hagrees _ ih =>
    have hanswer : other.spec.answer parent other.arguments old =
        directive.spec.answer parent directive.arguments old := by
      rw [hagrees.arguments, hagrees.spec.answer _ _ _ hagrees.admits]
    exact (ih _).trans (congrArg (answers parent _) hanswer)

end BoundDirective

namespace Bindings

variable {bindings other : Bindings}

mutual

private theorem readTerm_congr
    (hliteral : other.schema.translator.literal = bindings.schema.translator.literal)
    (hvalues : other.values = bindings.values) (position : Position) :
    ∀ term : Term, other.readTerm position term = bindings.readTerm position term
  | .list items => by
    rw [readTerm, readTerm, hliteral, readItems_congr hliteral hvalues position items]
  | .variable name => by rw [readTerm, readTerm, hliteral, hvalues]
  | .object fields => by rw [readTerm, readTerm, hliteral]
  | .null | .number _ | .string _ | .boolean _ | .binary _ | .enum _ => by
    simp only [readTerm, hliteral]

private theorem readItems_congr
    (hliteral : other.schema.translator.literal = bindings.schema.translator.literal)
    (hvalues : other.values = bindings.values) (position : Position) :
    ∀ items : List Term, other.readItems position items = bindings.readItems position items
  | [] => rfl
  | term :: rest => by
    rw [readItems, readItems, readTerm_congr hliteral hvalues position term,
      readItems_congr hliteral hvalues position rest]

end

section

variable {admissible : Admissible}

theorem bindArguments_congr
    (hliteral : other.schema.translator.literal = bindings.schema.translator.literal)
    (hcoerce : other.schema.coerce = bindings.schema.coerce)
    (hvalues : other.values = bindings.values) : other.bindArguments = bindings.bindArguments := by
  have hread := readTerm_congr hliteral hvalues
  have hparameter : other.bindParameter = bindings.bindParameter := by
    funext arguments parameter
    simp only [bindParameter, hread, hcoerce]
  funext parameters arguments
  simp only [Bindings.bindArguments, hparameter]

theorem Agrees.bindArguments (h : bindings.Agrees admissible other) :
    other.bindArguments = bindings.bindArguments :=
  bindArguments_congr h.schema.literal h.schema.coerce h.values

private theorem Agrees.bindDirective (h : bindings.Agrees admissible other)
    (location : DirectiveLocation) (use : DirectiveUse) :
    Related
      (BoundDirective.Agrees admissible bindings.schema.toBoundSystem other.schema.toBoundSystem)
      (bindings.bindDirective location use) (other.bindDirective location use) := by
  have hfind := h.schema.directive? use.name
  unfold Bindings.bindDirective
  rw [h.bindArguments]
  generalize other.schema.directive? use.name = found at hfind
  cases hspec : bindings.schema.directive? use.name with
  | none =>
    rw [hspec] at hfind
    cases hfind
    exact .error
  | some spec =>
    rw [hspec] at hfind
    obtain ⟨found, rfl, hagrees⟩ := exists_of_rel_some hfind
    have hallowed : found.isAllowedAt location = spec.isAllowedAt location := by
      rw [DirectiveSpec.isAllowedAt, hagrees.locations, DirectiveSpec.isAllowedAt]
    simp only [hallowed, hagrees.arguments]
    split
    · cases hbound : bindings.bindArguments spec.arguments use.arguments with
      | error fault => exact .error
      | ok arguments =>
        have hmem : spec ∈ bindings.schema.directives := List.mem_of_find?_eq_some hspec
        exact .ok ⟨hagrees, rfl, rfl, h.ensures _ _ _ _ (.directive hmem) hbound⟩
    · exact .error

theorem Agrees.bindDirectives (h : bindings.Agrees admissible other)
    (location : DirectiveLocation) (uses : List DirectiveUse) :
    Related
      (Forall₂ (BoundDirective.Agrees admissible bindings.schema.toBoundSystem
        other.schema.toBoundSystem))
      (bindings.bindDirectives location uses) (other.bindDirectives location uses) :=
  related_mapM fun use _ => h.bindDirective location use

theorem Agrees.keeps (h : bindings.Agrees admissible other) : other.keeps = bindings.keeps := by
  funext location uses
  refine (Related.bind (h.bindDirectives location uses) fun directives others hall => ?_).eq.symm
  exact .of_eq (BoundDirective.keepAll_eq hall).symm

theorem Agrees.answers (h : bindings.Agrees admissible other) (parent : Json)
    (old : Except ResolverFault Json) (uses : List DirectiveUse) :
    (BoundDirective.answers parent · old) <$> other.bindDirectives .field uses =
      (BoundDirective.answers parent · old) <$> bindings.bindDirectives .field uses := by
  have hbound := h.bindDirectives .field uses
  exact (hbound.map_eq fun _ _ hall => (BoundDirective.answers_eq parent hall old).symm).symm

end

end Bindings

end GraphQuery
