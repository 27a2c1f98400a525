import GraphQuery.Document.Location
import GraphQuery.Future
import GraphQuery.Resolver

/-!
# Directives

A directive is data: where it may stand, its arguments, a predicate that decides whether a
selection is kept, and a hook that replaces how a field's value is produced.
-/

namespace GraphQuery

inductive Event where
  /-- The field of an object is about to be resolved. -/
  | resolving (path : ResponsePath) (object : String) (field : String)
  | started (path : ResponsePath) (object : String) (context : ResolverContext)
  | finished (path : ResponsePath) (object : String) (field : String)

/-- The deferred production of a field's value. -/
abbrev Producer := Future Event (Except ResolverFault Json)

/-- The answer of a hook after some polls. -/
structure Reply where
  polls : Nat
  answer : Except ResolverFault Json

/-- What the new producer does: it replies by itself, or after some polls it runs the producer
that it replaces and replies to its answer. -/
inductive HookAction where
  | reply (reply : Reply)
  | run (polls : Nat) (resume : Except ResolverFault Json → Reply)

namespace HookAction

def apply (action : HookAction) (producer : Producer) : Producer :=
  match action with
  | .reply r => .pending r.polls (.done r.answer)
  | .run polls resume =>
    .pending polls <| producer.bind fun answer =>
      .pending (resume answer).polls (.done (resume answer).answer)

end HookAction

/-- Decides from the arguments of a directive and from the schema's types and resolvers whether a
selection is kept; a message reports an invalid use. -/
abbrev InclusionPredicate := ArgumentValues → BoundSystem → Except String Bool

/-- Chooses the new producer from the parent value and the arguments of a directive. -/
abbrev WrapHook := Json → ArgumentValues → HookAction

structure DirectiveSpec where
  name : String
  description : Option String
  locations : List DirectiveLocation
  arguments : List Parameter
  predicate : Option InclusionPredicate
  hook : Option WrapHook

namespace DirectiveSpec

def isAllowedAt (spec : DirectiveSpec) (location : DirectiveLocation) : Bool :=
  spec.locations.contains location

/-- Evaluates the predicate; a directive without one keeps every selection. -/
def includes (spec : DirectiveSpec) (arguments : ArgumentValues) (system : BoundSystem) :
    Except String Bool :=
  match spec.predicate with
  | some predicate => predicate arguments system
  | none => .ok true

/-- Applies the hook; a directive without one leaves the producer as it is. -/
def wrap (spec : DirectiveSpec) (producer : Producer) (parent : Json)
    (arguments : ArgumentValues) : Producer :=
  match spec.hook with
  | some hook => (hook parent arguments).apply producer
  | none => producer

/-- Adds a directive, at the place of the one that has its name if there is one. -/
def put (spec : DirectiveSpec) : List DirectiveSpec → List DirectiveSpec
  | [] => [spec]
  | other :: rest => if other.name = spec.name then spec :: rest else other :: spec.put rest

def find? (specs : List DirectiveSpec) (name : String) : Option DirectiveSpec :=
  List.find? (fun spec => spec.name == name) specs

theorem find?_put (spec : DirectiveSpec) (specs : List DirectiveSpec) (name : String) :
    find? (spec.put specs) name = if spec.name = name then some spec else find? specs name := by
  induction specs with
  | nil => simp [put, find?, List.find?_cons]; grind
  | cons other rest ih => simp only [put, find?, List.find?_cons] at *; grind

/-- The argument `if` of the built-in directives. -/
def condition (arguments : ArgumentValues) : Except String Bool :=
  match arguments.get? "if" with
  | some (.boolean b) => .ok b
  | _ => .error "argument 'if' must be a Boolean"

def conditional (name description condition : String) (predicate : InclusionPredicate) :
    DirectiveSpec :=
  { name
    description := some description
    locations := [.field, .fragmentSpread, .inlineFragment]
    arguments := [
      { name := "if"
        type := .named "Boolean" false
        default := none
        description := some condition }]
    predicate := some predicate
    hook := none }

def skip : DirectiveSpec :=
  conditional "skip"
    "Directs the executor to skip this field or fragment when the `if` argument is true."
    "Skipped when true." fun arguments _ => not <$> condition arguments

def includeOnly : DirectiveSpec :=
  conditional "include"
    ("Directs the executor to include this field or fragment only when the `if` argument is "
      ++ "true.")
    "Included when true." fun arguments _ => condition arguments

def builtins : List DirectiveSpec := [skip, includeOnly]

end DirectiveSpec

end GraphQuery
