import GraphQuery.Binding.Arguments

/-!
# Directive binding

Looks up the directives of a node, binds their arguments, and lets them decide whether the node is
kept and how its value is produced. Every fault in a directive fails the request.
-/

namespace GraphQuery

structure BoundDirective where
  spec : DirectiveSpec
  arguments : ArgumentValues
  position : Position

namespace BoundDirective

def keeps (directive : BoundDirective) (system : BoundSystem) : Except ExecutionFault Bool :=
  match directive.spec.includes directive.arguments system with
  | .ok kept => .ok kept
  | .error message =>
    .error (.validation (.invalidDirective directive.spec.name message directive.position))

/-- Whether all directives keep their node; each of them is asked. -/
def keepAll (system : BoundSystem) : List BoundDirective → Except ExecutionFault Bool
  | [] => .ok true
  | directive :: rest => do
    let kept ← directive.keeps system
    let others ← keepAll system rest
    pure (kept && others)

end BoundDirective

namespace Bindings

def bindDirective (bindings : Bindings) (location : DirectiveLocation) (use : DirectiveUse) :
    Except ExecutionFault BoundDirective :=
  match bindings.schema.directive? use.name with
  | none => .error (.validation (.unknownDirective use.name use.position))
  | some spec =>
    if spec.isAllowedAt location then
      match bindings.bindArguments spec.arguments use.arguments with
      | .ok arguments => .ok { spec, arguments, position := use.position }
      | .error fault =>
        .error (.validation (.invalidDirective use.name fault.message use.position))
    else .error (.validation (.misplacedDirective use.name location use.position))

def bindDirectives (bindings : Bindings) (location : DirectiveLocation)
    (uses : List DirectiveUse) : Except ExecutionFault (List BoundDirective) :=
  uses.mapM (bindings.bindDirective location)

/-- Whether the directives of a node keep it. -/
def keeps (bindings : Bindings) (location : DirectiveLocation) (uses : List DirectiveUse) :
    Except ExecutionFault Bool := do
  BoundDirective.keepAll bindings.schema.toBoundSystem (← bindings.bindDirectives location uses)

/-- Lets the directives of a field replace its producer. The first one wraps the resolver, the
next one wraps the outcome, and so on. -/
def wrapProducer (bindings : Bindings) (producer : Producer) (parent : Json)
    (uses : List DirectiveUse) : Except ExecutionFault Producer := do
  let directives ← bindings.bindDirectives .field uses
  pure <| directives.foldl
    (fun producer directive => directive.spec.wrap producer parent directive.arguments) producer

end Bindings

end GraphQuery
