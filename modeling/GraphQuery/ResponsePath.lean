import GraphQuery.Json

/-!
# Response paths

The places of a response: which keys and list indices lead from its data to a value in it.
-/

namespace GraphQuery

/-- A step from a value of the response to one inside it. -/
inductive PathSegment where
  | field (key : String)
  | index (i : Nat)
  deriving DecidableEq, Repr

/-- The way from the data of a response to a value in it, outermost step first. -/
abbrev ResponsePath := List PathSegment

namespace PathSegment

def text : PathSegment → String
  | .field key => key
  | .index i => toString i

def toJson : PathSegment → Json
  | .field key => .string key
  | .index i => .ofNat i

end PathSegment

namespace ResponsePath

def child (path : ResponsePath) (segment : PathSegment) : ResponsePath := path ++ [segment]

def text (path : ResponsePath) : String := String.intercalate "." (path.map PathSegment.text)

def toJson (path : ResponsePath) : Json := .array (path.map PathSegment.toJson)

end ResponsePath

end GraphQuery
