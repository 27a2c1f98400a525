/-!
# Directive locations

The places of a document at which a directive may stand.
-/

namespace GraphQuery

inductive DirectiveLocation where
  | query
  | mutation
  | subscription
  | field
  | fragmentDefinition
  | fragmentSpread
  | inlineFragment
  | variableDefinition
  deriving DecidableEq, Repr

namespace DirectiveLocation

def text : DirectiveLocation → String
  | .query => "QUERY"
  | .mutation => "MUTATION"
  | .subscription => "SUBSCRIPTION"
  | .field => "FIELD"
  | .fragmentDefinition => "FRAGMENT_DEFINITION"
  | .fragmentSpread => "FRAGMENT_SPREAD"
  | .inlineFragment => "INLINE_FRAGMENT"
  | .variableDefinition => "VARIABLE_DEFINITION"

def all : List DirectiveLocation :=
  [.query, .mutation, .subscription, .field, .fragmentDefinition, .fragmentSpread, .inlineFragment,
    .variableDefinition]

def ofText? (s : String) : Option DirectiveLocation := all.find? fun location => location.text == s

end DirectiveLocation

end GraphQuery
