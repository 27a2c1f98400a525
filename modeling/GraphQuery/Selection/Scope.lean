import GraphQuery.Binding.Directives

/-!
# Scopes

What selections are read in: the bindings of the request and the fragments of its document.
-/

namespace GraphQuery

structure Scope extends Bindings where
  fragments : List Fragment

namespace Scope

def fragment? (scope : Scope) (name : String) : Option Fragment :=
  Fragment.find? scope.fragments name

def system (scope : Scope) : TypeSystem := scope.schema.toTypeSystem

end Scope

end GraphQuery
