import GraphQuery.ResponsePath
import GraphQuery.TypeExpr
import GraphQuery.Value

/-!
# Type systems

The types that a schema defines: objects with fields, interfaces and unions over them, enums and
scalars. How the values of fields are produced is no part of them.
-/

namespace GraphQuery

structure Parameter where
  name : String
  type : TypeExpr
  default : Option Value
  description : Option String
  deriving Inhabited

structure FieldDefinition where
  name : String
  type : TypeExpr
  arguments : List Parameter
  deriving Inhabited

/-- Adds a field, at the place of the one that has its name if there is one. -/
def FieldDefinition.put (field : FieldDefinition) : List FieldDefinition → List FieldDefinition
  | [] => [field]
  | other :: rest => if other.name = field.name then field :: rest else other :: field.put rest

def FieldDefinition.find? (fields : List FieldDefinition) (name : String) :
    Option FieldDefinition :=
  List.find? (fun field => field.name == name) fields

theorem FieldDefinition.find?_put (field : FieldDefinition) (fields : List FieldDefinition)
    (name : String) :
    find? (field.put fields) name =
      if field.name = name then some field else find? fields name := by
  induction fields with
  | nil => simp [put, find?, List.find?_cons]; grind
  | cons other rest ih => simp only [put, find?, List.find?_cons] at *; grind

structure ObjectType where
  name : String
  fields : List FieldDefinition
  implements : List String

def ObjectType.field? (object : ObjectType) (name : String) : Option FieldDefinition :=
  FieldDefinition.find? object.fields name

/-- Names the object type of a value at a place that has no type name of its own. -/
abbrev TypeResolver := ResponsePath → Json → Option String

/-- The fields of an interface can be selected through it, but an object resolves its own. -/
structure InterfaceType where
  name : String
  fields : List FieldDefinition
  possibleTypes : List String
  typeResolver : Option TypeResolver

structure UnionType where
  name : String
  members : List String
  typeResolver : Option TypeResolver

structure EnumType where
  name : String
  values : List String

inductive ScalarKind where
  | int | float | string | boolean | id
  /-- Values pass in both directions as they are. -/
  | custom
  deriving DecidableEq, Repr

structure ScalarType where
  name : String
  kind : ScalarKind

inductive TypeDefinition where
  | object (type : ObjectType)
  | interface (type : InterfaceType)
  | union (type : UnionType)
  | enum (type : EnumType)
  | scalar (type : ScalarType)

namespace TypeDefinition

def name : TypeDefinition → String
  | .object type => type.name
  | .interface type => type.name
  | .union type => type.name
  | .enum type => type.name
  | .scalar type => type.name

def isLeaf : TypeDefinition → Bool
  | .enum _ | .scalar _ => true
  | _ => false

/-- Whether arguments and variables can have the type. -/
def isInput (type : TypeDefinition) : Bool := type.isLeaf

def isAbstract : TypeDefinition → Bool
  | .interface _ | .union _ => true
  | _ => false

def fields : TypeDefinition → List FieldDefinition
  | .object type => type.fields
  | .interface type => type.fields
  | _ => []

def field? (type : TypeDefinition) (name : String) : Option FieldDefinition :=
  FieldDefinition.find? type.fields name

/-- The names of the objects that a value of the type can be. -/
def possibleTypes : TypeDefinition → List String
  | .object type => [type.name]
  | .interface type => type.possibleTypes
  | .union type => type.members
  | _ => []

def typeResolver? : TypeDefinition → Option TypeResolver
  | .interface type => type.typeResolver
  | .union type => type.typeResolver
  | _ => none

end TypeDefinition

/-- The types of a schema and the name of the one at which queries start. -/
structure TypeSystem where
  queryType : String
  types : List TypeDefinition

namespace TypeSystem

def get? (system : TypeSystem) (name : String) : Option TypeDefinition :=
  system.types.find? fun type => type.name == name

def object? (system : TypeSystem) (name : String) : Option ObjectType :=
  match system.get? name with
  | some (.object type) => some type
  | _ => none

def query? (system : TypeSystem) : Option ObjectType := system.object? system.queryType

def innermost? (system : TypeSystem) (type : TypeExpr) : Option TypeDefinition :=
  system.get? type.innermost

/-- Whether an object is also of type `type`: the same type, an interface that it implements or a
union that it belongs to. -/
def isPossible (system : TypeSystem) (type object : String) : Bool :=
  match system.get? type with
  | some type => type.possibleTypes.contains object
  | none => false

def overlap (system : TypeSystem) (a b : String) : Bool :=
  match system.get? a, system.get? b with
  | some a, some b => a.possibleTypes.any fun name => b.possibleTypes.contains name
  | _, _ => false

def applies (system : TypeSystem) (object condition : String) : Bool :=
  object == condition || system.isPossible condition object

theorem name_of_get? {system : TypeSystem} {name : String} {type : TypeDefinition}
    (h : system.get? name = some type) : type.name = name := by
  simpa using List.find?_some h

theorem object?_eq_some_iff {system : TypeSystem} {name : String} {object : ObjectType} :
    system.object? name = some object ↔ system.get? name = some (.object object) := by
  unfold object?
  cases system.get? name with
  | none => simp
  | some type => cases type <;> simp

theorem mem_of_object? {system : TypeSystem} {name : String} {object : ObjectType}
    (h : system.object? name = some object) : .object object ∈ system.types :=
  List.mem_of_find?_eq_some (object?_eq_some_iff.1 h)

end TypeSystem

end GraphQuery
