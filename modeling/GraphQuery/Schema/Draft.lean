import GraphQuery.Schema
import GraphQuery.Schema.Fault

/-!
# Schema drafts

A draft collects definitions. Finishing it checks what the execution of requests relies on: known
type references, input types for arguments, interfaces whose fields are there and a query type
that is an object. Possible types are filled in and defaults are coerced once, so resolvers see
them as if they had been supplied.
-/

namespace GraphQuery

structure SchemaDraft where
  queryType : String
  types : List TypeDefinition
  resolvers : ResolverTable
  delays : Delays
  directives : List DirectiveSpec
  translator : Translator

namespace SchemaDraft

def builtinScalars : List TypeDefinition :=
  [.scalar ⟨"Int", .int⟩, .scalar ⟨"Float", .float⟩, .scalar ⟨"String", .string⟩,
    .scalar ⟨"Boolean", .boolean⟩, .scalar ⟨"ID", .id⟩]

def new (queryType : String) : SchemaDraft :=
  { queryType
    types := builtinScalars
    resolvers := .parents
    delays := .none
    directives := DirectiveSpec.builtins
    translator := .standard }

def register (draft : SchemaDraft) (type : TypeDefinition) : SchemaDraft :=
  { draft with types := draft.types ++ [type] }

def resolve (draft : SchemaDraft) (type field : String) (resolver : CustomResolver) :
    SchemaDraft :=
  { draft with
    resolvers := draft.resolvers.update type field (.custom resolver.answer)
    delays := draft.delays.update type field resolver.polls }

/-- Adds a directive, which replaces one of its name. -/
def directive (draft : SchemaDraft) (spec : DirectiveSpec) : SchemaDraft :=
  { draft with directives := spec.put draft.directives }

def withTranslator (draft : SchemaDraft) (translator : Translator) : SchemaDraft :=
  { draft with translator }

def typeSystem (draft : SchemaDraft) : TypeSystem := ⟨draft.queryType, draft.types⟩

/-- Every name is registered once; `seen` are the names so far. -/
def checkDistinct (seen : List String) : List TypeDefinition → Except SchemaFault Unit
  | [] => .ok ()
  | type :: rest =>
    if seen.contains type.name then .error (.duplicateType type.name)
    else checkDistinct (type.name :: seen) rest

def checkQueryType (system : TypeSystem) : Except SchemaFault Unit :=
  match system.get? system.queryType with
  | none => .error (.missingQueryType system.queryType)
  | some (.object _) => .ok ()
  | some _ => .error (.queryTypeNotObject system.queryType)

def checkReference (system : TypeSystem) (type : TypeExpr) (referrer : Referrer) :
    Except SchemaFault Unit :=
  match system.innermost? type with
  | none => .error (.unknownType type.innermost referrer)
  | some _ => .ok ()

def checkInputReference (system : TypeSystem) (type : TypeExpr) (referrer : Referrer) :
    Except SchemaFault Unit :=
  match system.innermost? type with
  | none => .error (.unknownType type.innermost referrer)
  | some definition =>
    if definition.isInput then .ok () else .error (.notAnInputType type.text referrer)

def checkField (system : TypeSystem) (owner : String) (field : FieldDefinition) :
    Except SchemaFault Unit := do
  checkReference system field.type (.field owner field.name)
  field.arguments.forM fun argument =>
    checkInputReference system argument.type (.argument owner field.name argument.name)

/-- An implemented interface is one, and the object has all its fields. -/
def checkImplements (system : TypeSystem) (object : ObjectType) (interface : String) :
    Except SchemaFault Unit :=
  match system.get? interface with
  | some (.interface type) =>
    match type.fields.find? fun field => (object.field? field.name).isNone with
    | some field => .error (.missingInterfaceField object.name interface field.name)
    | none => .ok ()
  | some _ => .error (.notAnInterface object.name interface)
  | none => .error (.unknownType interface (.type object.name))

def checkMember (system : TypeSystem) (union member : String) : Except SchemaFault Unit :=
  match system.object? member with
  | some _ => .ok ()
  | none => .error (.invalidUnionMember union member)

def checkType (system : TypeSystem) (type : TypeDefinition) : Except SchemaFault Unit := do
  type.fields.forM (checkField system type.name)
  match type with
  | .object object => object.implements.forM (checkImplements system object)
  | .union union => union.members.forM (checkMember system union.name)
  | _ => pure ()

/-- The objects that declare an interface, one entry for each declaration. -/
def declarersOf (types : List TypeDefinition) (interface : String) : List String :=
  types.flatMap fun type =>
    match type with
    | .object object => (object.implements.filter (· == interface)).map fun _ => object.name
    | _ => []

def withPossibleTypes (system : TypeSystem) : TypeSystem :=
  { system with
    types := system.types.map fun type =>
      match type with
      | .interface interface =>
        .interface { interface with possibleTypes := declarersOf system.types interface.name }
      | type => type }

def checkDirective (system : TypeSystem) (spec : DirectiveSpec) : Except SchemaFault Unit :=
  spec.arguments.forM fun argument =>
    checkInputReference system argument.type (.directiveArgument spec.name argument.name)

def settleParameter (translator : Translator) (system : BoundSystem) (referrer : String → Referrer)
    (parameter : Parameter) : Except SchemaFault Parameter :=
  match parameter.default with
  | none => .ok parameter
  | some value =>
    match translator.coerce system parameter.type value with
    | .ok value => .ok { parameter with default := some value }
    | .error source => .error (.invalidDefaultValue (referrer parameter.name) source)

def settleField (translator : Translator) (system : BoundSystem) (owner : String)
    (field : FieldDefinition) : Except SchemaFault FieldDefinition := do
  let arguments ← field.arguments.mapM <|
    settleParameter translator system (.argument owner field.name)
  pure { field with arguments }

def settleType (translator : Translator) (system : BoundSystem) :
    TypeDefinition → Except SchemaFault TypeDefinition
  | .object type => do
    pure (.object { type with
      fields := ← type.fields.mapM (settleField translator system type.name) })
  | .interface type => do
    pure (.interface { type with
      fields := ← type.fields.mapM (settleField translator system type.name) })
  | type => .ok type

def settleDirective (translator : Translator) (system : BoundSystem) (spec : DirectiveSpec) :
    Except SchemaFault DirectiveSpec := do
  let arguments ← spec.arguments.mapM <|
    settleParameter translator system (.directiveArgument spec.name)
  pure { spec with arguments }

def finish (draft : SchemaDraft) : Except SchemaFault ExecutableSchema := do
  let registered := draft.typeSystem
  checkDistinct [] registered.types
  checkQueryType registered
  registered.types.forM (checkType registered)
  let system := withPossibleTypes registered
  draft.directives.forM (checkDirective system)
  let bound : BoundSystem := { toTypeSystem := system, resolvers := draft.resolvers }
  let types ← system.types.mapM (settleType draft.translator bound)
  let bound := { bound with types }
  let directives ← draft.directives.mapM (settleDirective draft.translator bound)
  pure
    { toBoundSystem := bound
      directives
      translator := draft.translator
      delays := draft.delays }

end SchemaDraft

end GraphQuery
