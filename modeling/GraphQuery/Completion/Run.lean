import GraphQuery.Completion.Outcome
import GraphQuery.Future.Buffered
import GraphQuery.Json.Text
import GraphQuery.Plan

/-!
# Running a plan

Resolves the collected fields of an object and completes their values after their types, level by
level. Sibling fields and list items run as bounded concurrent futures, and how they are run
together is a parameter. A level is completed in terms of the level below it, and there are as many
levels as the operation is deep.
-/

namespace GraphQuery

/-- Completes an object value: its type, what is selected on it, the value and its path. -/
abbrev Level :=
  ObjectType → List (List Selection) → Json → ResponsePath → Future Event Completion

/-- How the futures of the siblings at a path are run together. -/
abbrev Schedule := ResponsePath → List (Future Event Completion) → Future Event (List Completion)

/-- The field whose value is completed, as errors name it, and what is selected below it. -/
structure FieldSite where
  object : String
  field : String
  position : Position
  selections : List (List Selection)

namespace FieldSite

def failed (site : FieldSite) (message : String) (path : ResponsePath) : Completion :=
  .failed (.ofResult message site.position path)

def text (site : FieldSite) : String := site.object ++ "." ++ site.field

def nullMessage (site : FieldSite) : String :=
  "Cannot return null for non-nullable field " ++ site.text ++ "."

def listMessage (site : FieldSite) (value : Json) : String :=
  "Expected a list for field " ++ site.text ++ ", found: " ++ value.text

def unresolvedMessage (site : FieldSite) (type : String) : String :=
  "Abstract type '" ++ type ++ "' must resolve to an object type at runtime for field "
    ++ site.text ++ "."

end FieldSite

def impossibleMessage (name type : String) : String :=
  "Runtime object type '" ++ name ++ "' is not a possible type for '" ++ type ++ "'."

/-- The message of a type name that directives have replaced by something else. -/
def typenameMessage (object : String) (value : Json) : String :=
  "String! cannot represent value of " ++ object ++ ".__typename: " ++ value.text

namespace Plan

def limit (plan : Plan) : Nat := plan.settings.siblingLimit

/-- Runs siblings in rounds, as many at once as the settings of the plan allow. -/
def schedule (plan : Plan) : Schedule := fun _ => Future.buffered plan.limit

/-- The object type of a value of an abstract type, from the type name that the value carries or
else from the resolver of the abstract type; a message if there is none. -/
def runtimeType (plan : Plan) (site : FieldSite) (type : TypeDefinition) (value : Json)
    (path : ResponsePath) : Except String ObjectType :=
  match value.typename?.orElse fun _ =>
    type.typeResolver?.bind fun resolve => resolve path value with
  | none => .error (site.unresolvedMessage type.name)
  | some name =>
    match plan.system.object? name with
    | none => .error (impossibleMessage name type.name)
    | some object =>
      if plan.system.isPossible type.name object.name then .ok object
      else .error (impossibleMessage name type.name)

def completeAbstract (plan : Plan) (level : Level) (site : FieldSite) (type : TypeDefinition)
    (value : Json) (path : ResponsePath) : Future Event Completion :=
  match plan.runtimeType site type value path with
  | .ok object => level object site.selections value path
  | .error message => .done (site.failed message path)

def completeNamed (plan : Plan) (level : Level) (site : FieldSite) (name : String)
    (value : Json) (path : ResponsePath) : Future Event Completion :=
  match plan.system.get? name with
  | none => .done (.fatal (.validation (.unknownType name site.position)))
  | some (.object object) => level object site.selections value path
  | some type =>
    if type.isAbstract then plan.completeAbstract level site type value path
    else
      match plan.schema.leaf type value with
      | .ok value => .done (.ok value)
      | .error message => .done (site.failed message path)

/-- A null in place of a value; it is an error only where the type does not allow it. -/
def completeNull (site : FieldSite) (nullable : Bool) (path : ResponsePath) : Completion :=
  if nullable then .ok .null else site.failed site.nullMessage path

def completeValue (plan : Plan) (schedule : Schedule) (level : Level) (site : FieldSite) :
    TypeExpr → Json → ResponsePath → Future Event Completion
  | .named name nullable, value, path =>
    if value.isNull then .done (completeNull site nullable path)
    else
      (plan.completeNamed level site name value path).bind fun completion =>
        .done (completion.absorb nullable)
  | .list item nullable, value, path =>
    if value.isNull then .done (completeNull site nullable path)
    else
      match value.items? with
      | none => .done <| (site.failed (site.listMessage value) path).absorb nullable
      | some items =>
        (schedule path (items.mapIdx fun index value =>
          plan.completeValue schedule level site item value (path.child (.index index)))).bind
          fun completions => .done ((Completion.ofItems completions).absorb nullable)

def resolve (plan : Plan) (object : ObjectType) (field : FieldDefinition) (parent : Json)
    (arguments : ArgumentValues) (path : ResponsePath) : Producer :=
  match plan.schema.resolvers object.name field.name with
  | .parent => .done (.ok (parent.property field.name))
  | .custom answer =>
    let context : ResolverContext := { fieldName := field.name, parent, arguments }
    .emit (.started path object.name context) <|
      .pending (plan.delays object.name field.name path) <|
        .emit (.finished path object.name field.name) (.done (answer path context))

/-- Binds the arguments of a field and lets its directives wrap the production of its value. -/
def producer (plan : Plan) (object : ObjectType) (field : FieldDefinition) (parent : Json)
    (node : FieldNode) (path : ResponsePath) : Except ExecutionFault Producer := do
  let arguments ← plan.bindArguments field.arguments node.arguments
  plan.wrapProducer (plan.resolve object field parent arguments path) parent node.directives

/-- The type name of an object goes through the directives of its field like any other value. -/
def resolveTypename (plan : Plan) (object : ObjectType) (parent : Json) (node : FieldNode)
    (path : ResponsePath) : Future Event Completion :=
  match plan.wrapProducer (.done (.ok (.string object.name))) parent node.directives with
  | .error fault => .done (.ofFault fault false node.position path)
  | .ok producer =>
    producer.bind fun answer =>
      .done <|
        match answer with
        | .error fault => .ofFault (.resolver fault) false node.position path
        | .ok (.string name) => .ok (.string name)
        | .ok value =>
          .failed (.ofResult (typenameMessage object.name value) node.position path)

def resolveField (plan : Plan) (schedule : Schedule) (level : Level) (object : ObjectType)
    (parent : Json) (path : ResponsePath) (group : FieldGroup) : Future Event Completion :=
  let node := group.first.node
  let path := path.child (.field group.key)
  if node.name == "__typename" then plan.resolveTypename object parent node path
  else
    match object.field? node.name with
    | none =>
      .done (.fatal (.validation (.unknownField node.name object.name node.position)))
    | some field =>
      .emit (.resolving path object.name field.name) <|
        match plan.producer object field parent node path with
        | .error fault => .done (.ofFault fault field.type.nullable node.position path)
        | .ok producer =>
          producer.bind fun answer =>
            match answer with
            | .error fault =>
              .done (.ofFault (.resolver fault) field.type.nullable node.position path)
            | .ok value =>
              plan.completeValue schedule level
                { object := object.name
                  field := field.name
                  position := node.position
                  selections := group.selections }
                field.type value path

def completeGroups (plan : Plan) (schedule : Schedule) (level : Level) (object : ObjectType)
    (groups : List FieldGroup) (value : Json) (path : ResponsePath) : Future Event Completion :=
  (schedule path (groups.map (plan.resolveField schedule level object value path))).bind
    fun completions => .done (.ofFields (groups.map FieldGroup.key) completions)

/-- The fields that lists of selections ask of an object type. -/
abbrev Collection := String → List (List Selection) → Except ExecutionFault (List FieldGroup)

/-- The level at which selections are still `depth` deep, for a way to collect fields. Selections
without a field select nothing of an object. -/
def levelWith (plan : Plan) (schedule : Schedule) (collect : Collection) : Nat → Level
  | 0, _, _, _, _ => .done (.ok (.object []))
  | depth + 1, object, selections, value, path =>
    match collect object.name selections with
    | .error fault => .done (.fatal fault)
    | .ok groups =>
      plan.completeGroups schedule (plan.levelWith schedule collect depth) object groups value path

/-- The level at which selections are still `depth` deep. -/
def levelAt (plan : Plan) (schedule : Schedule) (depth : Nat) : Level :=
  plan.levelWith schedule plan.collect depth

/-- The response of a completed root; a null that reaches the root is the data. -/
def respond (completion : Completion) : Except ExecutionFault Response :=
  match completion.outcome with
  | .ok data => .ok { data := some data, errors := completion.errors }
  | .error .nullPropagation => .ok { data := some .null, errors := completion.errors }
  | .error (.fatal fault) => .error fault

/-- The operation is run from its root, which is looked up again. -/
def runWith (plan : Plan) (schedule : Schedule) (collect : Collection) :
    Future Event (Except ExecutionFault Response) :=
  match rootTypeOf plan.system plan.operation with
  | .error violation => .done (.error (.validation violation))
  | .ok root =>
    (plan.levelWith schedule collect plan.depth root [plan.operation.selections] plan.root []).bind
      fun completion => .done (respond completion)

def runUnder (plan : Plan) (schedule : Schedule) : Future Event (Except ExecutionFault Response) :=
  plan.runWith schedule plan.collect

def run (plan : Plan) : Future Event (Except ExecutionFault Response) := plan.runUnder plan.schedule

end Plan

/-- Executes a request against a schema: accepts it as a plan and runs the plan. What goes wrong in
a field is part of the response. -/
def execute (schema : ExecutableSchema) (settings : Settings) (request : Request) :
    Future Event (Except ExecutionFault Response) :=
  match Plan.ofRequest schema settings request with
  | .error fault => .done (.error fault)
  | .ok plan => plan.run

/-- Executes a request with siblings run in another way, within the limit of the settings. -/
def executeUnder (buffering : Future.Buffering ResponsePath Event Completion)
    (schema : ExecutableSchema) (settings : Settings) (request : Request) :
    Future Event (Except ExecutionFault Response) :=
  match Plan.ofRequest schema settings request with
  | .error fault => .done (.error fault)
  | .ok plan => plan.runUnder (buffering.gather plan.limit)

end GraphQuery
