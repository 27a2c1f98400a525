import GraphQuery.Fault.Execution
import GraphQuery.ResponsePath

/-!
# Responses

The outcome of a request: data and the errors next to it. Data is absent only if the request
failed before anything was executed; a null that reached the root is data.
-/

namespace GraphQuery

def Position.toJson (p : Position) : Json :=
  .object [("line", .ofNat p.line), ("column", .ofNat p.column)]

structure ResponseError where
  message : String
  code : ErrorCode
  locations : List Position
  path : Option ResponsePath
  deriving DecidableEq, Repr

namespace ResponseError

def ofFault (fault : ExecutionFault) : ResponseError :=
  { message := fault.message
    code := fault.code
    locations := fault.position?.toList
    path := none }

/-- The error that reports a fault of the field at `path`; without a position of its own it is
located at the field. -/
def ofFieldFault (fault : ExecutionFault) (position : Position) (path : ResponsePath) :
    ResponseError :=
  { ofFault fault with
    locations := [fault.position?.getD position]
    path := some path }

/-- The error of a produced value that does not fit its position. -/
def ofResult (message : String) (position : Position) (path : ResponsePath) : ResponseError :=
  { message, code := .resolverError, locations := [position], path := some path }

/-- The keys `locations` and `path` are left out when there are none. -/
def toJson (error : ResponseError) : Json :=
  let locations := match error.locations with
    | [] => []
    | positions => [("locations", Json.array (positions.map Position.toJson))]
  let path := match error.path with
    | none => []
    | some path => [("path", path.toJson)]
  .object ([("message", .string error.message)] ++ locations ++ path
    ++ [("extensions", .object [("code", .string error.code.text)])])

end ResponseError

structure Response where
  data : Option Value
  errors : List ResponseError

namespace Response

def ofFault (fault : ExecutionFault) : Response :=
  { data := none, errors := [ResponseError.ofFault fault] }

/-- The JSON that is sent; absent data and an empty error list are left out. -/
def toJson (response : Response) : Json :=
  let data := match response.data with
    | none => []
    | some data => [("data", data.toJson)]
  let errors := match response.errors with
    | [] => []
    | errors => [("errors", Json.array (errors.map ResponseError.toJson))]
  .object (data ++ errors)

end Response

end GraphQuery
