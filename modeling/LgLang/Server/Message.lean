import LgLang.Json
import LgLang.Session

/-!
# Messages between client and server

A request has an identifier and is answered by one response with the same identifier; a notification is not answered.
-/

namespace LgLang.Server

/-- How a client names a request. A number and the text that writes it are different names. -/
inductive RequestId where
  | number (n : Int)
  | text (s : String)
  deriving DecidableEq, Repr

/-- The kinds of failures that a response can report. -/
inductive ErrorCode where
  | notInitialized
  | invalidRequest
  | methodNotFound
  | invalidParams
  | internalError
  | requestCancelled
  deriving DecidableEq, Repr

/-- The number of a kind of failure. -/
def ErrorCode.number : ErrorCode → Int
  | notInitialized => -32002
  | invalidRequest => -32600
  | methodNotFound => -32601
  | invalidParams => -32602
  | internalError => -32603
  | requestCancelled => -32800

/-- Why a request failed. -/
structure Failure where
  code : ErrorCode
  message : String
  deriving DecidableEq, Repr

namespace Failure

def methodNotFound (method : String) : Failure :=
  ⟨.methodNotFound, s!"method not found: {method}"⟩

def invalidParams (method : String) : Failure :=
  ⟨.invalidParams, s!"invalid parameters for {method}"⟩

/-- The work on a request broke off. -/
def internal (reason : String) : Failure :=
  ⟨.internalError, reason⟩

def cancelled : Failure :=
  ⟨.requestCancelled, "request cancelled"⟩

/-- Tells a client why the session refuses its message. -/
def ofSession (e : SessionError) : Failure :=
  match e with
  | .notInitialized _ => ⟨.notInitialized, e.message⟩
  | _ => ⟨.invalidRequest, e.message⟩

end Failure

/-- The answer to a request. -/
structure Response where
  id : RequestId
  result : Except Failure Json

/-- A message from a client. -/
inductive Incoming where
  | request (id : RequestId) (method : String) (params : Json)
  | notification (method : String) (params : Json)
  /-- An answer to something that the server has not asked. -/
  | response

/-! ## Read and written -/

/-- Whether a number fits into 32 bits with a sign. -/
def isInt32 (n : Int) : Bool :=
  Int32.minValue.toInt ≤ n && n ≤ Int32.maxValue.toInt

namespace RequestId

def ofJson? : Json → Option RequestId
  | .int n => if isInt32 n then some (.number n) else none
  | .str s => some (.text s)
  | _ => none

def toJson : RequestId → Json
  | number n => .int n
  | text s => .str s

end RequestId

/-- The message in a JSON value. What has an identifier but no method is an answer. -/
def Incoming.ofJson? (j : Json) : Option Incoming :=
  let params := (j.get? "params").getD .null
  match (j.get? "id").bind RequestId.ofJson?, (j.get? "method").bind Json.str? with
  | some id, some method => some (.request id method params)
  | some _, none => some .response
  | none, some method => some (.notification method params)
  | none, none => none

def Failure.toJson (f : Failure) : Json :=
  .obj [("code", .int f.code.number), ("message", .str f.message)]

def Response.toJson (r : Response) : Json :=
  .obj <| [("jsonrpc", .str "2.0"), ("id", r.id.toJson)] ++
    match r.result with
    | .ok value => [("result", value)]
    | .error f => [("error", f.toJson)]

/-- A notification to the client. -/
def notificationJson (method : String) (params : Json) : Json :=
  .obj [("jsonrpc", .str "2.0"), ("method", .str method), ("params", params)]

end LgLang.Server
