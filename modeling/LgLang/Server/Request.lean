import LgLang.Server.Params

/-!
# Requests of clients

What clients ask: to begin and to end the session, and what the editor shows at a position of a document. A request whose
parameters cannot be read is malformed; its method is kept.
-/

namespace LgLang.Server

/-- What a client tells of itself when the session begins. -/
structure ClientInfo where
  /-- The folders that are open, if the client knows of folders. -/
  folders : Option (List Uri)
  /-- The folder that is open. -/
  root : Option Uri
  /-- The client's settings. -/
  options : Option Json

namespace ClientInfo

/-- The folder that holds the project: the first one that is open. -/
def projectFolder? (c : ClientInfo) : Option Uri :=
  match c.folders with
  | some (folder :: _) => some folder
  | _ => c.root

end ClientInfo

/-- What an editor shows at a position. -/
inductive Feature where
  | completion
  | hover
  | signatureHelp
  | definition
  /-- With or without the definitions. -/
  | references (withDefinitions : Bool)
  deriving DecidableEq, Repr

/-- The question what is to be shown at a position. -/
structure FeatureRequest where
  feature : Feature
  uri : Uri
  position : Position
  deriving DecidableEq, Repr

/-- What a request asks. -/
inductive Request where
  | start (client : ClientInfo)
  | shutdown
  | feature (f : FeatureRequest)
  /-- A request of a known method whose parameters cannot be read; `start` if it is to begin the session. -/
  | malformed (start : Bool)
  | unknown

namespace Request

open Params

/-! ## Beginning the session -/

/-- Whether a value is an object. -/
def isObject (j : Json) : Option Unit :=
  match j with
  | .obj _ => some ()
  | _ => none

/-- What the client is able to do is not used, but it has to be told. -/
def capabilities? (j : Json) : Option Unit := do
  isObject j
  for area in ["workspace", "textDocument", "window", "general"] do
    let _ ← optional isObject (j.get? area)

def folder? (j : Json) : Option Uri := do
  match ← members? ["uri", "name"] j with
  | [uri, name] =>
    let _ ← required Json.str? name
    required uri? uri
  | _ => none

/-- How much the client wants to be told of the server's work. -/
def trace? : Json → Option Unit
  | .str s => if ["off", "messages", "verbose"].contains s then some () else none
  | _ => none

/-- The name of the client and perhaps its version. -/
def clientName? (j : Json) : Option Unit := do
  match ← members? ["name", "version"] j with
  | [name, version] =>
    let _ ← required Json.str? name
    let _ ← optional Json.str? version
  | _ => none

def clientInfo? (j : Json) : Option ClientInfo := do
  match ← members? ["processId", "rootPath", "rootUri", "initializationOptions", "capabilities", "trace",
      "workspaceFolders", "clientInfo", "locale"] j with
  | [process, path, root, options, capabilities, trace, folders, client, locale] =>
    let _ ← optional nat32? process
    let _ ← optional Json.str? path
    let root ← optional uri? root
    let options ← optional some options
    required capabilities? capabilities
    let _ ← optional trace? trace
    let folders ← optional (items? folder?) folders
    let _ ← optional clientName? client
    let _ ← optional Json.str? locale
    some ⟨folders, root, options⟩
  | _ => none

/-! ## Features -/

/-- The token by which a client can follow a long request is not used, but it has to be one. -/
def token? (j : Json) : Option Unit :=
  (RequestId.ofJson? j).map fun _ => ()

/-- Why completion was asked for. -/
def completionContext? (j : Json) : Option Unit := do
  match ← members? ["triggerKind", "triggerCharacter"] j with
  | [kind, character] =>
    let _ ← required int32? kind
    let _ ← optional Json.str? character
  | _ => none

/-- Documentation as plain text or in a given format. -/
def documentation? (j : Json) : Option Unit :=
  match j with
  | .str _ => some ()
  | _ => do
    match ← members? ["kind", "value"] j with
    | [kind, value] =>
      let kind ← required Json.str? kind
      let _ ← required Json.str? value
      if kind == "plaintext" || kind == "markdown" then some () else none
    | _ => none

/-- A parameter of a signature, written out or by its place in the signature. -/
def parameter? (j : Json) : Option Unit := do
  match ← members? ["label", "documentation"] j with
  | [label, documentation] =>
    match ← label with
    | .str _ => some ()
    | .arr [a, b] =>
      let _ ← nat32? a
      let _ ← nat32? b
    | _ => none
    let _ ← optional documentation? documentation
  | _ => none

def signature? (j : Json) : Option Unit := do
  match ← members? ["label", "documentation", "parameters", "activeParameter"] j with
  | [label, documentation, parameters, active] =>
    let _ ← required Json.str? label
    let _ ← optional documentation? documentation
    let _ ← optional (items? parameter?) parameters
    let _ ← optional nat32? active
  | _ => none

/-- The signatures that the client shows at the time. -/
def shownSignatures? (j : Json) : Option Unit := do
  match ← members? ["signatures", "activeSignature", "activeParameter"] j with
  | [signatures, signature, parameter] =>
    let _ ← required (items? signature?) signatures
    let _ ← optional nat32? signature
    let _ ← optional nat32? parameter
  | _ => none

/-- Why signature help was asked for. -/
def signatureContext? (j : Json) : Option Unit := do
  match ← members? ["triggerKind", "triggerCharacter", "isRetrigger", "activeSignatureHelp"] j with
  | [kind, character, retrigger, shown] =>
    let _ ← required int32? kind
    let _ ← optional Json.str? character
    let _ ← required Json.bool? retrigger
    let _ ← optional shownSignatures? shown
  | _ => none

/-- Whether the definitions are wanted with the references. -/
def referenceContext? (j : Json) : Option Bool := do
  match ← members? ["includeDeclaration"] j with
  | [wanted] => required Json.bool? wanted
  | _ => none

/-- What a request of a method wants to be shown. -/
def feature? (method : String) (params : Json) : Option Feature := do
  let context := params.get? "context"
  match method with
  | "textDocument/completion" =>
    let _ ← optional completionContext? context
    some .completion
  | "textDocument/hover" => some .hover
  | "textDocument/signatureHelp" =>
    let _ ← optional signatureContext? context
    some .signatureHelp
  | "textDocument/definition" => some .definition
  | "textDocument/references" => some (.references (← required referenceContext? context))
  | _ => none

/-- Whether requests of a method may name a token for partial results. -/
def hasPartialResults (method : String) : Bool :=
  ["textDocument/completion", "textDocument/definition", "textDocument/references"].contains method

def featureRequest? (method : String) (params : Json) : Option FeatureRequest := do
  isObject params
  let uri ← required document? (params.get? "textDocument")
  let position ← required position? (params.get? "position")
  let feature ← feature? method params
  let _ ← optional token? (params.get? "workDoneToken")
  if hasPartialResults method then
    let _ ← optional token? (params.get? "partialResultToken")
  some { feature, uri, position }

/-- The methods that ask what is to be shown. -/
def featureMethods : List String :=
  ["textDocument/completion", "textDocument/hover", "textDocument/signatureHelp", "textDocument/definition",
    "textDocument/references"]

/-- The request with a method and parameters. -/
def ofParams (method : String) (params : Json) : Request :=
  if method == SessionEvent.initializeRequest.method then
    match clientInfo? params with
    | some client => .start client
    | none => .malformed true
  else if method == SessionEvent.shutdownRequest.method then .shutdown
  else if featureMethods.contains method then
    match featureRequest? method params with
    | some f => .feature f
    | none => .malformed false
  else .unknown

end Request

end LgLang.Server
