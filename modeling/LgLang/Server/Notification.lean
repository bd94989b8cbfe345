import LgLang.Server.Params
import LgLang.Workspace.Documents

/-!
# Notifications of clients

What clients tell the server: that the session goes on or ends, what happens to documents and files, and that a request
is no longer of interest. A notification that cannot be read is ignored, as is one of an unknown method.
-/

namespace LgLang.Server

inductive Notification where
  | initialized
  | exit
  | didOpen (uri : Uri) (document : Workspace.Document)
  | didChange (uri : Uri) (version : Int) (changes : List Workspace.Change)
  | didSave (uri : Uri)
  | didClose (uri : Uri)
  | didChangeFiles (uris : List Uri)
  | cancel (id : RequestId)
  | ignored
  deriving DecidableEq, Repr

namespace Notification

open Params

/-- A change of a text. -/
def change? (j : Json) : Option Workspace.Change := do
  match ← members? ["range", "rangeLength", "text"] j with
  | [range, length, text] =>
    let range ← optional range? range
    let _ ← optional nat32? length
    some ⟨range, ← required Json.str? text⟩
  | _ => none

def didOpen? (j : Json) : Option Notification := do
  match ← members? ["textDocument"] j with
  | [item] =>
    match ← members? ["uri", "languageId", "version", "text"] (← item) with
    | [uri, language, version, text] =>
      let uri ← required uri? uri
      let language ← required Json.str? language
      let version ← required int32? version
      let content ← required Json.str? text
      some (.didOpen uri { version, content, language })
    | _ => none
  | _ => none

def didChange? (j : Json) : Option Notification := do
  match ← members? ["textDocument", "contentChanges"] j with
  | [item, changes] =>
    match ← members? ["uri", "version"] (← item) with
    | [uri, version] =>
      some (.didChange (← required uri? uri) (← required int32? version) (← required (items? change?) changes))
    | _ => none
  | _ => none

def didSave? (j : Json) : Option Notification := do
  match ← members? ["textDocument", "text"] j with
  | [item, text] =>
    let _ ← optional Json.str? text
    some (.didSave (← required document? item))
  | _ => none

def didClose? (j : Json) : Option Notification := do
  match ← members? ["textDocument"] j with
  | [item] => some (.didClose (← required document? item))
  | _ => none

/-- The file that an event is about; the kind of the event means nothing. -/
def fileEvent? (j : Json) : Option Uri := do
  match ← members? ["uri", "type"] j with
  | [uri, type] =>
    let _ ← required int32? type
    required uri? uri
  | _ => none

def didChangeFiles? (j : Json) : Option Notification := do
  match ← members? ["changes"] j with
  | [changes] => some (.didChangeFiles (← required (items? fileEvent?) changes))
  | _ => none

def cancel? (j : Json) : Option Notification := do
  match ← members? ["id"] j with
  | [id] => some (.cancel (← required RequestId.ofJson? id))
  | _ => none

/-- The notification with a method and parameters. -/
def ofParams (method : String) (params : Json) : Notification :=
  let read : Option Notification := match method with
    | "initialized" => some .initialized
    | "exit" => some .exit
    | "textDocument/didOpen" => didOpen? params
    | "textDocument/didChange" => didChange? params
    | "textDocument/didSave" => didSave? params
    | "textDocument/didClose" => didClose? params
    | "workspace/didChangeWatchedFiles" => didChangeFiles? params
    | "$/cancelRequest" => cancel? params
    | _ => none
  read.getD .ignored

end Notification

end LgLang.Server
