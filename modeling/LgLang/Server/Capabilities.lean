import LgLang.Json

/-!
# What the server can do

The answer to `initialize`: documents are synchronized by changes, and what the server shows at a position.
-/

namespace LgLang.Server

/-- The version of the library and its programs. -/
def version : String :=
  "0.1.0"

/-- The characters behind which editors ask for completion. -/
def completionTriggers : List String :=
  ["$", "\x7b", "[", "."]

/-- The characters behind which editors ask for signature help. -/
def signatureTriggers : List String :=
  ["(", ","]

/-- The capabilities of the server. -/
def capabilities : Json :=
  .obj [
    ("textDocumentSync", .obj [("openClose", .bool true), ("change", .ofNat 2),
      ("save", .obj [("includeText", .bool false)])]),
    ("hoverProvider", .bool true),
    ("completionProvider", .obj [("triggerCharacters", .arr (completionTriggers.map .str))]),
    ("signatureHelpProvider", .obj [("triggerCharacters", .arr (signatureTriggers.map .str))]),
    ("definitionProvider", .bool true),
    ("referencesProvider", .bool true)]

/-- The answer to the request that begins a session. -/
def startResult : Json :=
  .obj [("capabilities", capabilities),
    ("serverInfo", .obj [("name", .str "lg-language-server"), ("version", .str version)])]

end LgLang.Server
