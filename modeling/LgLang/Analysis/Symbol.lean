import LgLang.Import

/-!
# Symbols

The templates of a scope under the names by which its root can use them: a template of a file that the root imports
under an alias is named `alias.Name`. Definitions in the root outrank definitions that imports bring in, and among
those of highest rank (the active ones) the first is meant by the name.
-/

namespace LgLang

/-- The name of a template of a file that may be imported under an alias. -/
def qualify (qualifier : Option String) (name : String) : String :=
  match qualifier with
  | some a => a ++ "." ++ name
  | none => name

/-- A definition of a template, as seen from the root of a scope. -/
structure Symbol where
  /-- The name with its alias. -/
  name : String
  uri : Uri
  nameSpan : Span
  span : Span
  parameters : List String
  doc : Option String
  bodyKind : Syntax.BodyKind
  /-- The import of the root that brought the definition, or none for the root's own. -/
  via : Option Nat
  deriving DecidableEq, Repr

namespace Symbol

/-- The symbol of a template of a file in the scope. -/
def ofTemplate (f : ScopeFile) (t : Syntax.Template) : Symbol where
  name := qualify f.qualifier t.name
  uri := f.uri
  nameSpan := t.nameSpan
  span := t.span
  parameters := t.parameterNames
  doc := t.doc
  bodyKind := t.body.kind
  via := f.via

/-- Whether the definition stands in the root. -/
def isLocal (s : Symbol) : Bool :=
  s.via.isNone

/-- The name and its parameters. -/
def signature (s : Symbol) : String :=
  s.name ++ "(" ++ ", ".intercalate s.parameters ++ ")"

/-- Of several definitions, those that count: the root's own, or all when it has none. -/
def active (definitions : List Symbol) : List Symbol :=
  if definitions.any isLocal then definitions.filter isLocal else definitions

end Symbol

/-- The definitions of every name, in the order in which they were found. -/
structure SymbolTable where
  byName : Std.TreeMap String (List Symbol)

namespace SymbolTable

def empty : SymbolTable :=
  ⟨∅⟩

/-- Every definition of a name. -/
def definitions (t : SymbolTable) (name : String) : List Symbol :=
  t.byName.getD name []

def insert (t : SymbolTable) (s : Symbol) : SymbolTable :=
  ⟨t.byName.insert s.name (t.definitions s.name ++ [s])⟩

/-- The symbols of all templates of a scope, file by file. -/
def symbolsOf (files : List ScopeFile) : List Symbol :=
  files.flatMap fun f => f.file.templates.map (Symbol.ofTemplate f)

/-- The table of a scope. -/
def ofScope (s : Scope) : SymbolTable :=
  (symbolsOf s.files).foldl insert empty

/-- The definitions of a name that count. -/
def active (t : SymbolTable) (name : String) : List Symbol :=
  Symbol.active (t.definitions name)

/-- The definition that a name means. -/
def resolve? (t : SymbolTable) (name : String) : Option Symbol :=
  (t.active name).head?

def contains (t : SymbolTable) (name : String) : Bool :=
  t.byName.contains name

/-- Every name, in order. -/
def names (t : SymbolTable) : List String :=
  t.byName.keys

def size (t : SymbolTable) : Nat :=
  t.byName.size

/-- Every definition, by name. -/
def all (t : SymbolTable) : List Symbol :=
  t.names.flatMap t.definitions

/-- The definition that each name means, by name. -/
def visible (t : SymbolTable) : List Symbol :=
  t.names.filterMap t.resolve?

/-- The names with more than one definition that counts, with those definitions. -/
def duplicates (t : SymbolTable) : List (String × List Symbol) :=
  (t.names.map fun name => (name, t.active name)).filter fun (_, active) => active.length > 1

/-- The first definition in a document whose name touches the offset. -/
def definedAt? (t : SymbolTable) (uri : Uri) (offset : Nat) : Option Symbol :=
  t.all.find? fun s => s.uri == uri && s.nameSpan.contains offset

end SymbolTable

end LgLang
