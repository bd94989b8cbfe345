import LgLang.Uri
import LgLang.Url.Percent

/-!
# URLs

A URL is a scheme, perhaps an authority (the part between `//` and the path), a path, perhaps a query and perhaps a
fragment, all in their normalized form. Its text is its `href`; `ofHref` takes a normalized text apart again.
-/

namespace LgLang

/-- Paths are lists of segments, or texts of their own kind that other paths cannot be resolved against. -/
inductive Url.Path where
  | segments (names : List String)
  | opaqueText (text : String)
  deriving DecidableEq, Repr

/-- A URL taken apart. -/
structure Url where
  scheme : String
  authority : Option String
  path : Url.Path
  query : Option String
  fragment : Option String
  deriving DecidableEq, Repr

namespace Url

/-- Why a text is not a URL. -/
inductive Error where
  | emptyHost
  | invalidDomain
  | invalidPort
  | invalidIpv4
  | invalidIpv6
  | invalidHostCharacter
  | relativeWithoutBase
  | relativeWithOpaqueBase
  deriving DecidableEq, Repr

def Error.message : Error → String
  | emptyHost => "empty host"
  | invalidDomain => "invalid international domain name"
  | invalidPort => "invalid port number"
  | invalidIpv4 => "invalid IPv4 address"
  | invalidIpv6 => "invalid IPv6 address"
  | invalidHostCharacter => "invalid domain character"
  | relativeWithoutBase => "relative URL without a base"
  | relativeWithOpaqueBase => "relative URL with a cannot-be-a-base base"

/-! ## Text -/

/-- A path as it stands in a URL: a slash before each segment. -/
def Path.text : Path → String
  | segments names => String.join (names.map ("/" ++ ·))
  | opaqueText text => text

/-- The mark that keeps an empty first segment from looking like an authority. -/
def pathMark (u : Url) : String :=
  match u.authority, u.path with
  | none, .segments ("" :: _ :: _) => "/."
  | _, _ => ""

/-- The text of a URL. -/
def href (u : Url) : String :=
  u.scheme ++ ":" ++ (u.authority.map ("//" ++ ·)).getD "" ++ u.pathMark ++ u.path.text ++
    (u.query.map ("?" ++ ·)).getD "" ++ (u.fragment.map ("#" ++ ·)).getD ""

/-- The name of the document at a URL. -/
def toUri (u : Url) : Uri :=
  ⟨u.href⟩

/-- The parts of a text between the separators. -/
def splitAt (isSeparator : Char → Bool) (cs : List Char) : List (List Char) :=
  match _h : cs.dropWhile (!isSeparator ·) with
  | [] => [cs.takeWhile (!isSeparator ·)]
  | _ :: rest => cs.takeWhile (!isSeparator ·) :: splitAt isSeparator rest
termination_by cs.length
decreasing_by
  have := (List.dropWhile_sublist (!isSeparator ·) (l := cs)).length_le
  rw [‹List.dropWhile _ cs = _›, List.length_cons] at this
  omega

/-- Splits a text at the first occurrence of a mark; the second part is there only when the mark is. -/
def splitMark (mark : Char) (cs : List Char) : List Char × Option (List Char) :=
  match cs.dropWhile (· != mark) with
  | [] => (cs, none)
  | _ :: rest => (cs.takeWhile (· != mark), some rest)

/-- The path that a normalized text writes. -/
def pathOfText (cs : List Char) : Path :=
  match cs with
  | [] => .segments []
  | '/' :: rest => .segments ((splitAt (· == '/') rest).map String.ofList)
  | _ => .opaqueText (String.ofList cs)

/-- Takes the normalized text of a URL apart. -/
def ofHref (text : String) : Url :=
  let (cs, fragment) := splitMark '#' text.toList
  let (cs, query) := splitMark '?' cs
  let (scheme, rest) := splitMark ':' cs
  let (authority, path) :=
    match rest.getD [] with
    | '/' :: '/' :: rest => (some (rest.takeWhile (· != '/')), pathOfText (rest.dropWhile (· != '/')))
    | '/' :: '.' :: '/' :: rest => (none, pathOfText ('/' :: rest))
    | [] => (none, .opaqueText "")
    | rest => (none, pathOfText rest)
  { scheme := String.ofList scheme, authority := authority.map String.ofList, path
    query := query.map String.ofList, fragment := fragment.map String.ofList }

/-! ## Names -/

/-- The segments of the path, unless it is opaque or empty. -/
def segments? (u : Url) : Option (List String) :=
  match u.path with
  | .segments (s :: ss) => some (s :: ss)
  | _ => none

/-- The last segment of the path. -/
def lastSegment? (u : Url) : Option String :=
  u.segments?.bind List.getLast?

/-! ## Schemes -/

/-- The default port of a scheme. -/
def defaultPort? : String → Option Nat
  | "http" | "ws" => some 80
  | "https" | "wss" => some 443
  | "ftp" => some 21
  | _ => none

def isFileScheme (scheme : String) : Bool :=
  scheme == "file"

/-- The schemes whose URLs always have an authority and a path. -/
def isSpecialScheme (scheme : String) : Bool :=
  isFileScheme scheme || (defaultPort? scheme).isSome

end Url

namespace Uri

/-- The URL with that text. -/
def url (u : Uri) : Url :=
  .ofHref u.text

/-- The last segment of the path, or the whole text when the path has no segments. -/
def fileName (u : Uri) : String :=
  u.url.lastSegment?.getD u.text

/-- The last segment of the path for people, or the whole text when there is none or it is empty. -/
def displayName (u : Uri) : String :=
  match u.url.lastSegment? with
  | some "" | none => u.text
  | some name => name

end Uri

end LgLang
