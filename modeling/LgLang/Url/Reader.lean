import LgLang.Url.Host

/-!
# Reading and resolving URLs

`Url.parse` reads an absolute URL and `Url.join` resolves a reference against a base. Both normalize: schemes and hosts
in lower case, paths without dot segments, characters encoded where their part requires it. The drive letters of file
paths (`C:`) are segments that dot segments do not remove.
-/

namespace LgLang.Url

/-! ## Preparation -/

def isSpaceOrControl (c : Char) : Bool :=
  c.toNat ≤ 0x20

/-- A text without control characters and spaces at its ends, and without tabs and line ends anywhere. -/
def cleaned (text : String) : List Char :=
  let cs := text.toList.dropWhile isSpaceOrControl
  let cs := (cs.reverse.dropWhile isSpaceOrControl).reverse
  cs.filter fun c => c != '\t' && c != '\n' && c != '\r'

/-- Splits a scheme and its colon off the beginning of a text. -/
def splitScheme? (cs : List Char) : Option (String × List Char) :=
  match cs with
  | [] => none
  | c :: _ =>
    if c.isAlpha then
      let isSchemeChar := fun c : Char => c.isAlphanum || c == '+' || c == '-' || c == '.'
      match cs.dropWhile isSchemeChar with
      | ':' :: rest => some (String.ofList ((cs.takeWhile isSchemeChar).map Char.toLower), rest)
      | _ => none
    else none

/-! ## Drive letters -/

/-- A letter and a colon or bar. -/
def isDriveLetter (cs : List Char) : Bool :=
  match cs with
  | [a, b] => a.isAlpha && (b == ':' || b == '|')
  | _ => false

/-- A letter and a colon. -/
def isNormalDriveLetter (cs : List Char) : Bool :=
  match cs with
  | [a, ':'] => a.isAlpha
  | _ => false

/-- Whether the first segment of a path text is a drive letter. -/
def startsWithDriveLetter (cs : List Char) : Bool :=
  match cs with
  | a :: b :: rest =>
    a.isAlpha && (b == ':' || b == '|') &&
      match rest with
      | [] => true
      | c :: _ => c == '/' || c == '\\' || c == '?' || c == '#'
  | _ => false

/-! ## Paths -/

def isDoubleDot (cs : List Char) : Bool :=
  let lower := String.ofList (cs.map Char.toLower)
  lower == ".." || lower == ".%2e" || lower == "%2e." || lower == "%2e%2e"

def isSingleDot (cs : List Char) : Bool :=
  let lower := String.ofList (cs.map Char.toLower)
  lower == "." || lower == "%2e"

/-- A path being read: its segments so far, last first, and whether a drive letter has taken the place of the host. -/
structure PathDraft where
  passed : List (List Char)
  dropsHost : Bool

/-- The path with its last segment removed, unless that is a drive letter. -/
def PathDraft.shorten (d : PathDraft) : PathDraft :=
  match d.passed with
  | last :: before => if isDriveLetter last then d else { d with passed := before }
  | [] => d

/-- The path with one more segment; `final` tells that no slash follows it. -/
def PathDraft.add (isFile : Bool) (d : PathDraft) (segment : List Char) (final : Bool) : PathDraft :=
  let segment := encode pathSet segment
  if isDoubleDot segment then
    let d := d.shorten
    if final then { d with passed := [] :: d.passed } else d
  else if isSingleDot segment then
    if final then { d with passed := [] :: d.passed } else d
  else if isFile && d.passed.isEmpty && isDriveLetter segment then
    -- A drive letter is written with a colon, whichever mark it was given with.
    { passed := [segment.take 1 ++ [':']], dropsHost := true }
  else { d with passed := segment :: d.passed }

/-- The path with all segments of a text. -/
def PathDraft.addAll (isFile : Bool) (d : PathDraft) : List (List Char) → PathDraft
  | [] => d
  | [segment] => d.add isFile segment true
  | segment :: rest => (d.add isFile segment false).addAll isFile rest

/-- Drops the empty segments at the beginning of a file path, as long as another one follows. -/
def dropEmptySegments : List (List Char) → List (List Char)
  | [] :: s :: ss => dropEmptySegments (s :: ss)
  | ss => ss

/-- Separates the path of a text from its query and fragment. -/
def splitPath (cs : List Char) : List Char × List Char :=
  (cs.takeWhile (fun c => c != '?' && c != '#'), cs.dropWhile (fun c => c != '?' && c != '#'))

def isSlash (scheme : String) (c : Char) : Bool :=
  c == '/' || (c == '\\' && isSpecialScheme scheme)

/-- Reads the segments of a path text behind those of a base, given last first. -/
def readPath (scheme : String) (base : List String) (path : List Char) : List String × Bool :=
  let isFile := isFileScheme scheme
  let d := PathDraft.addAll isFile ⟨base.map String.toList, false⟩ (splitAt (isSlash scheme) path)
  let segments := if isFile then dropEmptySegments d.passed.reverse else d.passed.reverse
  (segments.map String.ofList, d.dropsHost)

/-- The path text without the slash it begins with. -/
def withoutLeadingSlash (scheme : String) (path : List Char) : List Char :=
  match path with
  | c :: cs => if isSlash scheme c then cs else path
  | [] => []

/-! ## Query and fragment -/

/-- Reads what stands behind the path. -/
def readTail (scheme : String) (cs : List Char) : Option String × Option String :=
  let (before, fragment) := splitMark '#' cs
  let set := if isSpecialScheme scheme then specialQuerySet else querySet
  let query := match before with
    | '?' :: query => some (String.ofList (encode set query))
    | _ => none
  (query, fragment.map fun f => String.ofList (encode fragmentSet f))

/-- The URL with that scheme, authority and path and what the tail of a text adds. -/
def withTail (scheme : String) (authority : Option String) (path : Path) (tail : List Char) : Url :=
  let (query, fragment) := readTail scheme tail
  { scheme, authority, path, query, fragment }

/-! ## Authorities -/

/-- The credentials before the last at sign of an authority, encoded, with the at sign. -/
def readCredentials (cs : List Char) : String :=
  let (user, password) := splitMark ':' cs
  let user := encode userinfoSet user
  let password := match password with
    | some (c :: cs) => ':' :: encode userinfoSet (c :: cs)
    | _ => []
  if user.isEmpty && password.isEmpty then "" else String.ofList (user ++ password ++ ['@'])

/-- The port that digits write, left out when it is the default one of the scheme. -/
def readPort (scheme : String) (cs : List Char) : Except Error String :=
  if cs.all Char.isDigit then
    match digitsValue? 10 cs with
    | none => .error .invalidPort
    | some n =>
      if n > 65535 then .error .invalidPort
      else if cs.isEmpty || defaultPort? scheme == some n then .ok ""
      else .ok s!":{n}"
  else .error .invalidPort

/-- Separates a host from the colon and the port behind it. Colons in brackets belong to the host. -/
def splitHost (inBrackets : Bool) : List Char → List Char × Option (List Char)
  | [] => ([], none)
  | c :: cs =>
    if c == ':' && !inBrackets then ([], some cs)
    else
      let (host, port) := splitHost (if c == '[' then true else if c == ']' then false else inBrackets) cs
      (c :: host, port)

/-- Reads an authority. -/
def readAuthority (scheme : String) (cs : List Char) : Except Error String := do
  -- The last at sign ends the credentials; earlier ones belong to them.
  let (rest, credentials) :=
    match cs.reverse.dropWhile (· != '@') with
    | [] => (cs, none)
    | _ :: before => ((cs.reverse.takeWhile (· != '@')).reverse, some before.reverse)
  if credentials == some [] && rest.isEmpty then throw .emptyHost
  let (host, port) := splitHost false rest
  let special := isSpecialScheme scheme
  if host.isEmpty && (special || port.isSome || (credentials.map readCredentials).getD "" != "") then
    throw .emptyHost
  let host ← if special then readSpecialHost host else readPlainHost host
  let port ← match port with
    | none => pure ""
    | some port => readPort scheme port
  pure ((credentials.map readCredentials).getD "" ++ host ++ port)

/-- Reads what stands behind the two slashes of a URL that is not a file URL. -/
def readAfterSlashes (scheme : String) (cs : List Char) : Except Error Url := do
  let endsAuthority := fun c => isSlash scheme c || c == '?' || c == '#'
  let authority ← readAuthority scheme (cs.takeWhile (!endsAuthority ·))
  let (path, tail) := splitPath (cs.dropWhile (!endsAuthority ·))
  let segments :=
    if path.isEmpty && !isSpecialScheme scheme then []
    else (readPath scheme [] (withoutLeadingSlash scheme path)).1
  pure (withTail scheme (some authority) (.segments segments) tail)

/-! ## File URLs -/

/-- A file URL with that host whose path continues the given segments, last first. -/
def fileUrl (host : String) (base : List String) (cs : List Char) : Url :=
  let (path, tail) := splitPath cs
  let (segments, dropsHost) := readPath "file" base (withoutLeadingSlash "file" path)
  withTail "file" (some (if dropsHost then "" else host)) (.segments segments) tail

/-- The host of a file URL; the local host is written as none. -/
def readFileHost (cs : List Char) : Except Error String :=
  if cs.isEmpty then .ok ""
  else (readSpecialHost cs).map fun host => if host == "localhost" then "" else host

/-- The segments of a URL, last first. -/
def reversedSegments (u : Url) : List String :=
  (u.segments?.getD []).reverse

/-- The segments of a base that a reference continues, last first: all but its last, unless that is a drive letter. -/
def keptSegments (base : Url) : List String :=
  match base.reversedSegments with
  | last :: before => if isFileScheme base.scheme && isNormalDriveLetter last.toList then last :: before else before
  | [] => []

/-- Reads what stands behind `file:`, or a reference without scheme against a file URL. -/
def readFile (base : Option Url) (cs : List Char) : Except Error Url :=
  let slash := isSlash "file"
  match cs with
  | a :: b :: rest =>
    if slash a && slash b then
      let endsHost := fun c => slash c || c == '?' || c == '#'
      let host := rest.takeWhile (!endsHost ·)
      -- A drive letter in the place of the host already begins the path.
      if isDriveLetter host then .ok (fileUrl "" [] rest)
      else (readFileHost host).map fun host => fileUrl host [] (rest.dropWhile (!endsHost ·))
    else readPathReference cs
  | _ => readPathReference cs
where
  /-- A reference without host. -/
  readPathReference (cs : List Char) : Except Error Url :=
    match cs, base with
    | [], some base => .ok { base with fragment := none }
    | c :: rest, some base =>
      if isSlash "file" c then
        if startsWithDriveLetter rest then .ok (fileUrl "" [] cs)
        else
          -- A rooted path stays on the drive of its base.
          match base.segments?.bind List.head? with
          | some drive =>
            if isNormalDriveLetter drive.toList then .ok (fileUrl "" [drive] cs)
            else .ok (fileUrl (base.authority.getD "") [] cs)
          | none => .ok (fileUrl (base.authority.getD "") [] cs)
      else if c == '?' then .ok (withTail "file" base.authority base.path cs)
      else if c == '#' then .ok { base with fragment := (readTail "file" cs).2 }
      else if startsWithDriveLetter cs then .ok (fileUrl "" [] cs)
      else
        let (path, tail) := splitPath cs
        .ok (withTail "file" base.authority (.segments (readPath "file" base.keptSegments path).1) tail)
    | cs, none => .ok (fileUrl "" [] cs)

/-! ## References -/

/-- Resolves a reference without scheme against a URL that is not a file URL and has no opaque path. -/
def readRelative (base : Url) (cs : List Char) : Except Error Url :=
  let scheme := base.scheme
  match cs with
  | [] => .ok { base with fragment := none }
  | '?' :: _ => .ok (withTail scheme base.authority base.path cs)
  | '#' :: _ => .ok { base with fragment := (readTail scheme cs).2 }
  | '/' :: '/' :: rest => readAfterSlashes scheme rest
  | c :: rest =>
    if isSlash scheme c then
      match rest with
      | d :: rest' =>
        if isSlash scheme d then readAfterSlashes scheme (rest'.dropWhile (isSlash scheme))
        else .ok (rooted scheme rest)
      | [] => .ok (rooted scheme rest)
    else
      let (path, tail) := splitPath cs
      .ok (withTail scheme base.authority (.segments (readPath scheme base.keptSegments path).1) tail)
where
  /-- The URL of the base's authority with that path. -/
  rooted (scheme : String) (cs : List Char) : Url :=
    let (path, tail) := splitPath cs
    withTail scheme base.authority (.segments (readPath scheme [] path).1) tail

/-- Reads what stands behind the scheme of a URL that is not special. -/
def readPlain (scheme : String) (cs : List Char) : Except Error Url :=
  match cs with
  | '/' :: '/' :: rest => readAfterSlashes scheme rest
  | '/' :: rest =>
    let (path, tail) := splitPath rest
    .ok (withTail scheme none (.segments (readPath scheme [] path).1) tail)
  | _ =>
    let (path, tail) := splitPath cs
    .ok (withTail scheme none (.opaqueText (String.ofList (encode [] path))) tail)

/-- Reads what stands behind a scheme. -/
def readWithScheme (base : Option Url) (scheme : String) (cs : List Char) : Except Error Url :=
  if isFileScheme scheme then readFile (base.filter fun b => isFileScheme b.scheme) cs
  else if isSpecialScheme scheme then
    let slashes := cs.takeWhile (isSlash scheme)
    match base with
    | some base =>
      -- Behind the base's own scheme, fewer than two slashes make a reference.
      if slashes.length < 2 && base.scheme == scheme then readRelative base cs
      else readAfterSlashes scheme (cs.dropWhile (isSlash scheme))
    | none => readAfterSlashes scheme (cs.dropWhile (isSlash scheme))
  else readPlain scheme cs

/-- Reads a URL or a reference. -/
def read (base : Option Url) (text : String) : Except Error Url :=
  let cs := cleaned text
  match splitScheme? cs with
  | some (scheme, rest) => readWithScheme base scheme rest
  | none =>
    match base with
    | none => .error .relativeWithoutBase
    | some base =>
      match cs, base.path with
      | '#' :: _, _ => .ok { base with fragment := (readTail base.scheme cs).2 }
      | _, .opaqueText _ => .error .relativeWithOpaqueBase
      | _, .segments _ => if isFileScheme base.scheme then readFile (some base) cs else readRelative base cs

end LgLang.Url

namespace LgLang.Uri

/-- The document named by an absolute URL. -/
def parse (text : String) : Except Url.Error Uri :=
  (Url.read none text).map Url.toUri

/-- The document that a reference in this one names. -/
def join (base : Uri) (reference : String) : Except Url.Error Uri :=
  (Url.read (some base.url) reference).map Url.toUri

end LgLang.Uri
