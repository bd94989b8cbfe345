import LgLang.Url.Reader

/-!
# File paths

A URL with a path and without a host names a file of this machine: the segments of its path, decoded, behind slashes.
An absolute path is named by the file URL of its components.
-/

namespace LgLang.Url

/-- The text of decoded bytes. Where they are not UTF-8, the bytes outside ASCII become replacement characters. -/
def textOfBytes (bytes : List UInt8) : String :=
  (textOfBytes? bytes).getD (String.ofList (bytes.map fun b => if b < 128 then Char.ofNat b.toNat else '\ufffd'))

/-- Whether a path ends in a drive letter, behind which a slash has to follow. -/
def endsInDriveLetter (path : String) : Bool :=
  match path.toList.reverse with
  | b :: a :: _ :: _ => a.isAlpha && (b == ':' || b == '|')
  | _ => false

/-- The path of the file that a URL names. -/
def filePath? (u : Url) : Option String :=
  match u.authority, u.segments? with
  | none, some segments | some "", some segments =>
    let path := String.join (segments.map fun s => "/" ++ textOfBytes (decode s.toList))
    some (if endsInDriveLetter path then path ++ "/" else path)
  | _, _ => none

/-- The URL of an absolute path. -/
def ofFilePath (path : String) : Url :=
  let components := (splitAt (· == '/') path.toList).filter fun c => !c.isEmpty && c != ['.']
  let segments := if components.isEmpty then [[]] else components.map (encode fileNameSet)
  { scheme := "file", authority := some "", path := .segments (segments.map String.ofList)
    query := none, fragment := none }

end LgLang.Url
