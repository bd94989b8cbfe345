import LgLang.Text.Utf8

/-!
# Framing messages

On a byte stream each message follows header lines, one of which tells its size in bytes, and an empty line. Lines end
with a carriage return and a line feed.
-/

namespace LgLang.Server

/-- A message with its header. -/
def frame (body : String) : String :=
  s!"Content-Length: {Text.byteSize body.toList}\r\n\r\n" ++ body

/-- What a header line says. -/
inductive HeaderLine where
  /-- The header ends here. -/
  | empty
  | contentLength (size : Nat)
  /-- Something that is of no interest. -/
  | other
  | malformed
  deriving DecidableEq, Repr

namespace HeaderLine

/-- The line without its end. -/
def body? (line : List Char) : Option (List Char) :=
  match line.reverse with
  | '\n' :: '\r' :: cs => some cs.reverse
  | _ => none

/-- The name and the value of a header, which a colon and a space separate. -/
def split? : List Char → Option (List Char × List Char)
  | ':' :: ' ' :: value => some ([], value)
  | [] => none
  | c :: cs => (split? cs).map fun (name, value) => (c :: name, value)

/-- The number that decimal digits write. -/
def size? (cs : List Char) : Option Nat :=
  if cs.isEmpty then none
  else cs.foldlM (fun (n : Nat) (c : Char) => if c.isDigit then some (10 * n + (c.toNat - '0'.toNat)) else none) 0

/-- Reads a header line. -/
def ofLine (line : String) : HeaderLine :=
  match body? line.toList with
  | none => .malformed
  | some [] => .empty
  | some cs =>
    match split? cs with
    | none => .malformed
    | some (name, value) =>
      if name.map Char.toLower = "content-length".toList then
        match size? value with
        | some n => .contentLength n
        | none => .malformed
      else .other

end HeaderLine

end LgLang.Server
