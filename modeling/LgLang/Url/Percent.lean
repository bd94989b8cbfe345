/-!
# Percent encoding

A character that may not stand in a part of a URL is written as its UTF-8 bytes, each as `%` and two upper-case
hexadecimal digits. Control characters and characters outside ASCII are always written so; each part of a URL adds its
own characters to them.
-/

namespace LgLang.Url

/-- The upper-case hexadecimal digit of a number below sixteen. -/
def hexDigit (n : Nat) : Char :=
  if n < 10 then Char.ofNat (48 + n) else Char.ofNat (55 + n)

/-- The number that a hexadecimal digit stands for. -/
def hexValue? (c : Char) : Option Nat :=
  if '0' ≤ c && c ≤ '9' then some (c.toNat - 48)
  else if 'a' ≤ c && c ≤ 'f' then some (c.toNat - 87)
  else if 'A' ≤ c && c ≤ 'F' then some (c.toNat - 55)
  else none

/-- A byte as a percent sign and two digits. -/
def encodeByte (b : UInt8) : List Char :=
  ['%', hexDigit (b.toNat / 16), hexDigit (b.toNat % 16)]

/-- Characters that no part of a URL holds as they are. -/
def isUnsafe (c : Char) : Bool :=
  c.toNat < 0x20 || 0x7F ≤ c.toNat

/-- Encodes the unsafe characters and those of the given set. -/
def encode (reserved : List Char) (cs : List Char) : List Char :=
  cs.flatMap fun c =>
    if isUnsafe c || reserved.contains c then (String.utf8EncodeChar c).flatMap encodeByte else [c]

/-- What is encoded in fragments. -/
def fragmentSet : List Char :=
  [' ', '"', '<', '>', '\x60']

/-- What is encoded in paths. -/
def pathSet : List Char :=
  fragmentSet ++ ['#', '?', '\x7b', '\x7d']

/-- What is encoded in user names and passwords. -/
def userinfoSet : List Char :=
  pathSet ++ ['/', ':', ';', '=', '@', '[', '\\', ']', '^', '|']

/-- What is encoded in queries. -/
def querySet : List Char :=
  [' ', '"', '#', '<', '>']

/-- What is encoded in the queries of special schemes. -/
def specialQuerySet : List Char :=
  querySet ++ ['\'']

/-- What is encoded in the names of files. -/
def fileNameSet : List Char :=
  pathSet ++ ['/', '%', '\\']

/-- The bytes of a text in which percent signs and two digits stand for bytes. -/
def decode : List Char → List UInt8
  | [] => []
  | '%' :: a :: b :: cs =>
    match hexValue? a, hexValue? b with
    | some x, some y => UInt8.ofNat (16 * x + y) :: decode cs
    | _, _ => 37 :: decode (a :: b :: cs)
  | c :: cs => String.utf8EncodeChar c ++ decode cs
termination_by cs => cs.length

/-- The text that bytes encode in UTF-8. -/
def textOfBytes? (bytes : List UInt8) : Option String :=
  String.fromUTF8? ⟨bytes.toArray⟩

end LgLang.Url
