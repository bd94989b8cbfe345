import LgLang.Json

/-!
# Writing JSON

`compact` writes a value without blanks. `pretty` writes one member or item per line, indented by two spaces a level;
empty objects and arrays stay on one line.
-/

namespace LgLang.Json

/-- The lower-case hexadecimal digit of a number below sixteen. -/
def hexDigit (n : Nat) : Char :=
  if n < 10 then Char.ofNat (48 + n) else Char.ofNat (87 + n)

/-- How a character is written in a string. Control characters have a short escape or four hexadecimal digits. -/
def escapeChar (c : Char) : List Char :=
  if c == '"' then ['\\', '"']
  else if c == '\\' then ['\\', '\\']
  else if c == '\n' then ['\\', 'n']
  else if c == '\r' then ['\\', 'r']
  else if c == '\t' then ['\\', 't']
  else if c == '\x08' then ['\\', 'b']
  else if c == '\x0c' then ['\\', 'f']
  else if c.toNat < 0x20 then ['\\', 'u', '0', '0', hexDigit (c.toNat / 16), hexDigit (c.toNat % 16)]
  else [c]

/-- A string in quotes. -/
def quote (s : String) : String :=
  String.ofList ('"' :: s.toList.flatMap escapeChar ++ ['"'])

mutual

/-- Writes a value without blanks. -/
def compact : Json → String
  | null => "null"
  | bool true => "true"
  | bool false => "false"
  | int n => toString n
  | real text => text
  | str s => quote s
  | arr items => "[" ++ ",".intercalate (compactItems items) ++ "]"
  | obj members => "\x7b" ++ ",".intercalate (compactMembers members) ++ "\x7d"

def compactItems : List Json → List String
  | [] => []
  | j :: js => compact j :: compactItems js

def compactMembers : List (String × Json) → List String
  | [] => []
  | (k, j) :: ms => (quote k ++ ":" ++ compact j) :: compactMembers ms

end

/-- The beginning of a line at a level. -/
def indentation (level : Nat) : String :=
  String.ofList (List.replicate (2 * level) ' ')

/-- Writes bracketed parts, one per line, below `level`. -/
def block (level : Nat) (opener closer : String) (parts : List String) : String :=
  if parts.isEmpty then opener ++ closer
  else
    let separator := ",\n" ++ indentation (level + 1)
    opener ++ "\n" ++ indentation (level + 1) ++ separator.intercalate parts ++ "\n" ++ indentation level ++ closer

mutual

/-- Writes a value that stands at a level, one part per line. -/
def prettyAt (level : Nat) : Json → String
  | arr items => block level "[" "]" (prettyItems (level + 1) items)
  | obj members => block level "\x7b" "\x7d" (prettyMembers (level + 1) members)
  | null => "null"
  | bool true => "true"
  | bool false => "false"
  | int n => toString n
  | real text => text
  | str s => quote s

def prettyItems (level : Nat) : List Json → List String
  | [] => []
  | j :: js => prettyAt level j :: prettyItems level js

def prettyMembers (level : Nat) : List (String × Json) → List String
  | [] => []
  | (k, j) :: ms => (quote k ++ ": " ++ prettyAt level j) :: prettyMembers level ms

end

/-- Writes a value, one part per line. -/
def pretty (j : Json) : String :=
  prettyAt 0 j

end LgLang.Json
