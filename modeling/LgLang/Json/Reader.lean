import LgLang.Json

/-!
# Reading JSON

A reader for one JSON document. It takes the characters that are left and gives back a value and what follows it.
Reading fails on anything that is not exactly one value between blanks.
-/

namespace LgLang.Json

/-- The blanks that JSON allows between tokens. -/
def isSeparator (c : Char) : Bool :=
  c == ' ' || c == '\n' || c == '\t' || c == '\r'

def skipSeparators (cs : List Char) : List Char :=
  cs.dropWhile isSeparator

/-- The value of a hexadecimal digit. -/
def hexValue? (c : Char) : Option Nat :=
  if '0' ≤ c && c ≤ '9' then some (c.toNat - 48)
  else if 'a' ≤ c && c ≤ 'f' then some (c.toNat - 87)
  else if 'A' ≤ c && c ≤ 'F' then some (c.toNat - 55)
  else none

/-- The number that four hexadecimal digits write. -/
def hex4? (a b c d : Char) : Option Nat := do
  let a ← hexValue? a
  let b ← hexValue? b
  let c ← hexValue? c
  let d ← hexValue? d
  pure (((a * 16 + b) * 16 + c) * 16 + d)

/-- The character of a short escape. -/
def shortEscape? (c : Char) : Option Char :=
  match c with
  | '"' => some '"'
  | '\\' => some '\\'
  | '/' => some '/'
  | 'b' => some '\x08'
  | 'f' => some '\x0c'
  | 'n' => some '\n'
  | 'r' => some '\r'
  | 't' => some '\t'
  | _ => none

/-- Reads a string behind its opening quote, up to and with the closing one. Two escapes that stand for the halves of
a surrogate pair are one character; a lone half is refused. -/
def readString (acc : List Char) : List Char → Option (String × List Char)
  | [] => none
  | '"' :: cs => some (String.ofList acc.reverse, cs)
  | '\\' :: 'u' :: a :: b :: c :: d :: '\\' :: 'u' :: a' :: b' :: c' :: d' :: cs =>
    match hex4? a b c d with
    | none => none
    | some high =>
      -- Only the first half of a pair has to do with the escape behind it.
      if 0xD800 ≤ high && high < 0xDC00 then
        match hex4? a' b' c' d' with
        | none => none
        | some low =>
          if 0xDC00 ≤ low && low < 0xE000 then
            readString (Char.ofNat (0x10000 + (high - 0xD800) * 0x400 + (low - 0xDC00)) :: acc) cs
          else none
      else if 0xDC00 ≤ high && high < 0xE000 then none
      else readString (Char.ofNat high :: acc) ('\\' :: 'u' :: a' :: b' :: c' :: d' :: cs)
  | '\\' :: 'u' :: a :: b :: c :: d :: cs =>
    match hex4? a b c d with
    | none => none
    | some n => if 0xD800 ≤ n && n < 0xE000 then none else readString (Char.ofNat n :: acc) cs
  | '\\' :: c :: cs =>
    match shortEscape? c with
    | none => none
    | some e => readString (e :: acc) cs
  | c :: cs => if c.toNat < 0x20 then none else readString (c :: acc) cs
termination_by cs => cs.length

/-- Digits at the beginning of a text; there must be one. -/
def readDigits (cs : List Char) : Option (List Char × List Char) :=
  let digits := cs.takeWhile Char.isDigit
  if digits.isEmpty then none else some (digits, cs.dropWhile Char.isDigit)

/-- The number that decimal digits write. -/
def decimalValue (digits : List Char) : Nat :=
  digits.foldl (fun n c => n * 10 + (c.toNat - 48)) 0

/-- Reads the digits behind a decimal point, if there is one. -/
def readFraction (cs : List Char) : Option (List Char × List Char) :=
  match cs with
  | '.' :: rest => (readDigits rest).map fun (ds, rest) => ('.' :: ds, rest)
  | _ => some ([], cs)

/-- Reads an exponent, if there is one. -/
def readExponent (cs : List Char) : Option (List Char × List Char) :=
  match cs with
  | e :: sign :: rest =>
    if e == 'e' || e == 'E' then
      if sign == '+' || sign == '-' then (readDigits rest).map fun (ds, rest) => (e :: sign :: ds, rest)
      else (readDigits (sign :: rest)).map fun (ds, rest) => (e :: ds, rest)
    else some ([], cs)
  | ['e'] | ['E'] => none
  | _ => some ([], cs)

/-- Reads a number. It is kept as an integer when it is written without fraction and exponent and fits into 64 bits;
minus zero does not. -/
def readNumber (cs : List Char) : Option (Json × List Char) := do
  let negative := cs.head? == some '-'
  let (digits, rest) ← readDigits (if negative then cs.tail else cs)
  if digits.length > 1 && digits.head? == some '0' then none
  let (fraction, rest) ← readFraction rest
  let (exponent, rest) ← readExponent rest
  let n : Int := if negative then -(decimalValue digits : Int) else decimalValue digits
  let whole := fraction.isEmpty && exponent.isEmpty && Int64.minValue.toInt ≤ n && n.toNat < UInt64.size && !(negative && n == 0)
  let sign := if negative then ['-'] else []
  pure (if whole then int n else real (String.ofList (sign ++ digits ++ fraction ++ exponent)), rest)

/-- What follows a word at the beginning of a text. -/
def afterWord? (word : String) (cs : List Char) : Option (List Char) :=
  if word.toList.isPrefixOf cs then some (cs.drop word.length) else none

mutual

/-- Reads one value, which may be nested `depth` levels deep and hold `room` items or members on each level. -/
def readValue (room : Nat) : (depth : Nat) → List Char → Option (Json × List Char)
  | 0, _ => none
  | depth + 1, cs =>
    match skipSeparators cs with
    | [] => none
    | '"' :: rest => (readString [] rest).map fun (s, rest) => (str s, rest)
    | '[' :: rest =>
      match skipSeparators rest with
      | ']' :: rest => some (arr [], rest)
      | rest => (readItems room depth room [] rest).map fun (items, rest) => (arr items, rest)
    | '\x7b' :: rest =>
      match skipSeparators rest with
      | '\x7d' :: rest => some (obj [], rest)
      | rest => (readMembers room depth room [] rest).map fun (members, rest) => (obj members, rest)
    | c :: rest =>
      if c == '-' || c.isDigit then readNumber (c :: rest)
      else if c == 't' then (afterWord? "rue" rest).map fun rest => (bool true, rest)
      else if c == 'f' then (afterWord? "alse" rest).map fun rest => (bool false, rest)
      else if c == 'n' then (afterWord? "ull" rest).map fun rest => (null, rest)
      else none
termination_by depth _ => (depth, 0)

/-- Reads at most `limit` more items of an array and its closing bracket. -/
def readItems (room depth : Nat) : (limit : Nat) → List Json → List Char → Option (List Json × List Char)
  | 0, _, _ => none
  | limit + 1, acc, cs =>
    match readValue room depth cs with
    | none => none
    | some (j, rest) =>
      match skipSeparators rest with
      | ',' :: rest => readItems room depth limit (j :: acc) rest
      | ']' :: rest => some ((j :: acc).reverse, rest)
      | _ => none
termination_by limit _ _ => (depth, limit + 1)

/-- Reads at most `limit` more members of an object and its closing bracket. -/
def readMembers (room depth : Nat) :
    (limit : Nat) → List (String × Json) → List Char → Option (List (String × Json) × List Char)
  | 0, _, _ => none
  | limit + 1, acc, cs =>
    match skipSeparators cs with
    | '"' :: rest =>
      match readString [] rest with
      | none => none
      | some (key, rest) =>
        match skipSeparators rest with
        | ':' :: rest =>
          match readValue room depth rest with
          | none => none
          | some (j, rest) =>
            match skipSeparators rest with
            | ',' :: rest => readMembers room depth limit ((key, j) :: acc) rest
            | '\x7d' :: rest => some (((key, j) :: acc).reverse, rest)
            | _ => none
        | _ => none
    | _ => none
termination_by limit _ _ => (depth, limit + 1)

end

/-- Values may be nested this deep. -/
def maxDepth : Nat := 128

/-- The value that a text writes. It has no more items than the text has characters. -/
def ofText? (text : String) : Option Json :=
  match readValue text.length maxDepth text.toList with
  | some (j, rest) => if (skipSeparators rest).isEmpty then some j else none
  | none => none

end LgLang.Json
