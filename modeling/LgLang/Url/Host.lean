import LgLang.Url

/-!
# Hosts

A host is an IPv6 address in brackets, an IPv4 address in any of its spellings, or a name. Hosts of special schemes are
normalized: names to lower-case ASCII, IPv4 addresses to four decimal numbers, IPv6 addresses to their shortest form.
-/

namespace LgLang.Url

/-! ## IPv4 -/

/-- The digits of a number in base `base`. -/
def digitsValue? (base : Nat) (cs : List Char) : Option Nat :=
  cs.foldlM (fun n c => (hexValue? c).bind fun d => if d < base then some (n * base + d) else none) 0

/-- A part of an IPv4 address: decimal, octal behind a zero, hexadecimal behind `0x`. -/
def ipv4Number? : List Char → Option Nat
  | [] => none
  | '0' :: 'x' :: cs | '0' :: 'X' :: cs => digitsValue? 16 cs
  | '0' :: c :: cs => digitsValue? 8 (c :: cs)
  | cs => digitsValue? 10 cs

/-- Whether the last part of a name makes it an IPv4 address. -/
def endsInNumber (name : List Char) : Bool :=
  match (splitAt (· == '.') name).reverse with
  | [] => false
  | [] :: last :: _ => isNumber last
  | last :: _ => isNumber last
where
  isNumber (part : List Char) : Bool :=
    (!part.isEmpty && part.all Char.isDigit) || (ipv4Number? part).isSome

/-- The parts of an IPv4 address, without the empty one behind a final dot. -/
def ipv4Parts (name : List Char) : List (List Char) :=
  let parts := splitAt (· == '.') name
  match parts.reverse with
  | [] :: (p :: ps) => (p :: ps).reverse
  | _ => parts

/-- The address that a name ending in a number writes; its last part fills all bytes that the others leave. -/
def ipv4Address? (name : List Char) : Option Nat := do
  let numbers ← (ipv4Parts name).mapM ipv4Number?
  match numbers.reverse with
  | [] => none
  | last :: firsts =>
    if firsts.length > 3 || firsts.any (· > 255) || last ≥ Nat.pow 256 (4 - firsts.length) then none
    else
      let high := (firsts.reverse ++ List.replicate (4 - firsts.length) 0).take 4
      some (high.foldl (fun n b => n * 256 + b) 0 + last)

/-- An IPv4 address as four decimal numbers. -/
def ipv4Text (n : Nat) : String :=
  s!"{n / 16777216 % 256}.{n / 65536 % 256}.{n / 256 % 256}.{n % 256}"

/-! ## IPv6 -/

/-- A piece of an IPv6 address: one to four hexadecimal digits. -/
def ipv6Piece? (cs : List Char) : Option Nat :=
  if cs.isEmpty || cs.length > 4 then none else digitsValue? 16 cs

/-- A decimal number of a dotted address in an IPv6 address: no leading zero, at most 255. -/
def dottedNumber? (cs : List Char) : Option Nat :=
  if cs.isEmpty || cs.length > 3 || (cs.length > 1 && cs.head? == some '0') then none
  else (digitsValue? 10 cs).filter (· ≤ 255)

/-- The pieces of a run between colons; a dotted address may stand last and counts as two. -/
def ipv6Run? (mayEndDotted : Bool) (cs : List Char) : Option (List Nat) :=
  if cs.isEmpty then some []
  else
    match (splitAt (· == ':') cs).reverse with
    | [] => none
    | last :: before => do
      let front ← before.reverse.mapM ipv6Piece?
      if mayEndDotted && last.contains '.' then
        match ← (splitAt (· == '.') last).mapM dottedNumber? with
        | [a, b, c, d] => some (front ++ [a * 256 + b, c * 256 + d])
        | _ => none
      else
        some (front ++ [← ipv6Piece? last])

/-- Splits an IPv6 address at its first pair of colons. -/
def splitGap : List Char → List Char × Option (List Char)
  | [] => ([], none)
  | ':' :: ':' :: rest => ([], some rest)
  | c :: cs =>
    let (before, rest) := splitGap cs
    (c :: before, rest)

/-- The eight pieces of an IPv6 address; a pair of colons stands for the zeros that are missing. -/
def ipv6Pieces? (cs : List Char) : Option (List Nat) :=
  match splitGap cs with
  | (whole, none) => (ipv6Run? true whole).filter (·.length == 8)
  | (before, some after) => do
    let front ← ipv6Run? false before
    let back ← ipv6Run? true after
    if front.length + back.length < 8 then
      some (front ++ List.replicate (8 - front.length - back.length) 0 ++ back)
    else none

/-- A number in lower-case hexadecimal digits. -/
def hexText (n : Nat) : String :=
  String.ofList (Nat.toDigits 16 n)

/-- The start and the length of the first longest run of zeros of at least two. -/
def longestZeros (pieces : List Nat) : Option (Nat × Nat) :=
  let runs := (List.range pieces.length).map fun i => (i, ((pieces.drop i).takeWhile (· == 0)).length)
  runs.foldl (fun best run =>
    if run.2 < 2 then best
    else match best with
      | none => some run
      | some b => if b.2 < run.2 then some run else best) none

/-- An IPv6 address in brackets, with the first longest run of zeros left out. -/
def ipv6Text (pieces : List Nat) : String :=
  let write := fun ps : List Nat => ":".intercalate (ps.map hexText)
  match longestZeros pieces with
  | none => "[" ++ write pieces ++ "]"
  | some (start, size) => "[" ++ write (pieces.take start) ++ "::" ++ write (pieces.drop (start + size)) ++ "]"

/-- The address in a bracketed host. -/
def ipv6Host (cs : List Char) : Except Error String :=
  match cs.reverse with
  | ']' :: inner =>
    match ipv6Pieces? inner.reverse with
    | some pieces => .ok (ipv6Text pieces)
    | none => .error .invalidIpv6
  | _ => .error .invalidIpv6

/-! ## Names -/

/-- What may not stand in the hosts of any scheme. -/
def forbiddenInHost : List Char :=
  ['\x00', '\t', '\n', '\r', ' ', '#', '/', ':', '<', '>', '?', '@', '[', '\\', ']', '^', '|']

/-- A host of a scheme that is not special; only its unsafe characters are encoded. -/
def readPlainHost (cs : List Char) : Except Error String :=
  match cs with
  | '[' :: inner => ipv6Host inner
  | _ =>
    if cs.any forbiddenInHost.contains then .error .invalidHostCharacter
    else .ok (String.ofList (encode [] cs))

/-- A host of a special scheme. Names outside ASCII are not accepted. -/
def readSpecialHost (cs : List Char) : Except Error String :=
  match cs with
  | '[' :: inner => ipv6Host inner
  | _ =>
    match textOfBytes? (decode cs) with
    | none => .error .invalidDomain
    | some name =>
      let name := name.toList.map Char.toLower
      if name.any fun c => isUnsafe c || c == '%' || forbiddenInHost.contains c then .error .invalidDomain
      else if name.isEmpty then .error .emptyHost
      else if endsInNumber name then
        match ipv4Address? name with
        | some n => .ok (ipv4Text n)
        | none => .error .invalidIpv4
      else .ok (String.ofList name)

end LgLang.Url
