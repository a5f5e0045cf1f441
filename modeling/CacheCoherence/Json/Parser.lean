import CacheCoherence.Json.Basic
/-!
# Reading JSON text

The strict grammar: blanks are space, tab, line feed and carriage return; a number has no
superfluous zero in front and a digit on both sides of its point; a string holds no raw
character below the space; nothing but blanks follows the document. Nesting has no limit, so
the recursion is bounded by the length of the text.
-/
namespace CacheCoherence.Json

def isBlank (c : Char) : Bool := c = ' ' || c = '\t' || c = '\n' || c = '\r'

def skipBlanks (cs : List Char) : List Char := cs.dropWhile isBlank

/-- The value of a hexadecimal digit of either case. -/
def hexValue? (c : Char) : Option Nat :=
  if '0' ≤ c ∧ c ≤ '9' then some (c.toNat - '0'.toNat)
  else if 'a' ≤ c ∧ c ≤ 'f' then some (c.toNat - 'a'.toNat + 10)
  else if 'A' ≤ c ∧ c ≤ 'F' then some (c.toNat - 'A'.toNat + 10)
  else none

def hexValue4? (a b c d : Char) : Option Nat := do
  return (((← hexValue? a) * 16 + (← hexValue? b)) * 16 + (← hexValue? c)) * 16 + (← hexValue? d)

/-- The code point that a one-letter escape stands for. -/
def escaped? (c : Char) : Option Nat :=
  if c = '"' ∨ c = '\\' ∨ c = '/' then some c.toNat
  else if c = 'b' then some 0x08
  else if c = 'f' then some 0x0c
  else if c = 'n' then some 0x0a
  else if c = 'r' then some 0x0d
  else if c = 't' then some 0x09
  else none

/-- The code points and escaped units of a string up to its closing quotation mark, and what
follows the mark. Surrogates stand as they were escaped. -/
def stringUnits : List Char → Option (List Nat × List Char)
  | [] => none
  | '"' :: rest => some ([], rest)
  | '\\' :: 'u' :: a :: b :: c :: d :: rest => do
    let unit ← hexValue4? a b c d
    let (units, after) ← stringUnits rest
    return (unit :: units, after)
  | '\\' :: c :: rest => do
    let unit ← escaped? c
    let (units, after) ← stringUnits rest
    return (unit :: units, after)
  | c :: rest =>
    if c = '\\' ∨ c.toNat < 0x20 then none
    else do
      let (units, after) ← stringUnits rest
      return (c.toNat :: units, after)

/-- The text of a list of units: a high and a low surrogate in a row are one character, any
other surrogate leaves the list without a text. -/
def textOfUnits : List Nat → Option (List Char)
  | [] => some []
  | [u] => if h : u.isValidChar then some [Char.ofNatAux u h] else none
  | u :: v :: rest =>
    if h : u.isValidChar then
      (textOfUnits (v :: rest)).map (Char.ofNatAux u h :: ·)
    else if 0xd800 ≤ u ∧ u < 0xdc00 ∧ 0xdc00 ≤ v ∧ v < 0xe000 then
      (textOfUnits rest).map
        (Char.ofNat (0x10000 + (u - 0xd800) * 0x400 + (v - 0xdc00)) :: ·)
    else none

/-- A string literal, from behind its opening quotation mark. -/
def stringLiteral? (cs : List Char) : Option (Option String × List Char) := do
  let (units, after) ← stringUnits cs
  return ((textOfUnits units).map String.ofList, after)

/-- The digits of a whole number without a superfluous zero in front. -/
def wholeDigits? (cs : List Char) : Option (List Char × List Char) :=
  match cs with
  | '0' :: rest => some (['0'], rest)
  | c :: _ => if c.isDigit then some (cs.span Char.isDigit) else none
  | [] => none

def someDigits? (cs : List Char) : Option (List Char × List Char) :=
  match cs.span Char.isDigit with
  | ([], _) => none
  | parts => some parts

/-- The digits behind a point, with the point, if there is a point. -/
def fraction? (cs : List Char) : Option (List Char × List Char) :=
  match cs with
  | '.' :: rest => (someDigits? rest).map fun (ds, after) => ('.' :: ds, after)
  | _ => some ([], cs)

/-- The exponent with its mark and sign, if there is a mark. -/
def exponent? (cs : List Char) : Option (List Char × List Char) :=
  match cs with
  | [] => some ([], [])
  | e :: rest =>
    if e = 'e' ∨ e = 'E' then
      match rest with
      | sign :: rest' =>
        if sign = '+' ∨ sign = '-' then
          (someDigits? rest').map fun (ds, after) => (e :: sign :: ds, after)
        else (someDigits? rest).map fun (ds, after) => (e :: ds, after)
      | [] => none
    else some ([], cs)

/-- The spelling of a number and what follows it. -/
def numberLiteral? (cs : List Char) : Option (String × List Char) := do
  let (sign, unsigned) := match cs with
    | '-' :: rest => (['-'], rest)
    | _ => ([], cs)
  let (whole, rest) ← wholeDigits? unsigned
  let (fraction, rest) ← fraction? rest
  let (exponent, rest) ← exponent? rest
  return (String.ofList (sign ++ whole ++ fraction ++ exponent), rest)

mutual
/-- One document and what follows it. The first argument bounds the recursion. -/
def document? : Nat → List Char → Option (Json × List Char)
  | 0, _ => none
  | fuel + 1, cs =>
    match skipBlanks cs with
    | '"' :: rest => (stringLiteral? rest).map fun (s, after) => (string s, after)
    | '[' :: rest =>
      match skipBlanks rest with
      | ']' :: after => some (array [], after)
      | rest => (items? fuel rest).map fun (items, after) => (array items, after)
    | '{' :: rest =>
      match skipBlanks rest with
      | '}' :: after => some (object [], after)
      | rest => (fields? fuel rest).map fun (fields, after) => (object fields, after)
    | 'n' :: 'u' :: 'l' :: 'l' :: after => some (null, after)
    | 't' :: 'r' :: 'u' :: 'e' :: after => some (bool true, after)
    | 'f' :: 'a' :: 'l' :: 's' :: 'e' :: after => some (bool false, after)
    | rest => (numberLiteral? rest).map fun (literal, after) => (number literal, after)

/-- The items of an array up to its closing bracket; there is at least one. -/
def items? : Nat → List Char → Option (List Json × List Char)
  | 0, _ => none
  | fuel + 1, cs => do
    let (item, rest) ← document? fuel cs
    match skipBlanks rest with
    | ',' :: rest =>
      let (items, after) ← items? fuel rest
      return (item :: items, after)
    | ']' :: after => return ([item], after)
    | _ => none

/-- The fields of an object up to its closing brace; there is at least one. -/
def fields? : Nat → List Char → Option (List (Option String × Json) × List Char)
  | 0, _ => none
  | fuel + 1, cs =>
    match skipBlanks cs with
    | '"' :: rest => do
      let (name, rest) ← stringLiteral? rest
      match skipBlanks rest with
      | ':' :: rest =>
        let (value, rest) ← document? fuel rest
        match skipBlanks rest with
        | ',' :: rest =>
          let (fields, after) ← fields? fuel rest
          return ((name, value) :: fields, after)
        | '}' :: after => return ([(name, value)], after)
        | _ => none
      | _ => none
    | _ => none
end

/-- The document that a text spells. Each level of the recursion takes a character off the text
or hands it on once, which the bound of twice the length allows for. -/
def parse? (s : String) : Option Json := do
  let cs := s.toList
  let (j, rest) ← document? (2 * cs.length + 2) cs
  if (skipBlanks rest).isEmpty then some j else none

end CacheCoherence.Json
