import CacheCoherence.Json.Basic
/-!
# Compact JSON text

The written form has no blanks. In a string the quotation mark, the backslash and the
characters below the space are escaped, by a letter where JSON has one and by four lower-case
hexadecimal digits otherwise; every other character stands for itself.
-/
namespace CacheCoherence.Json

def hexDigit (n : Nat) : Char :=
  if n < 10 then Char.ofNat ('0'.toNat + n) else Char.ofNat ('a'.toNat + (n - 10))

/-- How one character stands in a string. -/
def escape (c : Char) : List Char :=
  if c = '"' then ['\\', '"']
  else if c = '\\' then ['\\', '\\']
  else if c = '\x08' then ['\\', 'b']
  else if c = '\x0c' then ['\\', 'f']
  else if c = '\n' then ['\\', 'n']
  else if c = '\r' then ['\\', 'r']
  else if c = '\t' then ['\\', 't']
  else if c.toNat < 0x20 then
    ['\\', 'u', '0', '0', hexDigit (c.toNat / 16), hexDigit (c.toNat % 16)]
  else [c]

def quote (s : String) : List Char := '"' :: s.toList.flatMap escape ++ ['"']

/-- A string literal. One that denotes no text is written as a surrogate on its own. -/
def quoteLiteral : Option String → List Char
  | some s => quote s
  | none => ['"', '\\', 'u', 'd', '8', '0', '0', '"']

mutual
def chars : Json → List Char
  | null => ['n', 'u', 'l', 'l']
  | bool true => ['t', 'r', 'u', 'e']
  | bool false => ['f', 'a', 'l', 's', 'e']
  | number literal => literal.toList
  | string s => quoteLiteral s
  | array [] => ['[', ']']
  | array (item :: rest) => '[' :: chars item ++ itemsTail rest
  | object [] => ['{', '}']
  | object ((name, value) :: rest) =>
    '{' :: quoteLiteral name ++ ':' :: chars value ++ fieldsTail rest

/-- The items after the first, each behind a comma, and the closing bracket. -/
def itemsTail : List Json → List Char
  | [] => [']']
  | item :: rest => ',' :: chars item ++ itemsTail rest

/-- The fields after the first, each behind a comma, and the closing brace. -/
def fieldsTail : List (Option String × Json) → List Char
  | [] => ['}']
  | (name, value) :: rest => ',' :: quoteLiteral name ++ ':' :: chars value ++ fieldsTail rest
end

def compact (j : Json) : String := String.ofList j.chars

end CacheCoherence.Json
