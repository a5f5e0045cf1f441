import CacheCoherence.Table
import CacheCoherence.Text.Hidden
/-!
# Keys as log lines and error messages show them

A key is shown between quotation marks inside `Key(…)`. Quotation marks, backslashes and the
common control characters are written with a backslash, and every other hidden character by its
code point in hexadecimal, so that each key is readable and no two look alike.
-/
namespace CacheCoherence.Text

def hexDigits (n : Nat) : List Char := Nat.toDigits 16 n

/-- How one character is shown between quotation marks. -/
def shown (c : Char) : List Char :=
  if c = '"' then ['\\', '"']
  else if c = '\\' then ['\\', '\\']
  else if c = '\n' then ['\\', 'n']
  else if c = '\r' then ['\\', 'r']
  else if c = '\t' then ['\\', 't']
  else if c = '\x00' then ['\\', '0']
  else if 0x20 ≤ c.toNat ∧ c.toNat < 0x7f then [c]
  else if isHidden c then ['\\', 'u', '{'] ++ hexDigits c.toNat ++ ['}']
  else [c]

def quoted (s : String) : String := String.ofList ('"' :: s.toList.flatMap shown ++ ['"'])

/-- A key as messages show it. -/
def shownKey (k : Key) : String := "Key(" ++ quoted k ++ ")"

def shownKeys (ks : List Key) : String := "[" ++ ", ".intercalate (ks.map shownKey) ++ "]"

end CacheCoherence.Text
