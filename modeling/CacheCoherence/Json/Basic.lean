import CacheCoherence.Table
/-!
# JSON documents

A document keeps what the text said: the order and repetition of an object's fields and the
spelling of its numbers. A string literal may spell a surrogate that has no partner. Such a
literal is well formed but denotes no text, so the text of a literal is optional, and every
reader that needs the text refuses the document.
-/
namespace CacheCoherence

inductive Json where
  | null
  | bool (value : Bool)
  /-- A number, by its spelling. -/
  | number (literal : String)
  /-- A string; `none` when its escapes leave a surrogate without a partner. -/
  | string (text : Option String)
  | array (items : List Json)
  | object (fields : List (Option String × Json))

namespace Json

instance : Inhabited Json := ⟨null⟩

def text (s : String) : Json := string (some s)

def nat (n : Nat) : Json := number (toString n)

/-- The number that spells `n` in decimal, with a sign when it is negative. -/
def int (n : Int) : Json := number (toString n)

/-- The text, or null in its absence. -/
def optionalText : Option String → Json
  | none => null
  | some s => text s

def texts (items : List String) : Json := array (items.map text)

def record (fields : List (String × Json)) : Json :=
  object (fields.map fun f => (some f.1, f.2))

/-- The object with these fields, in ascending order of their names. -/
def sortedRecord (fields : List (String × Json)) : Json :=
  record (fields.mergeSort fun a b => decide (a.1 ≤ b.1))

end Json
end CacheCoherence
