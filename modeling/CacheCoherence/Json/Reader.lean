import CacheCoherence.Json.Basic
/-!
# Typed reading of documents

A reader takes a document to a value of some type or refuses it. There are no conversions: text
comes from a string, a whole number from an integer literal within its range. A record comes
from an object, whose fields may stand in any order and which may hold unknown ones, or from an
array that lists the fields in order.
-/
namespace CacheCoherence.Json

def toText? : Json → Option String
  | string s => s
  | _ => none

def toBool? : Json → Option Bool
  | bool b => some b
  | _ => none

def toList? {α : Type} (read : Json → Option α) : Json → Option (List α)
  | array items => items.mapM read
  | _ => none

def toTexts? : Json → Option (List String) := toList? toText?

/-- Nothing from null, a value from anything else that `read` takes. -/
def toOptional? {α : Type} (read : Json → Option α) : Json → Option (Option α)
  | null => some none
  | j => (read j).map some

def ofDigits (cs : List Char) : Nat := cs.foldl (fun n c => n * 10 + (c.toNat - '0'.toNat)) 0

/-- The whole number that a literal spells. A point or an exponent makes it no whole number,
and neither is the negative zero. -/
def wholeLiteral? (literal : String) : Option Int :=
  match literal.toList with
  | [] => none
  | '-' :: ds =>
    if ds.isEmpty || !ds.all Char.isDigit || ofDigits ds = 0 then none
    else some (-(ofDigits ds : Int))
  | ds => if ds.all Char.isDigit then some (ofDigits ds : Int) else none

/-- A whole number between two bounds, both included. -/
def toWhole? (low high : Int) : Json → Option Int
  | number literal => (wholeLiteral? literal).filter fun n => low ≤ n && n ≤ high
  | _ => none

def toInt64? : Json → Option Int := toWhole? Int64.minValue.toInt Int64.maxValue.toInt

/-- An unsigned whole number of a type of the given size. -/
def toWord? (size : Nat) (j : Json) : Option Nat := (toWhole? 0 (size - 1) j).map Int.toNat

structure Layout where
  /-- The names of the fields in the order in which an array lists them. -/
  names : List String
  /-- An array may leave out fields at its end. -/
  shortArrays : Bool := false
  /-- An object may hold fields of other names. -/
  unknownFields : Bool := true

/-- The value under a name that stands at most once among the fields: `none` when it is
repeated. -/
def field? (name : String) (fields : List (Option String × Json)) : Option (Option Json) :=
  match fields.filter fun f => f.1 == some name with
  | [] => some none
  | [f] => some (some f.2)
  | _ => none

/-- The fields of a record in the order of the layout's names. A name repeated in an object is
refused, and so is a name that denotes no text. -/
def toRecord? (layout : Layout) : Json → Option (List (Option Json))
  | object fields =>
    if fields.all fun f => match f.1 with
        | none => false
        | some name => layout.unknownFields || layout.names.contains name
    then layout.names.mapM fun name => field? name fields
    else none
  | array items =>
    if items.length = layout.names.length
        ∨ (layout.shortArrays ∧ items.length ≤ layout.names.length) then
      some (items.map some ++ List.replicate (layout.names.length - items.length) none)
    else none
  | _ => none

def required? {α : Type} (read : Json → Option α) (j : Option Json) : Option α := j >>= read

def orDefault? {α : Type} (default : α) (read : Json → Option α) : Option Json → Option α
  | none => some default
  | some j => read j

end CacheCoherence.Json
