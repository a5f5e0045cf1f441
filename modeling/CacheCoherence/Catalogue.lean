import CacheCoherence.Item
import CacheCoherence.Json.Reader
/-!
# A catalogue of item types

Six types that between them use every role of keys: widgets that have owners, the owners, visits
that are never cached, plain numbered items, nodes that bring all their keys along, and brittle
items that may have no document.
-/
namespace CacheCoherence
namespace Catalogue

/-- The key of an identifier with one component. -/
def named (names : KeyNames) (id x : String) : Key := names.key id [x]

/-- Widgets can be found by name, are listed with their owner and depend on it. -/
structure Widget where
  id : String
  name : String
  owner : Option String
  valid : Bool
deriving DecidableEq, Repr

def Widget.ofJson? (j : Json) : Option Widget := do
  match ← j.toRecord? { names := ["id", "name", "owner", "valid"] } with
  | [id, name, owner, valid] =>
    return {
      id := ← Json.required? Json.toText? id
      name := ← Json.required? Json.toText? name
      owner := ← Json.orDefault? none (Json.toOptional? Json.toText?) owner
      valid := ← Json.required? Json.toBool? valid }
  | _ => none

instance : Cacheable Widget where
  typeId := "WIDGET"
  primaryKey names w := named names "WIDGET" w.id
  secondaryKeys names w := [named names "WIDGET_BY_NAME" w.name]
  globalCollection? names _ := some (names.key "ALL_WIDGETS" [])
  ownCollection? names w := w.owner.map (named names "OWNER_WIDGETS")
  dependenciesKey? names w := some (named names "WIDGET_DEPS" w.id)
  dependencyKeys names w := (w.owner.map (named names "OWNER_DEPS")).toList
  modifiedKey? names w := some (named names "WIDGET_MODIFIED" w.id)
  isValid w := w.valid
  toJson? w := some <| .record [("id", .text w.id), ("name", .text w.name),
    ("owner", .optionalText w.owner), ("valid", .bool w.valid)]
  ofJson? := Widget.ofJson?

structure Owner where
  id : String
deriving DecidableEq, Repr

def idOnly? (j : Json) : Option String := do
  match ← j.toRecord? { names := ["id"] } with
  | [id] => Json.required? Json.toText? id
  | _ => none

instance : Cacheable Owner where
  typeId := "OWNER"
  primaryKey names o := named names "OWNER" o.id
  ownCollection? names o := some (named names "OWNER_WIDGETS" o.id)
  dependenciesKey? names o := some (named names "OWNER_DEPS" o.id)
  toJson? o := some <| .record [("id", .text o.id)]
  ofJson? j := (idOnly? j).map Owner.mk

/-- Visits are never cached, whatever the table of lifetimes says. -/
structure Visit where
  id : String
deriving DecidableEq, Repr

instance : Cacheable Visit where
  typeId := "SESSION"
  primaryKey names v := named names "SESSION" v.id
  ttl _ := skipTtl
  toJson? v := some <| .record [("id", .text v.id)]
  ofJson? j := (idOnly? j).map Visit.mk

/-- Items with a number and no further keys. -/
structure Plain where
  id : String
  n : Int
deriving DecidableEq, Repr

def Plain.ofJson? (j : Json) : Option Plain := do
  match ← j.toRecord? { names := ["id", "n"] } with
  | [id, n] =>
    return {
      id := ← Json.required? Json.toText? id
      n := ← Json.required? Json.toInt64? n }
  | _ => none

instance : Cacheable Plain where
  typeId := "PLAIN"
  primaryKey names p := named names "PLAIN" p.id
  toJson? p := some <| .record [("id", .text p.id), ("n", .int p.n)]
  ofJson? := Plain.ofJson?

/-- Nodes bring the key of every role along. -/
structure Node where
  key : Key
  secondary : List Key
  global : Option Key
  collection : Option Key
  deps : Option Key
  dependsOn : List Key
  modified : Option Key
  invalid : Bool
deriving DecidableEq, Repr

def Node.ofJson? (j : Json) : Option Node := do
  let key? := Json.orDefault? none (Json.toOptional? Json.toText?)
  let keys? := Json.orDefault? [] Json.toTexts?
  let layout : Json.Layout :=
    { names := ["key", "secondary", "global", "collection", "deps", "depends_on", "modified",
        "invalid"]
      shortArrays := true }
  match ← j.toRecord? layout with
  | [key, secondary, global, collection, deps, dependsOn, modified, invalid] =>
    return {
      key := ← Json.orDefault? "" Json.toText? key
      secondary := ← keys? secondary
      global := ← key? global
      collection := ← key? collection
      deps := ← key? deps
      dependsOn := ← keys? dependsOn
      modified := ← key? modified
      invalid := ← Json.orDefault? false Json.toBool? invalid }
  | _ => none

instance : Cacheable Node where
  typeId := "NODE"
  primaryKey _ n := n.key
  secondaryKeys _ n := n.secondary
  globalCollection? _ n := n.global
  ownCollection? _ n := n.collection
  dependenciesKey? _ n := n.deps
  dependencyKeys _ n := n.dependsOn
  modifiedKey? _ n := n.modified
  isValid n := !n.invalid
  toJson? n := some <| .record [("key", .text n.key), ("secondary", .texts n.secondary),
    ("global", .optionalText n.global), ("collection", .optionalText n.collection),
    ("deps", .optionalText n.deps), ("depends_on", .texts n.dependsOn),
    ("modified", .optionalText n.modified), ("invalid", .bool n.invalid)]
  ofJson? := Node.ofJson?

/-- Items that have no document when they are broken. -/
structure Brittle where
  id : String
  broken : Bool
deriving DecidableEq, Repr

def Brittle.ofJson? (j : Json) : Option Brittle := do
  match ← j.toRecord? { names := ["id", "broken"] } with
  | [id, broken] =>
    return {
      id := ← Json.required? Json.toText? id
      broken := ← Json.required? Json.toBool? broken }
  | _ => none

instance : Cacheable Brittle where
  typeId := "BRITTLE"
  primaryKey names b := named names "BRITTLE" b.id
  toJson? b := if b.broken then none
    else some <| .record [("id", .text b.id), ("broken", .bool b.broken)]
  ofJson? := Brittle.ofJson?

end Catalogue
end CacheCoherence
