import CacheCoherence.Duration
import CacheCoherence.Json.Basic
import CacheCoherence.KeyNames
import CacheCoherence.Token
/-!
# Cacheable items

An item is cached as JSON under its primary key and its secondary keys. The other roles of keys
are optional: the collections that list the item, the list of what depends on it, the lists of
other items that it depends on, and the key that marks it as changed by another writer.
-/
namespace CacheCoherence

/-- How long items of each type stay cached, with a default for types without an entry. A
lifetime of zero turns every read and save of a type into nothing. -/
structure Ttls where
  default : Nat
  overrides : Table Nat := .empty

namespace Ttls

def withTtl (t : Ttls) (id : String) (ttl : Nat) : Ttls :=
  { t with overrides := t.overrides.insert id ttl }

def of (t : Ttls) (id : String) : Nat := (t.overrides.get? id).getD t.default

end Ttls

/-- The lifetime that disables the caching of a type. -/
def skipTtl : Nat := 0

/-- The policies of one namespace of a cache: how keys are named and how long items last. -/
structure Policy where
  names : KeyNames
  ttls : Ttls

class Cacheable (α : Type) where
  /-- Identifies the type in tables of lifetimes. -/
  typeId : String
  /-- The key under which an item is cached and locked. -/
  primaryKey : KeyNames → α → Key
  /-- Further keys under which an item is cached. -/
  secondaryKeys : KeyNames → α → List Key := fun _ _ => []
  /-- The cached list of all items of the type. -/
  globalCollection? : KeyNames → α → Option Key := fun _ _ => none
  /-- The cached list that this item belongs to. -/
  ownCollection? : KeyNames → α → Option Key := fun _ _ => none
  /-- The list of keys to invalidate when this item changes. -/
  dependenciesKey? : KeyNames → α → Option Key := fun _ _ => none
  /-- The lists of other items that this one must be invalidated with. -/
  dependencyKeys : KeyNames → α → List Key := fun _ _ => []
  /-- The key whose presence marks cached copies of this item as out of date. -/
  modifiedKey? : KeyNames → α → Option Key := fun _ _ => none
  /-- How long items of the type stay cached. -/
  ttl : Ttls → Nat := fun ttls => ttls.of typeId
  /-- Whether a cached copy may be handed out. -/
  isValid : α → Bool := fun _ => true
  /-- The document of an item, if it has one. -/
  toJson? : α → Option Json
  /-- The item that a document describes. -/
  ofJson? : Json → Option α

/-- The keys of one item, resolved once per operation. -/
structure ItemKeys where
  primary : Key
  secondary : List Key
  globalCollection : Option Key
  ownCollection : Option Key
  dependencies : Option Key
  modified : Option Key
deriving DecidableEq, Repr

namespace ItemKeys

def of {α : Type} [Cacheable α] (names : KeyNames) (item : α) : ItemKeys where
  primary := Cacheable.primaryKey names item
  secondary := Cacheable.secondaryKeys names item
  globalCollection := Cacheable.globalCollection? names item
  ownCollection := Cacheable.ownCollection? names item
  dependencies := Cacheable.dependenciesKey? names item
  modified := Cacheable.modifiedKey? names item

/-- The keys under which the item is cached, the primary key first. -/
def cached (keys : ItemKeys) : List Key := keys.primary :: keys.secondary

/-- The keys that a lock claims, the primary key first. A read lock claims the primary key only,
and only a delete lock claims the collection that the item belongs to. -/
def lockKeys (keys : ItemKeys) : LockKind → List Key
  | .read => [keys.primary]
  | .delete =>
    keys.primary :: keys.globalCollection.toList ++ keys.secondary ++ keys.ownCollection.toList
  | .create | .update => keys.primary :: keys.globalCollection.toList ++ keys.secondary

end ItemKeys
end CacheCoherence
