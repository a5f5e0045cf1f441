import CacheCoherence.Cache.Operation
import CacheCoherence.Item
import CacheCoherence.Json.Parser
import CacheCoherence.Json.Reader
/-!
# The read path

Reads never fail. A fault of the store, an entry that cannot be decoded and an entry that must
not be served are logged and reported as misses; the last two are also removed, so that the next
reader loads them anew.
-/
namespace CacheCoherence
open Operation

structure Found (α : Type) where
  /-- The cached item, on a hit. -/
  item : Option α
  /-- The read lock taken on a miss, or no lock. -/
  token : Token
deriving DecidableEq, Repr

namespace Found
variable {α : Type}

def hit (item : α) : Found α := ⟨some item, Token.noLock⟩

def miss (token : Token) : Found α := ⟨none, token⟩

def isHit (f : Found α) : Bool := f.item.isSome

end Found

/-- What a cached text may be served as. -/
abbrev Entry (α : Type) := Json → Option α

def servableItem {α : Type} [Cacheable α] : Entry α := fun j =>
  (Cacheable.ofJson? j).filter Cacheable.isValid

/-- A cached collection that may be served: it is rejected as a whole for any one member. -/
def servableItems {α : Type} [Cacheable α] : Entry (List α) := fun j =>
  (Json.toList? Cacheable.ofJson? j).filter fun items => items.all Cacheable.isValid

/-- Removes an entry that must not be served. -/
def purge (key : Key) : Operation Unit := do
  match ← call (.deleteValue [key] false true) with
  | .ok _ => return ()
  | .error _ => log (.purgeFailed key)

/-- Turns what a store found under a key into the result of a read. -/
def resolve {α : Type} (entry : Entry α) (key : Key) (lookup : Lookup) : Operation (Found α) := do
  match lookup.value with
  | none =>
    note (.lookup false)
    log (.miss key (lookup.token ≠ Token.noLock))
    return .miss lookup.token
  | some raw =>
    match Json.parse? raw >>= entry with
    | some item =>
      note (.lookup true)
      log (.hit key)
      return .hit item
    | none =>
      note (.lookup false)
      log (.entryRejected key)
      purge key
      return .miss Token.noLock

def fetch {α : Type} (entry : Entry α) (key : Key) (lock : Bool) : Operation (Found α) := do
  note .call
  let answer ← call (.getValue key lock)
  note .read
  match answer with
  | .ok lookup => resolve entry key lookup
  | .error _ =>
    note (.lookup false)
    log (.getFailed key)
    return .miss Token.noLock

variable {α : Type} [Cacheable α]

/-- Whether the policy disables the caching of a type. -/
def skips (policy : Policy) (α : Type) [Cacheable α] : Bool :=
  Cacheable.ttl α policy.ttls = skipTtl

/-- Reads the item cached at a key. On a miss the result carries a read lock if one was wanted
and could be taken; its holder loads the item, saves it under the lock and releases it. -/
def getItem (policy : Policy) (key : Key) (lock : Bool) : Operation (Found α) := do
  if skips policy α then return .miss Token.noLock
  else fetch servableItem key lock

/-- Reads the item cached at a key unless anything is stored at its modified key, which means
that another writer changed the item. -/
def getItemUnlessModified (policy : Policy) (key modifiedKey : Key) (lock : Bool) :
    Operation (Found α) := do
  if skips policy α then return .miss Token.noLock
  else
    note .call
    let answer ← call (.getValues [key, modifiedKey] [lock, false])
    note .read
    match answer with
    | .error _ =>
      note (.lookup false)
      log (.getFailed key)
      return .miss Token.noLock
    | .ok (lookup :: modified :: _) =>
      if modified.value.isSome || modified.conflict.isSome then
        call (.releaseToken [key] lookup.token)
        note (.lookup false)
        log (.modified key modifiedKey)
        return .miss Token.noLock
      else resolve servableItem key lookup
    | .ok _ =>
      note (.lookup false)
      log (.getTruncated key)
      return .miss Token.noLock

def resolveAll (keys : List (Key × Lookup)) : Operation (List (Found α)) :=
  match keys with
  | [] => return []
  | (key, lookup) :: rest => do
    let found ← resolve servableItem key lookup
    let others ← resolveAll rest
    return found :: others

def noteMisses : List Key → Operation Unit
  | [] => return ()
  | _ :: rest => do
    note (.lookup false)
    noteMisses rest

def getItems (policy : Policy) (keys : List Key) (lock : Bool) :
    Operation (List (Found α)) := do
  let misses := keys.map fun _ => Found.miss Token.noLock
  if keys.isEmpty || skips policy α then return misses
  else
    note .call
    let answer ← call (.getValues keys (keys.map fun _ => lock))
    note .read
    match answer with
    | .ok lookups => resolveAll (keys.zip lookups)
    | .error _ =>
      noteMisses keys
      log (.batchGetFailed keys)
      return misses

/-- Reads a collection cached as one text. -/
def getCollection (policy : Policy) (key : Key) (lock : Bool) :
    Operation (Found (List α)) := do
  if skips policy α then return .miss Token.noLock
  else fetch servableItems key lock

end CacheCoherence
