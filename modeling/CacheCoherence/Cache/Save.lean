import CacheCoherence.Cache.Lock
import CacheCoherence.DependencyList
/-!
# The write path

A single item is written before it is registered with what it depends on, and removed again if
the registration fails. A collection is registered first and only written once it is registered
everywhere, so that no invalidation in between can miss it.
-/
namespace CacheCoherence
open Operation

def maxCollectionDependencies : Nat := 100

inductive SaveOutcome where
  /-- Nothing was tried: the type is not cached or no lock was held. -/
  | skipped
  /-- The lock was lost to another operation and nothing was written. -/
  | conflict
  /-- The value is cached. -/
  | stored
  /-- The value could not be written, or a collection had too many dependencies. -/
  | notCached
  /-- The value was written, its registration failed and it was removed again. -/
  | rolledBack
  /-- The value was written, its registration failed and so did its removal. -/
  | rollbackFailed
deriving DecidableEq, Repr

namespace SaveOutcome

/-- Whether the value is in the cache. -/
def isStored : SaveOutcome → Bool
  | stored | rollbackFailed => true
  | _ => false

def name : SaveOutcome → String
  | skipped => "Skipped"
  | conflict => "Conflict"
  | stored => "Stored"
  | notCached => "NotCached"
  | rolledBack => "RolledBack"
  | rollbackFailed => "RollbackFailed"

end SaveOutcome

/-- Makes a call unless there is nothing to do, and reports whether it failed, in which case the
event is logged. -/
def failing (skip : Bool) (e : Event) (attempt : Operation (Except Fault Unit)) :
    Operation Bool := do
  if skip then return false
  else match ← attempt with
    | .ok _ => return false
    | .error _ =>
      log e
      return true

variable {α : Type} [Cacheable α]

/-- Invalidates what a create or update makes out of date: the collections of the item, its
modified key, further collections and everything on its dependency list. Reports whether a call
failed. -/
def invalidateCollections (keys : ItemKeys) (extra : List Key) : Operation Bool := do
  let stale := keys.globalCollection.toList ++ keys.modified.toList ++ extra
  let collectionsFailed ← failing stale.isEmpty (.invalidateCollectionsFailed stale)
    (call (.deleteValue stale false true))
  match keys.dependencies with
  | none => return collectionsFailed
  | some list =>
    let dependentsFailed ← failing false (.invalidateDependentsFailed list)
      (call (.clearDependencies list false))
    return collectionsFailed || dependentsFailed

/-- Registers a saved item with the lists that it depends on, and its secondary keys with its own
list. Only a failure of the first kind is reported. -/
def registerItem (policy : Policy) (item : α) (keys : ItemKeys) (ttl : Nat) :
    Operation Bool := do
  let lists := Cacheable.dependencyKeys policy.names item
  let failed ← failing lists.isEmpty (.addDependencyFailed keys.primary)
    (call (.addDependency lists keys.cached ttl))
  match keys.dependencies with
  | none => return failed
  | some list =>
    let _ ← failing keys.secondary.isEmpty (.addSecondaryDependencyFailed list)
      (call (.addDependency [list] keys.secondary ttl))
    return failed

/-- Removes a saved item again. -/
def rollback (keys : ItemKeys) : Operation SaveOutcome := do
  let answer ← call (.deleteValue keys.cached false true)
  note (.store false)
  match answer with
  | .ok _ => return .rolledBack
  | .error _ =>
    log (.rollbackFailed keys.cached)
    return .rollbackFailed

/-- Caches an item under its primary and secondary keys. The token must be held on the primary
key. With `clearCollections` everything that the change makes out of date is invalidated after
the write, as a create or update must. -/
def saveItem (policy : Policy) (item : α) (token : Token) (clearCollections : Bool)
    (extra : List Key) : Operation SaveOutcome := do
  let ttl := Cacheable.ttl α policy.ttls
  if ttl = skipTtl ∨ token = Token.noLock then return .skipped
  else
    let keys := ItemKeys.of policy.names item
    match Cacheable.toJson? item with
    | none =>
      log (.serializeFailed keys.primary)
      return .notCached
    | some document =>
      note .call
      match ← call (.setValue keys.primary keys.cached document.compact token ttl) with
      | .error _ =>
        note (.store false)
        log (.storeFailed keys.primary)
        return .notCached
      | .ok result =>
        if result.stored then
          let clearFailed ←
            if clearCollections then invalidateCollections keys extra else pure false
          let registerFailed ← registerItem policy item keys ttl
          if clearFailed || registerFailed then rollback keys
          else
            note (.store true)
            log (.stored keys.primary)
            return .stored
        else
          note (.store false)
          log (.storeConflict keys.primary token)
          return .conflict

/-- What a collection depends on: the dependency keys of every member, the list of every member,
and, unless the collection is the global one, the list of its owner. -/
def collectionDependencies {β : Type} [Cacheable β] (policy : Policy) (owner : β)
    (items : List α) (isGlobal : Bool) : KeySet :=
  let ofMembers := items.flatMap fun item =>
    Cacheable.dependencyKeys policy.names item
      ++ (Cacheable.dependenciesKey? policy.names item).toList
  let ofOwner :=
    if isGlobal then [] else (Cacheable.dependenciesKey? policy.names owner).toList
  KeySet.ofList (ofMembers ++ ofOwner)

/-- The document of a collection, if every member has one. -/
def collectionJson? (items : List α) : Option Json :=
  (items.mapM Cacheable.toJson?).map Json.array

/-- Caches items as one text at the key of a collection. The token must be held on `lockKey`.
The collection lives as long as its owner's type says. -/
def saveCollection {β : Type} [Cacheable β] (policy : Policy) (owner : β) (items : List α)
    (lockKey collectionKey : Key) (token : Token) (isGlobal : Bool) :
    Operation SaveOutcome := do
  let ttl := Cacheable.ttl β policy.ttls
  if ttl = skipTtl ∨ Cacheable.ttl α policy.ttls = skipTtl ∨ token = Token.noLock then
    return .skipped
  else
    let dependencies := (collectionDependencies policy owner items isGlobal).keys
    if dependencies.length > maxCollectionDependencies then
      log (.collectionTooWide collectionKey dependencies.length)
      return .notCached
    else match collectionJson? items with
      | none =>
        log (.serializeFailed collectionKey)
        return .notCached
      | some document =>
        note .call
        let registered ← if dependencies.isEmpty then pure (.ok ())
          else call (.addDependency dependencies [collectionKey] ttl)
        match registered with
        | .error _ =>
          note (.store false)
          log (.addDependencyFailed collectionKey)
          return .notCached
        | .ok _ =>
          match ← call (.setValue lockKey [collectionKey] document.compact token ttl) with
          | .error _ =>
            note (.store false)
            log (.storeFailed collectionKey)
            return .notCached
          | .ok result =>
            if result.stored then
              note (.store true)
              log (.collectionStored collectionKey items.length)
              return .stored
            else
              note (.store false)
              log (.storeConflict collectionKey token)
              return .conflict

/-- Caches one member of a freshly loaded collection under a read lock of its own; reports
whether it was stored. Members that are cached or being modified are left alone. -/
def saveMember (policy : Policy) (item : α) : Operation Bool := do
  match ← takeItemLock policy .read item with
  | .error _ => return false
  | .ok token =>
    if token = Token.noLock then return false
    else
      let outcome ← saveItem policy item token false []
      releaseItemLock policy .read item token
      return outcome.isStored

/-- Caches every member of a freshly loaded collection on its own and counts those stored. -/
def saveMembers (policy : Policy) : List α → Operation Nat
  | [] => return 0
  | item :: rest => do
    let stored ← saveMember policy item
    let others ← saveMembers policy rest
    return stored.toNat + others

end CacheCoherence
