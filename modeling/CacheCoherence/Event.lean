import CacheCoherence.Text.Quoted
import CacheCoherence.Token
/-!
# Log events

Every operation reports what it did as events. An event has a level, a name and fields of text;
the name of the cache is added by `Event.labelled`, since it belongs to the store that the
operation ran on.
-/
namespace CacheCoherence

inductive Level where
  | debug
  | warn
  | error
deriving DecidableEq, Repr

def Level.name : Level → String
  | debug => "DEBUG"
  | warn => "WARN"
  | error => "ERROR"

/-- What a store or an operation reports. -/
inductive Event where
  /-- A store found its slot taken over when it was asked to store a value. -/
  | setConflict (key : Key) (token : Token) (refresh : Bool)
  /-- The transaction that was to store a value met another client's write. -/
  | setAborted (key : Key)
  /-- A store could not claim all of these keys. -/
  | claimContended (kind : LockKind) (keys : List Key)
  /-- The slot of a dependency list holds something else. -/
  | dependenciesCorrupt (key : Key)
  | releaseFailed (keys : List Key)
  | lockFailed (key : Key)
  | collectionLockFailed (keys : List Key)
  | lockContended (key : Key) (kind : LockKind)
  | lockTaken (key : Key) (kind : LockKind)
  /-- The dependents of an item could not be invalidated. -/
  | invalidateDependentsFailed (key : Key)
  | miss (key : Key) (locked : Bool)
  | hit (key : Key)
  /-- A cached entry could not be decoded or must not be served. -/
  | entryRejected (key : Key)
  | purgeFailed (key : Key)
  | getFailed (key : Key)
  | batchGetFailed (keys : List Key)
  /-- A batch was answered for too few keys. -/
  | getTruncated (key : Key)
  /-- Another writer marked the item as changed. -/
  | modified (key modifiedKey : Key)
  | serializeFailed (key : Key)
  | storeFailed (key : Key)
  | storeConflict (key : Key) (token : Token)
  | invalidateCollectionsFailed (keys : List Key)
  | addDependencyFailed (key : Key)
  | addSecondaryDependencyFailed (key : Key)
  | rollbackFailed (keys : List Key)
  | stored (key : Key)
  | collectionStored (key : Key) (items : Nat)
  | collectionTooWide (key : Key) (dependencies : Nat)
  | deleteFailed (key : Key)
  | deleted (key : Key)
  | flush (root : String)
deriving DecidableEq, Repr

namespace Event

def level : Event → Level
  | dependenciesCorrupt _ | releaseFailed _ | lockFailed _ | collectionLockFailed _
  | invalidateDependentsFailed _ | purgeFailed _ | getFailed _ | batchGetFailed _
  | getTruncated _ | storeFailed _ | invalidateCollectionsFailed _ | addDependencyFailed _
  | deleteFailed _ => .warn
  | entryRejected _ | serializeFailed _ | rollbackFailed _ => .error
  | _ => .debug

def name : Event → String
  | setConflict .. => "cache.set_conflict"
  | setAborted _ => "cache.set_aborted"
  | claimContended .. | lockContended .. => "cache.lock_contended"
  | dependenciesCorrupt _ => "cache.dependencies_corrupt"
  | releaseFailed _ => "cache.release_failed"
  | lockFailed _ | collectionLockFailed _ => "cache.lock_failed"
  | lockTaken .. => "cache.lock_taken"
  | invalidateDependentsFailed _ => "cache.invalidate_dependents_failed"
  | miss .. => "cache.miss"
  | hit _ => "cache.hit"
  | entryRejected _ => "cache.entry_rejected"
  | purgeFailed _ => "cache.purge_failed"
  | getFailed _ | batchGetFailed _ => "cache.get_failed"
  | getTruncated _ => "cache.get_truncated"
  | modified .. => "cache.modified"
  | serializeFailed _ => "cache.serialize_failed"
  | storeFailed _ => "cache.store_failed"
  | storeConflict .. => "cache.store_conflict"
  | invalidateCollectionsFailed _ => "cache.invalidate_collections_failed"
  | addDependencyFailed _ => "cache.add_dependency_failed"
  | addSecondaryDependencyFailed _ => "cache.add_secondary_dependency_failed"
  | rollbackFailed _ => "cache.rollback_failed"
  | stored _ | collectionStored .. => "cache.stored"
  | collectionTooWide .. => "cache.collection_too_wide"
  | deleteFailed _ => "cache.delete_failed"
  | deleted _ => "cache.deleted"
  | flush _ => "cache.flush"

def truthText (b : Bool) : String := if b then "true" else "false"

/-- The fields of an event but for the name of the cache. -/
def fields : Event → List (String × String)
  | setConflict key token refresh =>
    [("cache.key", key), ("cache.sentinel", token), ("cache.refresh", truthText refresh)]
  | claimContended kind keys => [("cache.kind", kind.name), ("cache.keys", Text.shownKeys keys)]
  | lockContended key kind | lockTaken key kind =>
    [("cache.key", key), ("cache.kind", kind.name)]
  | miss key locked => [("cache.key", key), ("cache.locked", truthText locked)]
  | modified key modifiedKey => [("cache.key", key), ("cache.modified_key", modifiedKey)]
  | storeConflict key token => [("cache.key", key), ("cache.sentinel", token)]
  | collectionStored key items => [("cache.key", key), ("cache.items", toString items)]
  | collectionTooWide key n => [("cache.key", key), ("cache.dependencies", toString n)]
  | releaseFailed keys | collectionLockFailed keys | batchGetFailed keys
  | invalidateCollectionsFailed keys | rollbackFailed keys =>
    [("cache.keys", Text.shownKeys keys)]
  | flush root => [("cache.prefix", root)]
  | setAborted key | dependenciesCorrupt key | lockFailed key | invalidateDependentsFailed key
  | hit key | entryRejected key | purgeFailed key | getFailed key | getTruncated key
  | serializeFailed key | storeFailed key | addDependencyFailed key
  | addSecondaryDependencyFailed key | stored key | deleteFailed key | deleted key =>
    [("cache.key", key)]

/-- The fields of an event on the cache of this name. -/
def labelled (cacheName : String) (e : Event) : List (String × String) :=
  ("cache.name", cacheName) :: e.fields

end Event
end CacheCoherence
