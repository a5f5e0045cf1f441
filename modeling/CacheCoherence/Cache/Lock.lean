import CacheCoherence.Cache.Operation
import CacheCoherence.Item
/-!
# Declaring and withdrawing intent to modify items

A writer claims the keys of an item before it touches the authoritative store. Taking a delete
lock also leaves tombstones under everything that depends on the item, so that nothing that
depends on it outlives it; if that fails the lock is given back.
-/
namespace CacheCoherence
open Operation
variable {α : Type} [Cacheable α]

/-- Claims the keys that an operation of this kind needs. The answer is no lock when another
operation holds one of them. -/
def takeItemLock (policy : Policy) (kind : LockKind) (item : α) :
    Operation (Except CacheError Token) := do
  let keys := ItemKeys.of policy.names item
  let lockKeys := keys.lockKeys kind
  note .call
  match ← call (.writeToken kind lockKeys) with
  | .error fault =>
    log (.lockFailed keys.primary)
    return .error (.lockConflict lockKeys (some fault))
  | .ok token =>
    if token = Token.noLock then
      log (.lockContended keys.primary kind)
      return .ok token
    else match kind, keys.dependencies with
      | .delete, some list =>
        match ← call (.clearDependencies list true) with
        | .error fault =>
          log (.invalidateDependentsFailed list)
          call (.releaseToken lockKeys token)
          return .error (.lockConflict lockKeys (some fault))
        | .ok _ =>
          log (.lockTaken keys.primary kind)
          return .ok token
      | _, _ =>
        log (.lockTaken keys.primary kind)
        return .ok token

/-- Withdraws a lock. Releasing no lock does nothing. -/
def releaseItemLock (policy : Policy) (kind : LockKind) (item : α) (token : Token) :
    Operation Unit := do
  if token = Token.noLock then return ()
  else
    note .call
    call (.releaseToken ((ItemKeys.of policy.names item).lockKeys kind) token)

/-- The keys of a lock on the collection of an item. Only delete and read locks apply to
collections. -/
def collectionLockKeys (policy : Policy) (kind : LockKind) (item : α) (extra : List Key) :
    Except CacheError (List Key) :=
  match kind with
  | .delete | .read => .ok ((Cacheable.ownCollection? policy.names item).toList ++ extra)
  | _ => .error (.invalidLockKind kind)

/-- Claims the collection that an item belongs to, and further keys. -/
def takeCollectionLock (policy : Policy) (kind : LockKind) (item : α) (extra : List Key) :
    Operation (Except CacheError Token) := do
  match collectionLockKeys policy kind item extra with
  | .error e => return .error e
  | .ok keys =>
    note .call
    match ← call (.writeToken kind keys) with
    | .error fault =>
      log (.collectionLockFailed keys)
      return .error (.lockConflict keys (some fault))
    | .ok token => return .ok token

def releaseCollectionLock (policy : Policy) (kind : LockKind) (item : α) (extra : List Key)
    (token : Token) : Operation (Except CacheError Unit) := do
  match collectionLockKeys policy kind item extra with
  | .error e => return .error e
  | .ok keys =>
    if token = Token.noLock then return .ok ()
    else
      note .call
      call (.releaseToken keys token)
      return .ok ()

end CacheCoherence
