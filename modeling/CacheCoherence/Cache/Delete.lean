import CacheCoherence.Cache.Operation
import CacheCoherence.Item
/-!
# Removing items and namespaces

A deleted item leaves tombstones under every key that its delete lock claimed and under its
modified key, whatever these hold, so that readers cannot bring it back before the tombstones
expire.
-/
namespace CacheCoherence
open Operation
variable {α : Type} [Cacheable α]

/-- The keys that a deleted item leaves tombstones under. -/
def ItemKeys.deleted (keys : ItemKeys) : List Key :=
  keys.lockKeys .delete ++ keys.modified.toList

/-- Removes an item, given the token of a delete lock on it. -/
def deleteItem (policy : Policy) (item : α) (token : Token) :
    Operation (Except CacheError Unit) := do
  if token = Token.noLock then return .ok ()
  else
    let keys := ItemKeys.of policy.names item
    note .call
    match ← call (.deleteValue keys.deleted true true) with
    | .ok _ =>
      note (.deletion true)
      log (.deleted keys.primary)
      return .ok ()
    | .error fault =>
      note (.deletion false)
      log (.deleteFailed keys.primary)
      return .error (.store fault)

/-- Removes every key that starts with the namespace's root; tombstones only if asked. -/
def flushNamespace (policy : Policy) (tombstones : Bool) :
    Operation (Except CacheError Unit) := do
  log (.flush policy.names.root)
  match ← call (.flush policy.names.root tombstones) with
  | .ok _ => return .ok ()
  | .error fault => return .error (.store fault)

end CacheCoherence
