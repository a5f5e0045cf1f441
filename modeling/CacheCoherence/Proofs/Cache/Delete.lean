import CacheCoherence.Cache.Delete
import CacheCoherence.Proofs.Operations

/-!
# Removing items and namespaces

A removal of an item under a lock is one call to the store, which succeeds on a store in memory.
What a removal of an item or of a whole namespace may call.
-/
namespace CacheCoherence
open Operation
variable {α : Type} [Cacheable α] {policy : Policy} {S : Call → Prop}

theorem deleteItem_on (cfg : MemorySettings) (m : Memory) (item : α) {token : Token}
    (h : token ≠ Token.noLock) :
    (deleteItem policy item token).on cfg m =
      (.ok (), (m.deleteValue cfg (ItemKeys.of policy.names item).deleted true true).memory) := by
  unfold deleteItem
  rw [if_neg h]
  simp

theorem calls_deleteItem (item : α) (token : Token)
    (h : S (.deleteValue (ItemKeys.of policy.names item).deleted true true)) :
    Calls S (deleteItem policy item token) := by
  unfold deleteItem
  split
  · trivial
  refine Calls.bind (calls_note _) fun _ => Calls.bind ((calls_call _).2 h) fun answer => ?_
  cases answer with
  | ok u => exact calls_reported _ _ _
  | error fault => exact calls_reported _ _ _

theorem calls_flushNamespace (tombstones : Bool) (h : S (.flush policy.names.root tombstones)) :
    Calls S (flushNamespace policy tombstones) := by
  refine Calls.bind (calls_log _) fun _ => Calls.bind ((calls_call _).2 h) fun answer => ?_
  cases answer <;> trivial

end CacheCoherence
