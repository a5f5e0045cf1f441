import CacheCoherence.Proofs.Cache.Collection
import CacheCoherence.Proofs.Cache.Delete
import CacheCoherence.Proofs.Memory.Covers

/-!
# Runs of the library

Clients call the operations of the library in any order, on items of any types, while time goes by.
Each operation runs whole on a store in memory. A key serves as a dependency list or in the other
roles, but never in both, and every key of the second kind is in the namespace.
-/
namespace CacheCoherence
open Operation

structure ItemType : Type 1 where
  Item : Type
  [cacheable : Cacheable Item]

attribute [instance] ItemType.cacheable

inductive LibraryCall : Type 1
  | takeItemLock {T : ItemType} (kind : LockKind) (item : T.Item)
  | releaseItemLock {T : ItemType} (kind : LockKind) (item : T.Item) (token : Token)
  | takeCollectionLock {T : ItemType} (kind : LockKind) (item : T.Item) (extra : List Key)
  | releaseCollectionLock {T : ItemType} (kind : LockKind) (item : T.Item) (extra : List Key)
      (token : Token)
  | getItem (T : ItemType) (key : Key) (lock : Bool)
  | getItemUnlessModified (T : ItemType) (key modifiedKey : Key) (lock : Bool)
  | getItems (T : ItemType) (keys : List Key) (lock : Bool)
  | getCollection (T : ItemType) (key : Key) (lock : Bool)
  | saveItem {T : ItemType} (item : T.Item) (token : Token) (clearCollections : Bool)
      (extra : List Key)
  | saveCollection {T O : ItemType} (owner : O.Item) (items : List T.Item)
      (lockKey collectionKey : Key) (token : Token) (isGlobal : Bool)
  | saveMember {T : ItemType} (item : T.Item)
  | saveMembers {T : ItemType} (items : List T.Item)
  | deleteItem {T : ItemType} (item : T.Item) (token : Token)
  | flush (tombstones : Bool)

namespace LibraryCall

def Answer : LibraryCall → Type
  | .takeItemLock .. | .takeCollectionLock .. => Except CacheError Token
  | .releaseItemLock .. => Unit
  | .releaseCollectionLock .. | .deleteItem .. | .flush .. => Except CacheError Unit
  | .getItem T .. | .getItemUnlessModified T .. => Found T.Item
  | .getItems T .. => List (Found T.Item)
  | .getCollection T .. => Found (List T.Item)
  | .saveItem .. | .saveCollection .. => SaveOutcome
  | .saveMember .. => Bool
  | .saveMembers .. => Nat

def operation (policy : Policy) : (c : LibraryCall) → Operation c.Answer
  | .takeItemLock kind item => CacheCoherence.takeItemLock policy kind item
  | .releaseItemLock kind item token => CacheCoherence.releaseItemLock policy kind item token
  | .takeCollectionLock kind item extra =>
    CacheCoherence.takeCollectionLock policy kind item extra
  | .releaseCollectionLock kind item extra token =>
    CacheCoherence.releaseCollectionLock policy kind item extra token
  | .getItem _ key lock => CacheCoherence.getItem policy key lock
  | .getItemUnlessModified _ key modifiedKey lock =>
    CacheCoherence.getItemUnlessModified policy key modifiedKey lock
  | .getItems _ keys lock => CacheCoherence.getItems policy keys lock
  | .getCollection _ key lock => CacheCoherence.getCollection policy key lock
  | .saveItem item token clearCollections extra =>
    CacheCoherence.saveItem policy item token clearCollections extra
  | .saveCollection owner items lockKey collectionKey token isGlobal =>
    CacheCoherence.saveCollection policy owner items lockKey collectionKey token isGlobal
  | .saveMember item => CacheCoherence.saveMember policy item
  | .saveMembers items => CacheCoherence.saveMembers policy items
  | .deleteItem item token => CacheCoherence.deleteItem policy item token
  | .flush tombstones => flushNamespace policy tombstones

/-- The keys that a call uses as dependency lists. -/
def lists (policy : Policy) : LibraryCall → List Key
  | .takeItemLock _ item => listKeys policy.names item
  | .saveItem item _ _ _ => listKeys policy.names item
  | .saveCollection owner items _ _ _ isGlobal =>
    (collectionDependencies policy owner items isGlobal).keys
  | .saveMember item => listKeys policy.names item
  | .saveMembers items => items.flatMap (listKeys policy.names)
  | _ => []

/-- The keys that a call uses in any other role. -/
def slots (policy : Policy) : LibraryCall → List Key
  | .takeItemLock _ item => (ItemKeys.of policy.names item).deleted
  | .releaseItemLock _ item _ => (ItemKeys.of policy.names item).deleted
  | .takeCollectionLock _ item extra =>
    (Cacheable.ownCollection? policy.names item).toList ++ extra
  | .releaseCollectionLock _ item extra _ =>
    (Cacheable.ownCollection? policy.names item).toList ++ extra
  | .getItem _ key _ | .getCollection _ key _ => [key]
  | .getItemUnlessModified _ key modifiedKey _ => [key, modifiedKey]
  | .getItems _ keys _ => keys
  | .saveItem item _ _ extra => (ItemKeys.of policy.names item).deleted ++ extra
  | .saveCollection _ _ lockKey collectionKey _ _ => [lockKey, collectionKey]
  | .saveMember item => (ItemKeys.of policy.names item).deleted
  | .saveMembers items => items.flatMap fun item => (ItemKeys.of policy.names item).deleted
  | .deleteItem item _ => (ItemKeys.of policy.names item).deleted
  | .flush _ => []

/-- A call uses keys in the roles that they have, and within the namespace. -/
structure Respects (policy : Policy) (isList : Key → Prop) (c : LibraryCall) : Prop where
  lists : ∀ k ∈ c.lists policy, isList k
  slots : ∀ k ∈ c.slots policy, ¬ isList k ∧ isUnder policy.names.root k = true

/-- A call uses keys as dependency lists or in the other roles, but never in both. -/
structure Separates (policy : Policy) (isList : Key → Prop) (c : LibraryCall) : Prop where
  lists : ∀ k ∈ c.lists policy, isList k
  slots : ∀ k ∈ c.slots policy, ¬ isList k

theorem Respects.separates {policy : Policy} {isList : Key → Prop} {c : LibraryCall}
    (h : c.Respects policy isList) : c.Separates policy isList where
  lists := h.lists
  slots := fun k hk => (h.slots k hk).1

theorem Separates.keys_of_saveItem {policy : Policy} {isList : Key → Prop} {T : ItemType}
    {item : T.Item} {token : Token} {clearCollections : Bool} {extra : List Key}
    (h : (saveItem item token clearCollections extra).Separates policy isList) :
    (∀ k ∈ listKeys policy.names item, isList k) ∧
      (∀ k ∈ (ItemKeys.of policy.names item).deleted, ¬ isList k) ∧ ∀ k ∈ extra, ¬ isList k :=
  ⟨h.lists, fun k hk => h.slots k (List.mem_append_left _ hk),
    fun k hk => h.slots k (List.mem_append_right _ hk)⟩

/-- A save of a collection is the saves of its members one by one. -/
def parts : LibraryCall → List LibraryCall
  | .saveMembers items => items.map .saveMember
  | c => [c]

end LibraryCall

inductive LibraryStep : Type 1
  | call (c : LibraryCall)
  | elapse (duration : Nat)

namespace LibraryStep

def parts : LibraryStep → List LibraryStep
  | .call c => c.parts.map .call
  | .elapse duration => [.elapse duration]

end LibraryStep

namespace Memory
variable (cfg : MemorySettings) (policy : Policy)

def serve (m : Memory) : LibraryStep → Memory
  | .call c => ((c.operation policy).on cfg m).2
  | .elapse duration => m.advance duration

def served (m : Memory) (steps : List LibraryStep) : Memory := steps.foldl (serve cfg policy) m

@[simp] theorem served_nil (m : Memory) : m.served cfg policy [] = m := rfl

@[simp] theorem served_cons (m : Memory) (e : LibraryStep) (steps : List LibraryStep) :
    m.served cfg policy (e :: steps) = (m.serve cfg policy e).served cfg policy steps := rfl

@[simp] theorem served_append (m : Memory) (first second : List LibraryStep) :
    m.served cfg policy (first ++ second) =
      (m.served cfg policy first).served cfg policy second :=
  List.foldl_append

theorem served_parts (m : Memory) (e : LibraryStep) :
    m.served cfg policy e.parts = m.serve cfg policy e := by
  cases e with
  | elapse duration => rfl
  | call c =>
    cases c with
    | saveMembers items =>
      change ((items.map LibraryCall.saveMember).map LibraryStep.call).foldl (serve cfg policy) m =
        ((saveMembers policy items).on cfg m).2
      rw [saveMembers_on, List.map_map, List.foldl_map]
      rfl
    | _ => rfl

theorem served_flatMap_parts (m : Memory) (steps : List LibraryStep) :
    m.served cfg policy (steps.flatMap LibraryStep.parts) = m.served cfg policy steps := by
  induction steps generalizing m with
  | nil => rfl
  | cons e rest ih => rw [List.flatMap_cons, served_append, served_parts, ih, served_cons]

end Memory

namespace LibraryCall
variable {policy : Policy} {isList : Key → Prop}

theorem Respects.parts {c part : LibraryCall} (h : c.Respects policy isList)
    (hpart : part ∈ c.parts) : part.Respects policy isList := by
  cases c with
  | saveMembers items =>
    obtain ⟨item, hitem, rfl⟩ := List.mem_map.1 hpart
    constructor
    · exact fun k hk => h.lists k (List.mem_flatMap.2 ⟨item, hitem, hk⟩)
    · exact fun k hk => h.slots k (List.mem_flatMap.2 ⟨item, hitem, hk⟩)
  | _ =>
    rw [List.mem_singleton.1 hpart]
    exact h

theorem exists_whole {steps : List LibraryStep} {c : LibraryCall}
    (hc : .call c ∈ steps.flatMap LibraryStep.parts) : ∃ whole, .call whole ∈ steps ∧
      c ∈ whole.parts := by
  obtain ⟨e, he, hpart⟩ := List.mem_flatMap.1 hc
  cases e with
  | elapse duration => cases List.mem_singleton.1 hpart
  | call whole =>
    obtain ⟨part, hmem, hsame⟩ := List.mem_map.1 hpart
    cases hsame
    exact ⟨whole, he, hmem⟩

theorem respects_parts {steps : List LibraryStep}
    (h : ∀ c, .call c ∈ steps → c.Respects policy isList) (c : LibraryCall)
    (hc : .call c ∈ steps.flatMap LibraryStep.parts) : c.Respects policy isList := by
  obtain ⟨whole, hwhole, hpart⟩ := exists_whole hc
  exact (h whole hwhole).parts hpart

end LibraryCall
end CacheCoherence
