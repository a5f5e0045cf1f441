import CacheCoherence.Proofs.Library.Interleaving

/-!
# What keys are used for

A key is used for items of one type, for collections of items of one type, or as a dependency list.
What a call of the library writes under a key as a value is the text of something that it was asked
to save there, and it adds to and clears no lists but those of its items. Locks and tombstones may
stand anywhere.
-/
namespace CacheCoherence
open Operation

/-- What a key is used for. -/
inductive Role : Type 1
  | item (T : ItemType)
  | collection (T : ItemType)
  | list
  /-- Nothing is cached under the key. -/
  | other

/-- What is cached as one text. -/
inductive Payload : Type 1
  | one {T : ItemType} (item : T.Item)
  | many {T : ItemType} (items : List T.Item)

namespace Payload

def role : Payload → Role
  | .one (T := T) _ => .item T
  | .many (T := T) _ => .collection T

def document? : Payload → Option Json
  | .one item => Cacheable.toJson? item
  | .many items => collectionJson? items

def text? (x : Payload) : Option String := x.document?.map Json.compact

/-- Whether a cached copy may be handed out. -/
def isValid : Payload → Bool
  | .one item => Cacheable.isValid item
  | .many items => items.all Cacheable.isValid

/-- Its document, if it has one, is spelled properly. -/
def WellFormed (x : Payload) : Prop := ∀ document, x.document? = some document → document.WellFormed

/-- Its items are read back from the documents that they are saved as. -/
def Faithful : Payload → Prop
  | .one item => CacheCoherence.Faithful item
  | .many items => ∀ item ∈ items, CacheCoherence.Faithful item

end Payload

/-- What the text under a key with this role decodes to, if it does. -/
def Role.read? : Role → String → Option Payload
  | .item T, raw => (Json.parse? raw).bind fun j =>
    (Cacheable.ofJson? j : Option T.Item).map .one
  | .collection T, raw => (Json.parse? raw).bind fun j =>
    (Json.toList? Cacheable.ofJson? j : Option (List T.Item)).map .many
  | _, _ => none

section Payload
variable {x : Payload} {raw : String}

theorem Payload.role_ne_list (x : Payload) : x.role ≠ .list := by
  cases x <;> simp [role]

theorem Payload.parse?_text (hwell : x.WellFormed) (htext : x.text? = some raw) :
    ∃ document, x.document? = some document ∧ Json.parse? raw = some document := by
  obtain ⟨document, hdoc, rfl⟩ := Option.map_eq_some_iff.1 htext
  exact ⟨document, hdoc, Json.parse?_compact (hwell document hdoc)⟩

theorem Payload.Faithful.wellFormed (h : x.Faithful) : x.WellFormed := by
  intro document hdoc
  cases x with
  | one item => exact CacheCoherence.Faithful.wellFormed h document hdoc
  | many items =>
    obtain ⟨documents, hdocuments, rfl⟩ := collectionJson?_eq_some hdoc
    change Json.WellFormedItems documents
    rw [Json.wellFormedItems_iff]
    exact (wellFormed_of_members h hdocuments).1

/-- What was saved is read back. -/
theorem Payload.Faithful.read? (h : x.Faithful) (htext : x.text? = some raw) :
    x.role.read? raw = some x := by
  obtain ⟨document, hdoc, hparse⟩ := Payload.parse?_text h.wellFormed htext
  cases x with
  | one item =>
    rw [Payload.role, Role.read?, hparse, Option.bind_some,
      CacheCoherence.Faithful.reads h document hdoc]
    rfl
  | many items =>
    obtain ⟨documents, hdocuments, rfl⟩ := collectionJson?_eq_some hdoc
    have hread : (Json.array documents).toList? Cacheable.ofJson? = some items :=
      (wellFormed_of_members h hdocuments).2
    rw [Payload.role, Role.read?, hparse, Option.bind_some, hread]
    rfl

end Payload

namespace LibraryCall

/-- What a call is to cache, and under which keys. -/
def writes (policy : Policy) : LibraryCall → List (Key × Payload)
  | .saveItem item _ _ _ | .saveMember item =>
    (ItemKeys.of policy.names item).cached.map fun k => (k, .one item)
  | .saveMembers items => items.flatMap fun item =>
    (ItemKeys.of policy.names item).cached.map fun k => (k, .one item)
  | .saveCollection _ items _ collectionKey _ _ => [(collectionKey, .many items)]
  | _ => []

/-- The keys that a call reads, and what it takes them for. -/
def reads : LibraryCall → List (Key × Role)
  | .getItem T key _ | .getItemUnlessModified T key _ _ => [(key, .item T)]
  | .getItems T keys _ => keys.map fun key => (key, .item T)
  | .getCollection T key _ => [(key, .collection T)]
  | _ => []

structure KeepsRoles (policy : Policy) (roles : Key → Role) (c : LibraryCall) : Prop where
  lists : ∀ k ∈ c.lists policy, roles k = .list
  writes : ∀ entry ∈ c.writes policy, roles entry.1 = entry.2.role
  reads : ∀ entry ∈ c.reads, roles entry.1 = entry.2

/-- A call to the store that a call of the library may make: what it writes is saved there, and what
it uses as lists are lists of its items. -/
def Makes (policy : Policy) (c : LibraryCall) : Call → Prop
  | .setValue _ keys value _ _ =>
    ∀ k ∈ keys, ∃ x, (k, x) ∈ c.writes policy ∧ x.text? = some value
  | .addDependency lists _ _ => ∀ list ∈ lists, list ∈ c.lists policy
  | .clearDependencies list _ => list ∈ c.lists policy
  | _ => True

variable {policy : Policy} {c : LibraryCall}

section Item
variable {T : ItemType} {item : T.Item}
  (hwrites : ∀ k ∈ (ItemKeys.of policy.names item).cached, (k, .one item) ∈ c.writes policy)
  (hlists : ∀ k ∈ listKeys policy.names item, k ∈ c.lists policy)
include hwrites hlists

theorem calls_saveItem_makes (token : Token) (clearCollections : Bool) (extra : List Key) :
    Calls (c.Makes policy) (CacheCoherence.saveItem policy item token clearCollections extra) := by
  refine calls_saveItem_document policy item token clearCollections extra (fun document hdoc => ?_)
    (fun _ q hq => ?_) trivial
  · intro k hk
    refine ⟨.one item, hwrites k hk, ?_⟩
    rw [Payload.text?, Payload.document?, hdoc]
    rfl
  · cases q with
    | deleteValue ks tombstone force => trivial
    | clearDependencies list tombstone =>
      exact hlists list (List.mem_append_left _ (Option.mem_toList.2 hq.2.1))
    | addDependency lists dependents ttl =>
      rcases hq.2 with ⟨rfl, -⟩ | ⟨own, hown, rfl, -⟩
      · exact fun list hlist => hlists list (List.mem_append_right _ hlist)
      · intro list hlist
        rw [List.mem_singleton.1 hlist]
        exact hlists own (List.mem_append_left _ (Option.mem_toList.2 hown))
    | _ => cases hq

theorem calls_saveMember_makes :
    Calls (c.Makes policy) (CacheCoherence.saveMember policy item) :=
  calls_saveMember item trivial (fun _ => trivial) fun token =>
    calls_saveItem_makes hwrites hlists token false []

end Item

variable (policy c) in
theorem calls_makes : Calls (c.Makes policy) (c.operation policy) := by
  cases c with
  | takeItemLock kind item =>
    refine calls_takeItemLock policy item trivial (fun list hlist _ => ?_) fun _ => trivial
    exact List.mem_append_left _ (Option.mem_toList.2 hlist)
  | releaseItemLock kind item token => exact calls_releaseItemLock policy kind item token trivial
  | takeCollectionLock kind item extra => exact calls_takeCollectionLock trivial
  | releaseCollectionLock kind item extra token => exact calls_releaseCollectionLock token trivial
  | getItem T key lock => exact calls_getItem key lock trivial trivial
  | getItemUnlessModified T key modifiedKey lock =>
    exact calls_getItemUnlessModified key modifiedKey lock trivial (fun _ => trivial) trivial
  | getItems T keys lock => exact calls_getItems keys lock trivial fun _ _ => trivial
  | getCollection T key lock => exact calls_getCollection key lock trivial trivial
  | saveItem item token clearCollections extra =>
    refine calls_saveItem_makes ?_ ?_ token clearCollections extra
    · exact fun k hk => List.mem_map.2 ⟨k, hk, rfl⟩
    · exact fun k hk => hk
  | saveCollection owner items lockKey collectionKey token isGlobal =>
    refine calls_saveCollection_document (fun _ list hlist => hlist) fun document hdoc k hk => ?_
    obtain rfl := List.mem_singleton.1 hk
    refine ⟨.many items, List.mem_singleton_self _, ?_⟩
    rw [Payload.text?, Payload.document?, hdoc]
    rfl
  | saveMember item =>
    refine calls_saveMember_makes ?_ ?_
    · exact fun k hk => List.mem_map.2 ⟨k, hk, rfl⟩
    · exact fun k hk => hk
  | saveMembers items =>
    refine calls_saveMembers items fun item hitem => calls_saveMember_makes ?_ ?_
    · exact fun k hk => List.mem_flatMap.2 ⟨item, hitem, List.mem_map.2 ⟨k, hk, rfl⟩⟩
    · exact fun k hk => List.mem_flatMap.2 ⟨item, hitem, hk⟩
  | deleteItem item token => exact calls_deleteItem item token trivial
  | flush tombstones => exact calls_flushNamespace tombstones trivial

end LibraryCall
end CacheCoherence
