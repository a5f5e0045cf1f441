import CacheCoherence.Proofs.Library.Basic

/-!
# What the library calls

A call of the library that uses keys in their roles makes only calls to the store that do so. Saves
are the only ones to write values, and apart from saves of items they clear and flush nothing.
-/
namespace CacheCoherence
open Operation

section Respects
variable {isList : Key → Prop} {root : String} {q : Call}

theorem Call.OnSlots.respects (h : q.OnSlots) (hslots : ∀ k ∈ q.slots, ¬ isList k) :
    q.Respects isList root where
  slots := hslots
  adds := fun _ _ _ hadd => absurd hadd (h.ne.1 _ _ _)
  clears := fun _ _ hclear => absurd hclear (h.ne.2.1 _ _)
  flushes := fun _ _ hflush => absurd hflush (h.ne.2.2 _ _)

theorem Call.respects_addDependency {lists dependents : List Key} {ttl : Nat} (httl : ttl ≠ 0)
    (hlists : ∀ k ∈ lists, isList k) (hdependents : ∀ k ∈ dependents, ¬ isList k) :
    (Call.addDependency lists dependents ttl).Respects isList root where
  slots := fun _ hk => by cases hk
  adds := by
    rintro _ _ _ ⟨⟩
    exact ⟨httl, hlists, hdependents⟩
  clears := by rintro _ _ ⟨⟩
  flushes := by rintro _ _ ⟨⟩

theorem Call.respects_clearDependencies {list : Key} {tombstone : Bool} (hlist : isList list) :
    (Call.clearDependencies list tombstone).Respects isList root where
  slots := fun _ hk => by cases hk
  adds := by rintro _ _ _ ⟨⟩
  clears := by
    rintro _ _ ⟨⟩
    exact hlist
  flushes := by rintro _ _ ⟨⟩

theorem Call.respects_flush {tombstones : Bool} :
    (Call.flush root tombstones).Respects isList root where
  slots := fun _ hk => by cases hk
  adds := by rintro _ _ _ ⟨⟩
  clears := by rintro _ _ ⟨⟩
  flushes := by
    rintro _ _ ⟨⟩
    rfl

section Item
variable {α : Type} [Cacheable α] {policy : Policy} {item : α}
  (hlists : ∀ k ∈ listKeys policy.names item, isList k)
  (hslots : ∀ k ∈ (ItemKeys.of policy.names item).deleted, ¬ isList k)
include hslots

theorem respects_lockKeys {kind : LockKind} :
    (Call.writeToken kind ((ItemKeys.of policy.names item).lockKeys kind)).Respects isList root ∧
      ∀ token, (Call.releaseToken ((ItemKeys.of policy.names item).lockKeys kind) token).Respects
        isList root := by
  have hkeys (k : Key) (hk : k ∈ (ItemKeys.of policy.names item).lockKeys kind) : ¬ isList k :=
    hslots k (ItemKeys.mem_deleted_of_lockKeys hk)
  exact ⟨Call.OnSlots.respects trivial hkeys, fun token => Call.OnSlots.respects trivial hkeys⟩

include hlists in
theorem respects_settle (httl : Cacheable.ttl α policy.ttls ≠ skipTtl) {clearCollections : Bool}
    {extra : List Key} (hextra : ∀ k ∈ extra, ¬ isList k)
    (hq : Settles policy item clearCollections extra q) :
    q.Respects isList root ∧ ¬ q.Stores := by
  have hown (list : Key) (h : Cacheable.dependenciesKey? policy.names item = some list) :
      isList list := by
    refine hlists list (List.mem_append_left _ ?_)
    exact Option.mem_toList.2 h
  have hcached (k : Key) (hk : k ∈ (ItemKeys.of policy.names item).cached) : ¬ isList k :=
    hslots k (ItemKeys.mem_deleted_of_cached hk)
  cases q with
  | deleteValue ks tombstone force =>
    obtain ⟨-, rfl, -⟩ := hq
    refine ⟨Call.OnSlots.respects trivial fun k hk => ?_, fun h => h⟩
    rcases ItemKeys.mem_deleted_of_stale hk with hdeleted | hmem
    · exact hslots k hdeleted
    · exact hextra k hmem
  | clearDependencies list tombstone =>
    exact ⟨Call.respects_clearDependencies (hown list hq.2.1), fun h => h⟩
  | addDependency targets dependents lifetime =>
    obtain ⟨rfl, htargets⟩ := hq
    rcases htargets with ⟨rfl, rfl⟩ | ⟨own, howned, rfl, rfl⟩
    · refine ⟨Call.respects_addDependency httl (fun k hk => ?_) hcached, fun h => h⟩
      exact hlists k (List.mem_append_right _ hk)
    · refine ⟨Call.respects_addDependency httl (fun k hk => ?_) fun k hk => ?_, fun h => h⟩
      · rw [List.mem_singleton.1 hk]
        exact hown own howned
      · exact hcached k (List.mem_cons_of_mem _ hk)
  | _ => cases hq

theorem respects_write (value : String) (token : Token) (ttl : Nat) :
    (Call.setValue (ItemKeys.of policy.names item).primary (ItemKeys.of policy.names item).cached
      value token ttl).Respects isList root := by
  refine Call.OnSlots.respects trivial fun k hk => hslots k (ItemKeys.mem_deleted_of_cached ?_)
  rcases List.mem_cons.1 hk with rfl | hk
  · exact List.mem_cons_self
  · exact hk

theorem respects_remove :
    (Call.deleteValue (ItemKeys.of policy.names item).cached false true).Respects isList root :=
  Call.OnSlots.respects trivial fun k hk => hslots k (ItemKeys.mem_deleted_of_cached hk)

include hlists in
theorem calls_saveMember_respects :
    Calls (fun q => q.Respects isList root ∧ ¬ q.Sweeps) (saveMember policy item) := by
  refine calls_saveMember item ⟨(respects_lockKeys hslots).1, fun h => h⟩
    (fun token => ⟨(respects_lockKeys hslots).2 token, fun h => h⟩) fun token => ?_
  refine calls_saveItem policy item token false []
    (fun value => ⟨respects_write hslots value token _, fun h => h⟩) (fun httl q hq => ⟨?_, ?_⟩)
    ⟨respects_remove hslots, fun h => h⟩
  · exact (respects_settle hlists hslots httl (fun k hk => by cases hk) hq).1
  · cases q with
    | clearDependencies list tombstone => cases hq.1
    | flush root' tombstones => cases hq
    | _ => exact fun h => h

end Item
end Respects

namespace LibraryCall
variable {policy : Policy} {isList : Key → Prop}

/-- Which calls to the store a call of the library may make at all. -/
def Allows : LibraryCall → Call → Prop
  | .saveItem .., _ => True
  | .saveCollection .., q | .saveMember .., q | .saveMembers .., q => ¬ q.Sweeps
  | _, q => ¬ q.Stores

theorem calls_of_separates {c : LibraryCall} (h : c.Separates policy isList) {root : String}
    (hroot : ∀ tombstones, c = .flush tombstones → root = policy.names.root) :
    Calls (fun q => q.Respects isList root ∧ c.Allows q) (c.operation policy) := by
  have hslots := h.slots
  have hlists := h.lists
  cases c with
  | takeItemLock kind item =>
    refine calls_takeItemLock policy item ⟨(respects_lockKeys hslots).1, fun hs => hs⟩ ?_
      fun token => ⟨(respects_lockKeys hslots).2 token, fun hs => hs⟩
    intro list hlist _
    refine ⟨Call.respects_clearDependencies (hlists list (List.mem_append_left _ ?_)),
      fun hs => hs⟩
    exact Option.mem_toList.2 hlist
  | releaseItemLock kind item token =>
    exact calls_releaseItemLock policy kind item token
      ⟨(respects_lockKeys hslots).2 token, fun hs => hs⟩
  | takeCollectionLock kind item extra =>
    exact calls_takeCollectionLock ⟨Call.OnSlots.respects trivial hslots, fun hs => hs⟩
  | releaseCollectionLock kind item extra token =>
    exact calls_releaseCollectionLock token ⟨Call.OnSlots.respects trivial hslots, fun hs => hs⟩
  | getItem T key lock =>
    exact calls_getItem key lock ⟨Call.OnSlots.respects trivial hslots, fun hs => hs⟩
      ⟨Call.OnSlots.respects trivial hslots, fun hs => hs⟩
  | getItemUnlessModified T key modifiedKey lock =>
    have hkey (k : Key) (hk : k ∈ [key]) : ¬ isList k := by
      rw [List.mem_singleton.1 hk]
      exact hslots key List.mem_cons_self
    exact calls_getItemUnlessModified key modifiedKey lock
      ⟨Call.OnSlots.respects trivial hslots, fun hs => hs⟩
      (fun token => ⟨Call.OnSlots.respects trivial hkey, fun hs => hs⟩)
      ⟨Call.OnSlots.respects trivial hkey, fun hs => hs⟩
  | getItems T keys lock =>
    refine calls_getItems keys lock ⟨Call.OnSlots.respects trivial hslots, fun hs => hs⟩
      fun key hkey => ⟨Call.OnSlots.respects trivial fun k hk => ?_, fun hs => hs⟩
    rw [List.mem_singleton.1 hk]
    exact hslots key hkey
  | getCollection T key lock =>
    exact calls_getCollection key lock ⟨Call.OnSlots.respects trivial hslots, fun hs => hs⟩
      ⟨Call.OnSlots.respects trivial hslots, fun hs => hs⟩
  | saveItem item token clearCollections extra =>
    obtain ⟨-, hitem, hextra⟩ := h.keys_of_saveItem
    exact calls_saveItem policy item token clearCollections extra
      (fun value => ⟨respects_write hitem value token _, trivial⟩)
      (fun httl q hq => ⟨(respects_settle hlists hitem httl hextra hq).1, trivial⟩)
      ⟨respects_remove hitem, trivial⟩
  | saveCollection owner items lockKey collectionKey token isGlobal =>
    refine calls_saveCollection (fun httl => ⟨?_, fun hs => hs⟩) fun value => ⟨?_, fun hs => hs⟩
    · refine Call.respects_addDependency httl hlists fun k hk => hslots k ?_
      exact List.mem_cons_of_mem _ hk
    · exact Call.OnSlots.respects trivial hslots
  | saveMember item => exact calls_saveMember_respects hlists hslots
  | saveMembers items =>
    refine calls_saveMembers items fun item hitem => calls_saveMember_respects ?_ ?_
    · exact fun k hk => hlists k (List.mem_flatMap.2 ⟨item, hitem, hk⟩)
    · exact fun k hk => hslots k (List.mem_flatMap.2 ⟨item, hitem, hk⟩)
  | deleteItem item token =>
    exact calls_deleteItem item token ⟨Call.OnSlots.respects trivial hslots, fun hs => hs⟩
  | flush tombstones =>
    obtain rfl := hroot tombstones rfl
    exact calls_flushNamespace tombstones ⟨Call.respects_flush, fun hs => hs⟩

theorem calls_operation {c : LibraryCall} (h : c.Respects policy isList) :
    Calls (fun q => q.Respects isList policy.names.root ∧ c.Allows q) (c.operation policy) :=
  calls_of_separates h.separates fun _ _ => rfl

end LibraryCall

end CacheCoherence
