import CacheCoherence.Proofs.Catalogue
import CacheCoherence.Proofs.Library.Calls
import CacheCoherence.Proofs.Memory.Tombstones

/-!
# Deleted items stay deleted

A deletion under a lock leaves tombstones under all keys of the item. Until they expire no reader
gets the item back into the cache: whatever readers and late savers do, under whatever tokens they
still hold, the tombstones stay, and every read of a key under one is a miss that grants no lock.
-/
namespace CacheCoherence
open Operation
variable {cfg : MemorySettings} {policy : Policy} {m : Memory} {since : Nat} {ks : List Key}
  {k : Key}

/-- What a save of an item writes is either locked by a deleted item's primary key, or lies apart
from all keys that the deletion left tombstones under. -/
def SavedApart {α : Type} [Cacheable α] (policy : Policy) (deleted : ItemKeys) (item : α) : Prop :=
  (ItemKeys.of policy.names item).primary = deleted.primary ∨
    ∀ k ∈ (ItemKeys.of policy.names item).cached, k ∉ deleted.deleted

namespace LibraryCall

/-- What may be called while the tombstones of a deleted item are to stay: reads, read locks,
releases, and saves that invalidate nothing. The tokens are any that a store may have issued, for it
never issues the tombstone as one. -/
def SparesDeleted (policy : Policy) (deleted : ItemKeys) : LibraryCall → Prop
  | .takeItemLock kind _ | .takeCollectionLock kind _ _ => kind = .read
  | .releaseItemLock _ _ token | .releaseCollectionLock _ _ _ token => token ≠ Token.tombstone
  | .getItem .. | .getItemUnlessModified .. | .getItems .. | .getCollection .. => True
  | .saveItem item token clearCollections _ =>
    clearCollections = false ∧ token ≠ Token.tombstone ∧ SavedApart policy deleted item
  | .saveCollection _ _ lockKey collectionKey token _ =>
    lockKey = collectionKey ∧ token ≠ Token.tombstone
  | .saveMember item => SavedApart policy deleted item
  | .saveMembers items => ∀ item ∈ items, SavedApart policy deleted item
  | .deleteItem .. | .flush .. => False

variable (cfg policy m k) in
/-- Whatever a call reads at a key, it is told of a miss without a lock. -/
def Misses : LibraryCall → Prop
  | .getItem T key lock => key = k →
    ((CacheCoherence.getItem policy key lock : Operation (Found T.Item)).on cfg m).1 =
      .miss Token.noLock
  | .getItemUnlessModified T key modifiedKey lock => key = k ∨ modifiedKey = k →
    ((CacheCoherence.getItemUnlessModified policy key modifiedKey lock :
      Operation (Found T.Item)).on cfg m).1 = .miss Token.noLock
  | .getItems T keys lock => ∀ i : Nat, keys[i]? = some k →
    ((CacheCoherence.getItems policy keys lock : Operation (List (Found T.Item))).on cfg m).1[i]? =
      some (Found.miss Token.noLock)
  | .getCollection T key lock => key = k →
    ((CacheCoherence.getCollection policy key lock : Operation (Found (List T.Item))).on cfg m).1 =
      .miss Token.noLock
  | _ => True

end LibraryCall

section Reads
variable {α : Type} (h : m.Buried cfg since ks)
include h

theorem Memory.Buried.on {γ : Type} {op : Operation γ} (hr : cfg.rules = Rules.standard)
    (hop : Calls (fun q => ∀ m, Memory.Spares m ks q) op) : (op.on cfg m).2.Buried cfg since ks :=
  hop.preserves cfg (P := fun m => m.Buried cfg since ks)
    (fun _ m₁ hq hm => hm.perform hr (hq m₁)) h

theorem Memory.Buried.fetch_on (entry : Entry α) (hk : k ∈ ks) (lock : Bool) :
    (fetch entry k lock).on cfg m = (.miss Token.noLock, m) :=
  fetch_on_token cfg entry m (h.content hk) Content.isToken_tombstone lock

theorem Memory.Buried.fetch_keeps (hr : cfg.rules = Rules.standard) (entry : Entry α) (key : Key)
    (lock : Bool) : ((fetch entry key lock).on cfg m).2.Buried cfg since ks := by
  by_cases hk : key ∈ ks
  · rw [h.fetch_on entry hk]
    exact h
  · exact h.on hr (calls_fetch entry key lock (fun _ => trivial) fun _ =>
      .inr (.inr fun k hmem => List.mem_singleton.1 hmem ▸ hk))

variable [Cacheable α]

theorem Memory.Buried.getItems_keeps (hr : cfg.rules = Rules.standard) (keys : List Key)
    (lock : Bool) :
    ((getItems policy keys lock : Operation (List (Found α))).on cfg m).2.Buried cfg since ks := by
  cases hskip : (keys.isEmpty || skips policy α) with
  | true =>
    simp only [getItems, hskip, if_true, on_pure]
    exact h
  | false =>
    rw [getItems_on cfg m policy lock hskip]
    refine (h.lookups _).on hr (calls_resolveAll _ fun slot hslot raw hvalue _ _ => ?_)
    -- Only values are removed, and under a buried key none was found.
    refine .inr (.inr fun k hmem hk => Option.some_ne_none raw (hvalue.symm.trans ?_))
    obtain rfl := List.mem_singleton.1 hmem
    obtain ⟨i, hi⟩ := List.mem_iff_getElem?.1 hslot
    obtain ⟨hkey, hfound⟩ := List.getElem?_zip_eq_some.1 hi
    have hread : (keys.map fun key => (key, lock))[i]? = some (slot.1, lock) := by
      rw [List.getElem?_map, hkey]
      rfl
    rw [h.lookups_getElem? hread hk] at hfound
    rw [← Option.some.inj hfound]
    rfl

theorem Memory.Buried.getItems_miss (hk : k ∈ ks) {keys : List Key} {i : Nat}
    (hi : keys[i]? = some k) (lock : Bool) :
    ((getItems policy keys lock : Operation (List (Found α))).on cfg m).1[i]? =
      some (.miss Token.noLock) := by
  cases hskip : (keys.isEmpty || skips policy α) with
  | true =>
    simp only [getItems, hskip, if_true, on_pure]
    rw [List.getElem?_map, hi]
    rfl
  | false =>
    have hread : (keys.map fun key => (key, lock))[i]? = some (k, lock) := by
      rw [List.getElem?_map, hi]
      rfl
    have hfound := h.lookups_getElem? hread hk
    have hslot : (keys.zip (Memory.lookups cfg (keys.map fun key => (key, lock)) m).1)[i]? =
        some (k, .observed (some Token.tombstone)) := List.getElem?_zip_eq_some.2 ⟨hi, hfound⟩
    rw [getItems_on cfg m policy lock hskip, resolveAll_result, List.getElem?_map, hslot]
    rfl

/-- A read that looks for a modification first never removes a tombstone either: the lock that it
gives back was not granted there. -/
theorem Memory.Buried.getItemUnlessModified_keeps (hr : cfg.rules = Rules.standard)
    (key modifiedKey : Key) (lock : Bool) :
    ((getItemUnlessModified policy key modifiedKey lock :
      Operation (Found α)).on cfg m).2.Buried cfg since ks := by
  cases hskip : skips policy α with
  | true =>
    simp only [getItemUnlessModified, hskip, if_true, on_pure]
    exact h
  | false =>
    have hread := (h.lookup key lock).lookup modifiedKey false
    have hfound (hk : key ∈ ks) : (m.lookup cfg key lock).1 = .observed (some Token.tombstone) := by
      rw [Memory.lookup_of_content cfg m key lock (h.content hk)]
    rw [getItemUnlessModified_on cfg m policy key modifiedKey lock hskip]
    simp only
    split
    · refine hread.releaseToken ?_
      by_cases hk : key ∈ ks
      · left
        rw [hfound hk]
        decide
      · exact .inr fun k hmem => List.mem_singleton.1 hmem ▸ hk
    · refine hread.on hr (calls_resolve servableItem key _ fun raw hvalue _ _ => ?_)
      refine .inr (.inr fun k hmem hk => Option.some_ne_none raw (hvalue.symm.trans ?_))
      rw [List.mem_singleton.1 hmem] at hk
      rw [hfound hk]
      rfl

theorem Memory.Buried.getItemUnlessModified_miss {key modifiedKey : Key}
    (hk : key ∈ ks ∨ modifiedKey ∈ ks) (lock : Bool) :
    ((getItemUnlessModified policy key modifiedKey lock : Operation (Found α)).on cfg m).1 =
      .miss Token.noLock := by
  cases hskip : skips policy α with
  | true =>
    simp only [getItemUnlessModified, hskip, if_true, on_pure]
  | false =>
    rw [getItemUnlessModified_on cfg m policy key modifiedKey lock hskip]
    simp only
    split
    · rfl
    rename_i hunmodified
    rcases hk with hk | hk
    · rw [Memory.lookup_of_content cfg m key lock (h.content hk), resolve_result]
      rfl
    · rw [Memory.lookup_of_content cfg _ modifiedKey false ((h.lookup key lock).content hk)]
        at hunmodified
      exact absurd rfl hunmodified

end Reads

section Saves
variable {α : Type} [Cacheable α] {item : α} {token : Token}

theorem calls_saveItem_apart (hapart : ∀ k ∈ (ItemKeys.of policy.names item).cached, k ∉ ks)
    (extra : List Key) :
    Calls (fun q => ∀ m, Memory.Spares m ks q) (saveItem policy item token false extra) := by
  refine calls_saveItem policy item token false extra (fun value m => ?_) (fun _ q hq m => ?_)
    fun m => ?_
  · exact .inr ⟨hapart _ List.mem_cons_self, hapart⟩
  · cases q with
    | deleteValue keys tombstone force => cases hq.1
    | clearDependencies list tombstone => cases hq.1
    | addDependency lists dependents ttl => trivial
    | _ => cases hq
  · exact .inr (.inr hapart)

variable {deleted : ItemKeys} (hr : cfg.rules = Rules.standard)
  (h : m.Buried cfg since deleted.deleted) (hapart : SavedApart policy deleted item)
include hr h hapart

/-- A save that invalidates nothing is refused under the primary key of a deleted item, and writes
elsewhere otherwise. -/
theorem Memory.Buried.saveItem_keeps (htoken : token ≠ Token.tombstone) (extra : List Key) :
    ((saveItem policy item token false extra).on cfg m).2.Buried cfg since deleted.deleted := by
  rcases hapart with hprimary | hapart
  · have hmem : (ItemKeys.of policy.names item).primary ∈ deleted.deleted := by
      rw [hprimary]
      exact ItemKeys.mem_deleted_of_cached List.mem_cons_self
    cases hop : (saveItem policy item token false extra).on cfg m with
    | mk outcome m' =>
    rcases saveItem_cases hr hop with ⟨rfl, -⟩ | ⟨document, -, -, ⟨-, -, hrefused⟩ | ⟨hstore, -⟩⟩
    · exact h
    · rw [hrefused]
      exact h.setValue hr (.inl ⟨hmem, htoken⟩)
    · have hheld := hstore.2.1
      rw [h.content hmem] at hheld
      exact absurd (Option.some.inj hheld).symm htoken
  · exact h.on hr (calls_saveItem_apart hapart extra)

/-- No read lock is granted on a deleted item, so its members are not saved one by one. -/
theorem Memory.Buried.saveMember_keeps :
    ((saveMember policy item).on cfg m).2.Buried cfg since deleted.deleted := by
  rcases hapart with hprimary | hapart
  · have hmem : (ItemKeys.of policy.names item).primary ∈ deleted.deleted := by
      rw [hprimary]
      exact ItemKeys.mem_deleted_of_cached List.mem_cons_self
    have hread : LockKind.read ≠ .delete := by decide
    rcases takeItemLock_cases cfg policy m hr hread item with ⟨hgrants, -⟩ | ⟨-, htake⟩
    · have hmay := hgrants.2 _ List.mem_cons_self
      rw [h.content hmem, LockKind.mayTake, Content.ofSlot, Content.ofText_tombstone] at hmay
      cases hmay
    · simp only [saveMember, on_bind, htake, if_true, on_pure]
      exact h.writeToken hr (.inl rfl)
  · have hkey (k : Key) (hk : k ∈ (ItemKeys.of policy.names item).lockKeys .read) :
        k ∉ deleted.deleted := by
      rw [List.mem_singleton.1 hk]
      exact hapart _ List.mem_cons_self
    exact h.on hr (calls_saveMember item (fun _ => .inl rfl) (fun token _ => .inr hkey) fun token =>
      calls_saveItem_apart hapart [])

end Saves

section Runs
variable {deleted : ItemKeys} (hr : cfg.rules = Rules.standard)
include hr

theorem Memory.Buried.saveMembers_keeps {α : Type} [Cacheable α] {items : List α}
    (h : m.Buried cfg since deleted.deleted)
    (hapart : ∀ item ∈ items, SavedApart policy deleted item) :
    ((saveMembers policy items).on cfg m).2.Buried cfg since deleted.deleted := by
  rw [saveMembers_on]
  induction items generalizing m with
  | nil => exact h
  | cons item rest ih =>
    have hfirst := h.saveMember_keeps hr (hapart item List.mem_cons_self)
    exact ih hfirst fun other hother => hapart other (List.mem_cons_of_mem _ hother)

/-- No call of the library removes a tombstone that it is to spare. -/
theorem Memory.Buried.call (h : m.Buried cfg since deleted.deleted) {c : LibraryCall}
    (hc : c.SparesDeleted policy deleted) :
    (m.serve cfg policy (.call c)).Buried cfg since deleted.deleted := by
  cases c with
  | takeItemLock kind item =>
    obtain rfl : kind = .read := hc
    have hread : LockKind.read ≠ .delete := by decide
    change ((takeItemLock policy .read item).on cfg m).2.Buried cfg since deleted.deleted
    rcases takeItemLock_cases cfg policy m hr hread item with ⟨-, htake⟩ | ⟨-, htake⟩
    · rw [htake]
      exact h.writeToken hr (.inl rfl)
    · rw [htake]
      exact h.writeToken hr (.inl rfl)
  | releaseItemLock kind item token =>
    exact h.on hr (calls_releaseItemLock policy kind item token fun _ => .inl hc)
  | takeCollectionLock kind item extra =>
    exact h.on hr (calls_takeCollectionLock fun _ => .inl hc)
  | releaseCollectionLock kind item extra token =>
    exact h.on hr (calls_releaseCollectionLock token fun _ => .inl hc)
  | getItem T key lock =>
    change ((getItem policy key lock : Operation (Found T.Item)).on cfg m).2.Buried cfg since
      deleted.deleted
    unfold getItem
    split
    · exact h
    · exact h.fetch_keeps hr _ key lock
  | getItemUnlessModified T key modifiedKey lock =>
    exact h.getItemUnlessModified_keeps hr key modifiedKey lock
  | getItems T keys lock => exact h.getItems_keeps hr keys lock
  | getCollection T key lock =>
    change ((getCollection policy key lock : Operation (Found (List T.Item))).on cfg m).2.Buried cfg
      since deleted.deleted
    unfold getCollection
    split
    · exact h
    · exact h.fetch_keeps hr _ key lock
  | saveItem item token clearCollections extra =>
    obtain ⟨rfl, htoken, hapart⟩ := hc
    exact h.saveItem_keeps hr hapart htoken extra
  | saveCollection owner items lockKey collectionKey token isGlobal =>
    obtain ⟨rfl, htoken⟩ := hc
    refine h.on hr (calls_saveCollection (fun _ _ => trivial) fun value _ => ?_)
    by_cases hk : lockKey ∈ deleted.deleted
    · exact .inl ⟨hk, htoken⟩
    · exact .inr ⟨hk, fun k hmem => List.mem_singleton.1 hmem ▸ hk⟩
  | saveMember item => exact h.saveMember_keeps hr hc
  | saveMembers items => exact h.saveMembers_keeps hr hc
  | deleteItem item token => exact False.elim hc
  | flush tombstones => exact False.elim hc

theorem Memory.now_serve (e : LibraryStep) : m.now ≤ (m.serve cfg policy e).now := by
  cases e with
  | call c => exact Nat.le_of_eq (Operation.on_rest cfg hr (c.operation policy) m).1.symm
  | elapse duration => exact Nat.le_add_right _ _

theorem Memory.now_served (steps : List LibraryStep) :
    m.now ≤ (m.served cfg policy steps).now := by
  induction steps generalizing m with
  | nil => exact Nat.le_refl _
  | cons e rest ih => exact Nat.le_trans (Memory.now_serve hr e) ih

/-- Tombstones last through a run until they expire if every call of the run spares them, given what
else the run preserves. -/
theorem Memory.Buried.served_of {steps : List LibraryStep} (h : m.Buried cfg since ks)
    {P : Memory → Prop} (hP : P m) (helapse : ∀ m duration, P m → P (m.advance duration))
    (hcalls : ∀ c m, .call c ∈ steps → P m → m.Buried cfg since ks →
      P (m.serve cfg policy (.call c)) ∧ (m.serve cfg policy (.call c)).Buried cfg since ks)
    (hlive : (Slot.grave cfg since).isLive (m.served cfg policy steps).now = true) :
    P (m.served cfg policy steps) ∧ (m.served cfg policy steps).Buried cfg since ks := by
  induction steps generalizing m with
  | nil => exact ⟨hP, h⟩
  | cons e rest ih =>
    have hrest (c : LibraryCall) (m : Memory) (hc : .call c ∈ rest) :=
      hcalls c m (List.mem_cons_of_mem _ hc)
    cases e with
    | call c =>
      obtain ⟨hP', h'⟩ := hcalls c m List.mem_cons_self hP h
      exact ih h' hP' hrest hlive
    | elapse duration =>
      refine ih (h.advance (Slot.isLive_of_le ?_ hlive)) (helapse m duration hP) hrest hlive
      exact Memory.now_served (m := m.advance duration) hr rest

theorem Memory.Buried.served {steps : List LibraryStep} (h : m.Buried cfg since deleted.deleted)
    (hsteps : ∀ c, .call c ∈ steps → c.SparesDeleted policy deleted)
    (hlive : (Slot.grave cfg since).isLive (m.served cfg policy steps).now = true) :
    (m.served cfg policy steps).Buried cfg since deleted.deleted :=
  (h.served_of hr (P := fun _ => True) trivial (fun _ _ _ => trivial)
    (fun c _ hc _ hm => ⟨trivial, hm.call hr (hsteps c hc)⟩) hlive).2

end Runs

theorem Memory.Buried.misses (h : m.Buried cfg since ks) (hk : k ∈ ks) (c : LibraryCall) :
    c.Misses cfg policy m k := by
  cases c with
  | getItem T key lock =>
    rintro rfl
    unfold getItem
    split
    · rfl
    · rw [h.fetch_on servableItem hk lock]
  | getItemUnlessModified T key modifiedKey lock =>
    rintro (rfl | rfl)
    · exact h.getItemUnlessModified_miss (.inl hk) lock
    · exact h.getItemUnlessModified_miss (.inr hk) lock
  | getItems T keys lock => exact fun i hi => h.getItems_miss hk hi lock
  | getCollection T key lock =>
    rintro rfl
    unfold getCollection
    split
    · rfl
    · rw [h.fetch_on servableItems hk lock]
  | _ => trivial

/-- After a deletion under a lock, whatever readers and late savers do before its tombstones expire,
every key of the deleted item still holds the tombstone, and whoever reads it is told of a miss and
gets no lock. -/
theorem deleted_item_stays_deleted (hr : cfg.rules = Rules.standard) {α : Type} [Cacheable α]
    {item : α} {token : Token} {m' : Memory} (htoken : token ≠ Token.noLock)
    (hdelete : (deleteItem policy item token).on cfg m = (.ok (), m'))
    {steps : List LibraryStep}
    (hsteps : ∀ c, .call c ∈ steps → c.SparesDeleted policy (ItemKeys.of policy.names item))
    (htime : cfg.tombstoneTtl = 0 ∨
      (m'.served cfg policy steps).now < m.now + cfg.tombstoneTtl)
    (hk : k ∈ (ItemKeys.of policy.names item).deleted) :
    (m'.served cfg policy steps).content k = some Token.tombstone ∧
      ∀ c : LibraryCall, c.Misses cfg policy (m'.served cfg policy steps) k := by
  rw [deleteItem_on cfg m item htoken] at hdelete
  obtain ⟨-, rfl⟩ := Prod.mk.inj hdelete
  have hburied := (Memory.buried_of_deleteValue m (ItemKeys.of policy.names item).deleted).served
    hr hsteps ((Slot.grave_isLive_iff cfg m.now _).2 htime)
  exact ⟨hburied.content hk, hburied.misses hk⟩

section Example
open Catalogue

/-- A node with a key in every role that a deletion reaches. -/
def keyedNode : Node where
  key := "k"
  secondary := ["s"]
  global := some "g"
  collection := some "c"
  deps := none
  dependsOn := ["l"]
  modified := some "u"
  invalid := false

/-- A reader locks the node, and then a writer locks it for deletion. -/
def deletionScenario : Memory :=
  Memory.served {} lasting {} [.call (.getItem ⟨Node⟩ "k" true),
    .call (.takeItemLock (T := ⟨Node⟩) .delete keyedNode)]

/-- The reader comes back under the lock that was broken, and others read and wait. -/
def lateReaders : List LibraryStep :=
  [.call (.saveItem (T := ⟨Node⟩) keyedNode (Token.issue LockKind.read.name 0) false []),
    .elapse 1, .call (.saveMembers (T := ⟨Node⟩) [keyedNode]),
    .call (.getItemUnlessModified ⟨Node⟩ "k" "u" true)]

def deletion : Except CacheError Unit × Memory :=
  (deleteItem lasting keyedNode (Token.issue LockKind.delete.name 1)).on {} deletionScenario

/-- Under its secondary key the node stays deleted, too. -/
theorem deleted_item_stays_deleted_of_node :
    (Memory.served {} lasting deletion.2 lateReaders).content "s" = some Token.tombstone := by
  have htoken := Token.issue_ne_noLock LockKind.delete.name 1
  have hdelete : (deleteItem lasting keyedNode (Token.issue LockKind.delete.name 1)).on {}
      deletionScenario = (.ok (), deletion.2) :=
    Prod.ext (by rw [deleteItem_on {} deletionScenario keyedNode htoken]) rfl
  have hsteps : ∀ c, .call c ∈ lateReaders →
      c.SparesDeleted lasting (ItemKeys.of lasting.names keyedNode) := by
    intro c hc
    have hstale : Token.issue LockKind.read.name 0 ≠ Token.tombstone :=
      Token.issue_lock_ne_tombstone .read 0
    simp only [lateReaders, List.mem_cons, List.not_mem_nil, or_false, reduceCtorEq, false_or,
      LibraryStep.call.injEq] at hc
    rcases hc with rfl | rfl | rfl
    · exact ⟨rfl, hstale, .inl rfl⟩
    · exact fun item hitem => .inl (by rw [List.mem_singleton.1 hitem])
    · trivial
  have htime : (Memory.served {} lasting deletion.2 lateReaders).now <
      deletionScenario.now + ({} : MemorySettings).tombstoneTtl := by
    decide +kernel
  exact (deleted_item_stays_deleted rfl htoken hdelete hsteps (.inr htime) (by decide)).1

/-- Without a lock a deletion reports success and deletes nothing: the next reader gets a lock. -/
theorem deletion_without_lock_deletes_nothing :
    ((deleteItem lasting keyedNode Token.noLock).on {} {}).1 = .ok () ∧
    ((deleteItem lasting keyedNode Token.noLock).on {} {}).2.content "k" ≠
      some Token.tombstone ∧
    ((getItem lasting "k" true : Operation (Found Node)).on {}
      ((deleteItem lasting keyedNode Token.noLock).on {} {}).2).1 =
        .miss (Token.issue LockKind.read.name 0) := by
  refine ⟨rfl, by decide +kernel, rfl⟩

end Example

end CacheCoherence
