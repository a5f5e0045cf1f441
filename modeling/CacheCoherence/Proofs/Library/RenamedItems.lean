import CacheCoherence.Proofs.Library.DeletedOwners
import Mathlib.Data.List.Induction

/-!
# Renamed items leave no value behind

The versions of an item share its primary key and its dependency list, but each may have secondary
keys of its own. A save registers the secondary keys with the item's list, and a change clears the
list before that, so that nothing stays under the keys of an earlier version. The registration may
fail without a trace where the list holds a tombstone, which a change clears away and any other save
does not. So the list covers every value under a secondary key but those that a save without a
change wrote while the tombstone stood.
-/
namespace CacheCoherence
open Operation
variable {cfg : MemorySettings} {policy : Policy} {isList : Key → Prop} {m m' : Memory}
  {primary list k : Key} {slot : Slot}

section OwnList
variable {α : Type} [Cacheable α] {item : α} {token : Token} {clearCollections : Bool}
  {extra : List Key} {outcome : SaveOutcome}
  (hr : cfg.rules = Rules.standard) (hroles : m.Roles isList)
  (hlists : ∀ k ∈ listKeys policy.names item, isList k)
  (hslots : ∀ k ∈ (ItemKeys.of policy.names item).deleted, ¬ isList k)
  (hextra : ∀ k ∈ extra, ¬ isList k)
  (hown : Cacheable.dependenciesKey? policy.names item = some list)
include hr hlists hslots

section Register
include hroles hown

/-- The registration of the secondary keys reaches the item's own list unless that holds a
tombstone. -/
theorem covers_own_of_registerItem {failed : Bool} (httl : Cacheable.ttl α policy.ttls ≠ skipTtl)
    (hop : (registerItem policy item (ItemKeys.of policy.names item)
      (Cacheable.ttl α policy.ttls)).on cfg m = (failed, m'))
    (hopen : m.content list ≠ some Token.tombstone)
    (hk : k ∈ (ItemKeys.of policy.names item).secondary) (text : String) :
    m'.Covers list k (.lasting m.now text (Cacheable.ttl α policy.ttls)) := by
  have hisList : isList list := hlists list (List.mem_append_left _ (Option.mem_toList.2 hown))
  have hkeys : (ItemKeys.of policy.names item).dependencies = some list := hown
  have hnonempty : (ItemKeys.of policy.names item).secondary.isEmpty = false :=
    List.isEmpty_eq_false_iff.2 (List.ne_nil_of_mem hk)
  rw [registerItem_on] at hop
  simp only [hkeys, hnonempty, Bool.false_eq_true, if_false] at hop
  obtain ⟨-, rfl⟩ := Prod.mk.inj hop
  have hadds : (Call.addDependency (Cacheable.dependencyKeys policy.names item)
      (ItemKeys.of policy.names item).cached (Cacheable.ttl α policy.ttls)).Respects isList
      policy.names.root :=
    Call.respects_addDependency httl (fun d hd => hlists d (List.mem_append_right _ hd))
      fun d hd => hslots d (ItemKeys.mem_deleted_of_cached hd)
  have hroles₁ := hroles.perform hr hadds
  have hnow₁ := (Memory.perform_rest cfg m hr (.addDependency
    (Cacheable.dependencyKeys policy.names item) (ItemKeys.of policy.names item).cached
    (Cacheable.ttl α policy.ttls))).1
  have hopen₁ := Memory.content_ne_tombstone_perform hr hopen (c := .addDependency
    (Cacheable.dependencyKeys policy.names item) (ItemKeys.of policy.names item).cached
    (Cacheable.ttl α policy.ttls)) (fun hmem => by cases hmem) fun key hclear => by cases hclear
  rw [← hnow₁]
  refine (hroles₁ list hisList).covers_of_added httl
    (Memory.addDependency_answer_ok (P := fun k => ¬ isList k) (fun own hmem => ?_) _ _)
    List.mem_cons_self hk text
  rw [List.mem_singleton.1 hmem]
  exact ⟨hroles₁ list hisList, hopen₁⟩

include hextra

/-- A save of an item that ends stored has the item's own list cover what it wrote under a secondary
key, unless it is no change and the list holds a tombstone. -/
theorem covers_own_of_saveItem
    (hop : (saveItem policy item token clearCollections extra).on cfg m = (.stored, m'))
    (hopen : clearCollections = true ∨ m.content list ≠ some Token.tombstone)
    (hk : k ∈ (ItemKeys.of policy.names item).secondary) (hlive : m'.live? k = some slot)
    (hvalue : isToken slot.text = false) : m'.Covers list k slot := by
  obtain ⟨document, m₁, -, httl, rfl, hroles₁, hopen₁, hregister⟩ :=
    registration_of_saveItem hr hroles hlists hslots hextra hop (List.mem_cons_of_mem _ hk) hlive
      hvalue
  exact covers_own_of_registerItem hr hroles₁ hlists hslots hown httl hregister
    (hopen₁ list hown hopen) hk document.compact

omit hlists hslots hextra in
/-- The invalidation of a change takes away every value that the item's own list covers. -/
theorem valueless_of_invalidateCollections (hisList : isList list)
    (hdeleted : ∀ k ∈ (ItemKeys.of policy.names item).stale extra, ¬ isList k)
    (h : m.Covers list k slot) :
    ((invalidateCollections (ItemKeys.of policy.names item) extra).on cfg m).2.Valueless k := by
  have hkeys : (ItemKeys.of policy.names item).dependencies = some list := hown
  rw [invalidateCollections_on cfg _ _ extra hkeys]
  have hdelete : (Call.deleteValue ((ItemKeys.of policy.names item).stale extra) false
      true).Respects isList policy.names.root := Call.OnSlots.respects trivial hdeleted
  exact (h.perform hr hdelete hroles hisList fun hs => hs).valueless_of_cleared false

/-- A change that ends stored takes away every value that the item's own list covered. -/
theorem valueless_of_saveItem
    (hop : (saveItem policy item token true extra).on cfg m = (.stored, m'))
    (hkey : ¬ isList k) (h : m.Covers list k slot) : m'.Valueless k := by
  have hisList : isList list := hlists list (List.mem_append_left _ (Option.mem_toList.2 hown))
  obtain ⟨document, m₁, -, httl, hm₁, -, hsettle⟩ := saveItem_stored hop
  have hwrite : (Call.setValue (ItemKeys.of policy.names item).primary
      (ItemKeys.of policy.names item).cached document.compact token
      (Cacheable.ttl α policy.ttls)).Respects isList policy.names.root :=
    respects_write hslots _ _ _
  have hroles₁ : m₁.Roles isList := hm₁ ▸ hroles.perform hr hwrite
  have hcovers₁ : m₁.Covers list k slot := hm₁ ▸ h.perform hr hwrite hroles hisList fun hs => hs
  have hdeleted (d : Key) (hd : d ∈ (ItemKeys.of policy.names item).stale extra) : ¬ isList d := by
    rcases ItemKeys.mem_deleted_of_stale hd with hdeleted | hmem
    · exact hslots d hdeleted
    · exact hextra d hmem
  have hcleared := valueless_of_invalidateCollections hr hroles₁ hown hisList hdeleted hcovers₁
  have hcalls : Calls (fun q => q.Respects isList policy.names.root ∧ ¬ q.Stores)
      (registerItem policy item (ItemKeys.of policy.names item) (Cacheable.ttl α policy.ttls)) :=
    (calls_registerItem policy item true extra).mono fun _ hq =>
      respects_settle hlists hslots httl hextra hq
  have hregister := registerItem_of_settled hsettle
  rw [if_pos rfl] at hregister
  have hunwritten := Memory.unwritten_on (m := ((invalidateCollections
    (ItemKeys.of policy.names item) extra).on cfg m₁).2) hr hcalls hkey
  rw [hregister] at hunwritten
  exact hunwritten.valueless hcleared

end Register

include hextra in
/-- A save of an item leaves no value under other keys. -/
theorem unwritten_of_saveItem
    (hop : (saveItem policy item token clearCollections extra).on cfg m = (outcome, m'))
    (hkey : ¬ isList k) (hk : k ∉ (ItemKeys.of policy.names item).cached) : m.Unwritten m' k := by
  rcases saveItem_cases hr hop with ⟨rfl, -⟩ | ⟨document, -, httl, ⟨hrefused, -, rfl⟩ |
    ⟨hstore, failed, settled, hsettle, hend⟩⟩
  · exact .inl rfl
  · exact Memory.unwritten_of_refused hr hrefused _ _ _
  have hwritten := Memory.live?_setValue_stored cfg (ItemKeys.of policy.names item).cached
    document.compact (Cacheable.ttl α policy.ttls) hr hstore k
  rw [if_neg hk] at hwritten
  have hsettled := Memory.unwritten_on hr (m := (m.setValue cfg
      (ItemKeys.of policy.names item).primary (ItemKeys.of policy.names item).cached
      document.compact token (Cacheable.ttl α policy.ttls)).memory)
    (calls_settleItem_respects clearCollections hlists hslots hextra httl policy.names.root) hkey
  rw [hsettle] at hsettled
  have hkept : m.Unwritten settled k := Memory.Unwritten.trans (.inl hwritten) hsettled
  rcases hend with ⟨-, -, rfl⟩ | ⟨-, -, rfl⟩
  · exact hkept
  · refine hkept.trans (.inl ?_)
    rw [Memory.live?_deleteValue_forced, if_neg hk]

end OwnList

section Versions

/-- An item is a version of the one with this primary key and this dependency list. -/
def IsVersion {α : Type} [Cacheable α] (policy : Policy) (primary list : Key) (item : α) : Prop :=
  Cacheable.primaryKey policy.names item = primary ∧
    Cacheable.dependenciesKey? policy.names item = some list

/-- A call locks, unlocks, saves or deletes a version of an item, or it reads. -/
def LibraryCall.OnVersions (policy : Policy) (primary list : Key) : LibraryCall → Prop
  | .takeItemLock _ item | .releaseItemLock _ item _ | .saveItem item _ _ _ | .deleteItem item _ =>
    IsVersion policy primary list item
  | .getItem .. | .getItemUnlessModified .. | .getItems .. | .getCollection .. => True
  | _ => False

variable (cfg policy list k slot) in
/-- A run in which a save without a change ended stored while the item's list held a tombstone, and
what it wrote under a secondary key has stayed in the slot since. -/
def SavedUnlisted (steps : List LibraryStep) : Prop :=
  ∃ (before : List LibraryStep) (T : ItemType) (item : T.Item) (token : Token) (extra : List Key)
    (later : List LibraryStep),
    steps = before ++ .call (.saveItem item token false extra) :: later ∧
    ((saveItem policy item token false extra).on cfg (Memory.served cfg policy {} before)).1 =
      .stored ∧
    k ∈ Cacheable.secondaryKeys policy.names item ∧
    (Memory.served cfg policy {} before).content list = some Token.tombstone ∧
    (Memory.served cfg policy {} (before ++ [.call (.saveItem item token false extra)])).Stays cfg
      policy k slot later

theorem SavedUnlisted.snoc {steps : List LibraryStep} {e : LibraryStep}
    (h : SavedUnlisted cfg policy list k slot steps)
    (hlive : (Memory.served cfg policy {} (steps ++ [e])).live? k = some slot) :
    SavedUnlisted cfg policy list k slot (steps ++ [e]) := by
  obtain ⟨before, T, item, token, extra, later, rfl, hstored, hk, htombstone, hstays⟩ := h
  refine ⟨before, T, item, token, extra, later ++ [e], by simp, hstored, hk, htombstone,
    hstays.append ?_⟩
  have hserved : Memory.served cfg policy {} (before ++
      .call (.saveItem item token false extra) :: later ++ [e]) =
      ((Memory.served cfg policy {} (before ++ [.call (.saveItem item token false extra)])).served
        cfg policy later).serve cfg policy e := by
    simp [Memory.served_append]
  exact ⟨hstays.last, hserved ▸ hlive⟩

variable (cfg policy isList primary list) in
/-- After a run the item's list covers every value that does not lie under its primary key, apart
from those that were saved unlisted. -/
def Accounted (steps : List LibraryStep) : Prop :=
  ∀ k slot, ¬ isList k → k ≠ primary →
    (Memory.served cfg policy {} steps).live? k = some slot → isToken slot.text = false →
    (Memory.served cfg policy {} steps).Covers list k slot ∨
      SavedUnlisted cfg policy list k slot steps

section Step
variable {steps : List LibraryStep} {e : LibraryStep}

/-- A step that writes no value under a key, and ends no cover but for the value, leaves a value
there accounted for. -/
theorem Accounted.of_unwritten (h : Accounted cfg policy isList primary list steps)
    (hkey : ¬ isList k) (hne : k ≠ primary)
    (hunwritten : (Memory.served cfg policy {} steps).Unwritten
      (Memory.served cfg policy {} (steps ++ [e])) k)
    (hcovers : (Memory.served cfg policy {} steps).Covers list k slot →
      (Memory.served cfg policy {} (steps ++ [e])).Covers list k slot ∨
        (Memory.served cfg policy {} (steps ++ [e])).Valueless k)
    (hlive : (Memory.served cfg policy {} (steps ++ [e])).live? k = some slot)
    (hvalue : isToken slot.text = false) :
    (Memory.served cfg policy {} (steps ++ [e])).Covers list k slot ∨
      SavedUnlisted cfg policy list k slot (steps ++ [e]) := by
  rcases h k slot hkey hne (Memory.live?_of_unwritten hunwritten hlive hvalue) hvalue with
    hcovered | hunlisted
  · rcases hcovers hcovered with hcovered' | hnone
    · exact .inl hcovered'
    · exact absurd hnone (Memory.not_valueless hlive hvalue)
  · exact .inr (hunlisted.snoc hlive)

variable (hr : cfg.rules = Rules.standard) (hlist : isList list)
  (hroles : (Memory.served cfg policy {} steps).Roles isList)
include hr hlist hroles

theorem Accounted.saveItem {T : ItemType} {item : T.Item} {token : Token} {clearCollections : Bool}
    {extra : List Key} (hversion : IsVersion policy primary list item)
    (hc : (LibraryCall.saveItem item token clearCollections extra).Separates policy isList)
    (h : Accounted cfg policy isList primary list steps) :
    Accounted cfg policy isList primary list
      (steps ++ [.call (.saveItem item token clearCollections extra)]) := by
  intro k slot hkey hne hlive hvalue
  obtain ⟨hlists, hslots, hextra⟩ := hc.keys_of_saveItem
  have hserved : Memory.served cfg policy {}
      (steps ++ [.call (.saveItem item token clearCollections extra)]) =
      ((CacheCoherence.saveItem policy item token clearCollections extra).on cfg
        (Memory.served cfg policy {} steps)).2 := Memory.served_append ..
  cases hop : (CacheCoherence.saveItem policy item token clearCollections extra).on cfg
      (Memory.served cfg policy {} steps) with
  | mk outcome m' =>
  rw [hop] at hserved
  have hkept (hunwritten : (Memory.served cfg policy {} steps).Unwritten m' k) :=
    h.of_unwritten hkey hne (hserved ▸ hunwritten)
      (fun hcovers => hserved ▸ hcovers.saveItem hr hroles hlists hslots hextra hlist hkey
        (show isUnder "" k = true from rfl) hop) hlive hvalue
  by_cases hcached : k ∈ (ItemKeys.of policy.names item).cached
  · rcases saveItem_stored_or_unwritten hr hop hcached with rfl | ⟨-, hunwritten⟩
    · have hsecondary : k ∈ (ItemKeys.of policy.names item).secondary :=
        (List.mem_cons.1 hcached).resolve_left fun hprimary => hne (hprimary.trans hversion.1)
      by_cases hopen : clearCollections = true ∨
          (Memory.served cfg policy {} steps).content list ≠ some Token.tombstone
      · left
        rw [hserved] at hlive ⊢
        exact covers_own_of_saveItem hr hroles hlists hslots hextra hversion.2 hop hopen hsecondary
          hlive hvalue
      · -- Nothing reports that the secondary keys were not registered.
        obtain ⟨hclear, htombstone⟩ := not_or.1 hopen
        obtain rfl : clearCollections = false := Bool.eq_false_iff.2 hclear
        exact .inr ⟨steps, T, item, token, extra, [], rfl, congrArg Prod.fst hop, hsecondary,
          Classical.not_not.1 htombstone, hlive⟩
    · exact hkept hunwritten
  · exact hkept (unwritten_of_saveItem hr hlists hslots hextra hop hkey hcached)

/-- Every step of clients of the item's versions leaves all values accounted for. -/
theorem Accounted.snoc
    (he : ∀ c, e = .call c → c.OnVersions policy primary list ∧ c.Separates policy isList)
    (h : Accounted cfg policy isList primary list steps) :
    Accounted cfg policy isList primary list (steps ++ [e]) := by
  cases e with
  | elapse duration =>
    intro k slot hkey hne hlive hvalue
    have hserved : Memory.served cfg policy {} (steps ++ [.elapse duration]) =
        (Memory.served cfg policy {} steps).advance duration := Memory.served_append ..
    rw [hserved] at hlive
    have hbefore := Memory.live?_of_live?_advance hlive
    rcases h k slot hkey hne hbefore hvalue with hcovers | hunlisted
    · left
      rw [hserved]
      exact hcovers.advance (Memory.isLive_of_live? hlive)
    · exact .inr (hunlisted.snoc (hserved ▸ hlive))
  | call c =>
    obtain ⟨hversions, hc⟩ := he c rfl
    have hserved : Memory.served cfg policy {} (steps ++ [.call c]) =
        ((c.operation policy).on cfg (Memory.served cfg policy {} steps)).2 :=
      Memory.served_append ..
    have hquiet (hflush : ∀ tombstones, c ≠ .flush tombstones)
        (hstores : ∀ q, c.Allows q → ¬ q.Stores) :
        Accounted cfg policy isList primary list (steps ++ [.call c]) := by
      intro k slot hkey hne hlive hvalue
      have hcalls : Calls (fun q => q.Respects isList "" ∧ ¬ q.Stores) (c.operation policy) :=
        (LibraryCall.calls_of_separates hc fun tombstones h => absurd h (hflush tombstones)).mono
          fun q hq => ⟨hq.1, hstores q hq.2⟩
      refine h.of_unwritten hkey hne (hserved ▸ Memory.unwritten_on hr hcalls hkey)
        (fun hcovers => ?_) hlive hvalue
      rw [hserved]
      exact Memory.Covers.on_or_valueless hr hroles hlist hkey rfl hcalls (.inl hcovers)
    cases c with
    | saveItem item token clearCollections extra => exact h.saveItem hr hlist hroles hversions hc
    | takeCollectionLock | releaseCollectionLock | saveCollection | saveMember | saveMembers
    | flush => exact False.elim hversions
    | _ => exact hquiet (fun _ h => by cases h) fun q hq => hq

end Step

theorem accounted_of_versions (hr : cfg.rules = Rules.standard) (hlist : isList list)
    (steps : List LibraryStep)
    (hsteps : ∀ c, .call c ∈ steps → c.OnVersions policy primary list ∧ c.Separates policy isList) :
    Accounted cfg policy isList primary list steps := by
  induction steps using List.reverseRecOn with
  | nil =>
    intro k slot hkey hne hlive
    cases hlive
  | append_singleton steps e ih =>
    have hinit : ({} : Memory).Roles isList := fun list hlist slot hslot => by cases hslot
    have hbefore (c : LibraryCall) (hc : .call c ∈ steps) := hsteps c (List.mem_append_left _ hc)
    refine (ih hbefore).snoc hr hlist
      (hinit.served_of_separates hr fun c hc => (hbefore c hc).2) ?_
    rintro c rfl
    exact hsteps c (List.mem_append_right _ List.mem_cons_self)

theorem exists_value_of_getItem {α : Type} [Cacheable α] {lock : Bool} {found : α}
    (h : ((getItem policy k lock : Operation (Found α)).on cfg m).1.item = some found) :
    ∃ slot, m.live? k = some slot ∧ isToken slot.text = false := by
  unfold getItem at h
  split at h
  · cases h
  · obtain ⟨raw, hcontent, hvalue, -⟩ := exists_value_of_hit cfg servableItem m h
    rw [Memory.content_eq_live?, Option.map_eq_some_iff] at hcontent
    obtain ⟨slot, hlive, rfl⟩ := hcontent
    exact ⟨slot, hlive, hvalue⟩

/-- In every run of clients of an item's versions, a change that ends stored leaves no value outside
the keys of the version that it saves, and no read elsewhere hits, apart from what was saved without
a change while the item's list held a tombstone and has stayed since. -/
theorem renamed_item_leaves_unlisted_only (hr : cfg.rules = Rules.standard) (hlist : isList list)
    {T : ItemType} {item : T.Item} {token : Token} {extra : List Key} {steps : List LibraryStep}
    (hsteps : ∀ c, .call c ∈ steps ++ [.call (.saveItem item token true extra)] →
      c.OnVersions policy primary list ∧ c.Separates policy isList)
    (hstored : ((saveItem policy item token true extra).on cfg
      (Memory.served cfg policy {} steps)).1 = .stored)
    (hkey : ¬ isList k) (hk : k ∉ (ItemKeys.of policy.names item).cached) :
    (∀ slot,
      (Memory.served cfg policy {} (steps ++ [.call (.saveItem item token true extra)])).live? k =
        some slot → isToken slot.text = false →
      SavedUnlisted cfg policy list k slot
        (steps ++ [.call (.saveItem item token true extra)])) ∧
    ∀ (β : Type) [Cacheable β] (lock : Bool) (found : β),
      ((getItem policy k lock : Operation (Found β)).on cfg (Memory.served cfg policy {}
        (steps ++ [.call (.saveItem item token true extra)]))).1.item = some found →
      ∃ slot, SavedUnlisted cfg policy list k slot
        (steps ++ [.call (.saveItem item token true extra)]) := by
  obtain ⟨hversion, hc⟩ := hsteps _ (List.mem_append_right _ List.mem_cons_self)
  have hbefore (c : LibraryCall) (hc : .call c ∈ steps) := hsteps c (List.mem_append_left _ hc)
  have hinit : ({} : Memory).Roles isList := fun list hlist slot hslot => by cases hslot
  have hroles := hinit.served_of_separates hr fun c hc => (hbefore c hc).2
  obtain ⟨hlists, hslots, hextra⟩ := hc.keys_of_saveItem
  have hserved : Memory.served cfg policy {} (steps ++ [.call (.saveItem item token true extra)]) =
      ((saveItem policy item token true extra).on cfg (Memory.served cfg policy {} steps)).2 :=
    Memory.served_append ..
  have hop : (saveItem policy item token true extra).on cfg (Memory.served cfg policy {} steps) =
      (.stored, Memory.served cfg policy {}
        (steps ++ [.call (.saveItem item token true extra)])) := Prod.ext hstored hserved.symm
  have hunwritten := unwritten_of_saveItem hr hlists hslots hextra hop hkey hk
  have hslot (slot : Slot)
      (hlive : (Memory.served cfg policy {}
        (steps ++ [.call (.saveItem item token true extra)])).live? k = some slot)
      (hvalue : isToken slot.text = false) :
      SavedUnlisted cfg policy list k slot
        (steps ++ [.call (.saveItem item token true extra)]) := by
    have hne : k ≠ primary := fun h => hk (h ▸ hversion.1 ▸ List.mem_cons_self)
    rcases accounted_of_versions hr hlist steps hbefore k slot hkey hne
      (Memory.live?_of_unwritten hunwritten hlive hvalue) hvalue with hcovers | hunlisted
    · have hnone := valueless_of_saveItem hr hroles hlists hslots hextra hversion.2 hop hkey hcovers
      exact absurd hnone (Memory.not_valueless hlive hvalue)
    · exact hunlisted.snoc hlive
  refine ⟨hslot, fun β _ lock found hhit => ?_⟩
  obtain ⟨slot, hlive, hvalue⟩ := exists_value_of_getItem hhit
  exact ⟨slot, hslot slot hlive hvalue⟩

section Example
open Catalogue

def namedNode (name : Key) : Node where
  key := "test:k"
  secondary := [name]
  global := none
  collection := none
  deps := some "test:d"
  dependsOn := []
  modified := none
  invalid := false

/-- A client of the node uses its keys in their roles. -/
def OnNode (c : LibraryCall) : Prop :=
  c.OnVersions lasting "test:k" "test:d" ∧ c.Separates lasting (· = "test:d")

theorem onNode_of_namedNode {name : Key} (hname : name ≠ "test:d") :
    (∀ kind, OnNode (.takeItemLock (T := ⟨Node⟩) kind (namedNode name))) ∧
      (∀ kind token, OnNode (.releaseItemLock (T := ⟨Node⟩) kind (namedNode name) token)) ∧
      ∀ token clearCollections,
        OnNode (.saveItem (T := ⟨Node⟩) (namedNode name) token clearCollections []) := by
  have hversion : IsVersion lasting "test:k" "test:d" (namedNode name) := ⟨rfl, rfl⟩
  have hlists (k : Key) (hk : k ∈ listKeys lasting.names (namedNode name)) : k = "test:d" :=
    List.mem_singleton.1 hk
  have hslots (k : Key) (hk : k ∈ (ItemKeys.of lasting.names (namedNode name)).deleted) :
      ¬ k = "test:d" := by
    have hkeys : (ItemKeys.of lasting.names (namedNode name)).deleted = ["test:k", name] := rfl
    rw [hkeys, List.mem_cons, List.mem_singleton] at hk
    rcases hk with rfl | rfl
    · decide
    · exact hname
  refine ⟨fun kind => ⟨hversion, hlists, hslots⟩, fun kind token => ⟨hversion, ?_, hslots⟩,
    fun token clearCollections => ⟨hversion, hlists, fun k hk => hslots k ?_⟩⟩
  · rintro k ⟨⟩
  · rwa [LibraryCall.slots, List.append_nil] at hk

/-- The node is saved as a change under one name and then locked under another. -/
def changedRun : List LibraryStep :=
  [.call (.takeItemLock (T := ⟨Node⟩) .create (namedNode "test:a")),
    .call (.saveItem (T := ⟨Node⟩) (namedNode "test:a") (Token.issue LockKind.create.name 0) true
      []),
    .call (.takeItemLock (T := ⟨Node⟩) .update (namedNode "test:b"))]

/-- A deletion of the node is given up, then a reader loads the node and saves it without a change,
and the node is locked under another name. -/
def abandonedRun : List LibraryStep :=
  [.call (.takeItemLock (T := ⟨Node⟩) .delete (namedNode "test:a")),
    .call (.releaseItemLock (T := ⟨Node⟩) .delete (namedNode "test:a")
      (Token.issue LockKind.delete.name 0)),
    .call (.takeItemLock (T := ⟨Node⟩) .read (namedNode "test:a")),
    .call (.saveItem (T := ⟨Node⟩) (namedNode "test:a") (Token.issue LockKind.read.name 1) false
      []),
    .call (.takeItemLock (T := ⟨Node⟩) .update (namedNode "test:b"))]

def nameChange (n : Nat) : LibraryCall :=
  .saveItem (T := ⟨Node⟩) (namedNode "test:b") (Token.issue LockKind.update.name n) true []

theorem former_name_not_cached :
    "test:a" ∉ (ItemKeys.of lasting.names (namedNode "test:b")).cached := by decide

/-- Once the node is saved under its new name, its old name leads nowhere. -/
theorem renamed_item_leaves_unlisted_only_of_namedNode :
    ((saveItem lasting (namedNode "test:b") (Token.issue LockKind.update.name 1) true []).on {}
        (Memory.served {} lasting {} changedRun)).1 = .stored ∧
      ∀ lock, ((getItem lasting "test:a" lock : Operation (Found Node)).on {}
        (Memory.served {} lasting {} (changedRun ++ [.call (nameChange 1)]))).1.item = none := by
  have hstored : ((saveItem lasting (namedNode "test:b") (Token.issue LockKind.update.name 1) true
      []).on {} (Memory.served {} lasting {} changedRun)).1 = .stored := by
    decide +kernel
  refine ⟨hstored, fun lock => Option.eq_none_iff_forall_ne_some.2 fun found hhit => ?_⟩
  have ha := @onNode_of_namedNode "test:a" (by decide)
  have hb := @onNode_of_namedNode "test:b" (by decide)
  have hsteps (c : LibraryCall) (hc : .call c ∈ changedRun ++ [.call (nameChange 1)]) :
      OnNode c := by
    simp only [changedRun, nameChange, List.cons_append, List.nil_append, List.mem_cons,
      List.not_mem_nil, or_false, LibraryStep.call.injEq] at hc
    rcases hc with rfl | rfl | rfl | rfl
    · exact ha.1 _
    · exact ha.2.2 _ _
    · exact hb.1 _
    · exact hb.2.2 _ _
  have hkey : ¬ "test:a" = "test:d" := by decide
  unfold nameChange at hhit
  obtain ⟨slot, before, T, item, token, extra, later, hunlisted, -⟩ :=
    (@renamed_item_leaves_unlisted_only {} lasting (· = "test:d") "test:k" "test:d" "test:a" rfl rfl
      ⟨Node⟩ (namedNode "test:b") (Token.issue LockKind.update.name 1) [] changedRun hsteps hstored
      hkey former_name_not_cached).2 Node lock found hhit
  have hmem : .call (.saveItem item token false extra) ∈
      changedRun ++ [.call (nameChange 1)] := by
    rw [nameChange, hunlisted]
    exact List.mem_append_right _ List.mem_cons_self
  simp only [changedRun, nameChange, List.cons_append, List.nil_append, List.mem_cons,
    List.not_mem_nil, or_false, LibraryStep.call.injEq] at hmem
  rcases hmem with h | h | h | h <;> cases h

/-- The tombstone that an abandoned deletion leaves in the node's list keeps a save without a change
from registering the node's name there. The next change does not find it, and readers are served the
node under its former name. -/
theorem former_name_served_after_abandoned_deletion :
    (∀ c, .call c ∈ abandonedRun ++ [.call (nameChange 2)] → OnNode c) ∧
      ((saveItem lasting (namedNode "test:b") (Token.issue LockKind.update.name 2) true []).on {}
        (Memory.served {} lasting {} abandonedRun)).1 = .stored ∧
      "test:a" ∉ (ItemKeys.of lasting.names (namedNode "test:b")).cached ∧
      ((getItem lasting "test:a" false : Operation (Found Node)).on {}
        (Memory.served {} lasting {} (abandonedRun ++ [.call (nameChange 2)]))).1 =
        .hit (namedNode "test:a") := by
  refine ⟨fun c hc => ?_, by decide +kernel, by decide, by decide +kernel⟩
  have ha := @onNode_of_namedNode "test:a" (by decide)
  have hb := @onNode_of_namedNode "test:b" (by decide)
  simp only [abandonedRun, nameChange, List.cons_append, List.nil_append, List.mem_cons,
    List.not_mem_nil, or_false, LibraryStep.call.injEq] at hc
  rcases hc with rfl | rfl | rfl | rfl | rfl | rfl
  · exact ha.1 _
  · exact ha.2.1 _ _
  · exact ha.1 _
  · exact ha.2.2 _ _
  · exact hb.1 _
  · exact hb.2.2 _ _

end Example

end Versions
end CacheCoherence
