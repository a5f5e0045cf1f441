import CacheCoherence.Proofs.Cache.Collection
import CacheCoherence.Proofs.Memory.Lists
import CacheCoherence.Proofs.ReadAfterWrite.World

/-!
# Clients of a collection

Readers read a collection that has the item in it, and fill it in with what they loaded. Writers of
the item name neither the collection nor the item's dependency list in their locks; what ties the
two together is that a value of the collection is on the list, so that clearing the list takes the
value away.
-/
namespace CacheCoherence
open Operation
variable {α β : Type} [Cacheable α] [Cacheable β]

/-- Readers read a collection, which holds the current version of the item among its members, and
fill it in as the collection of its owner. Writers invalidate what depends on the item. -/
def collectionScenario (policy : Policy) (version : Nat → α) (owner : β) (Member : α → Prop)
    (key : Key) (isGlobal : Bool) : Scenario α (List α) where
  policy := policy
  version := version
  key := key
  entry := servableItems
  loads := fun n found =>
    version n ∈ found ∧ (∀ n', version n' ∈ found → version n' = version n) ∧
      ∀ item ∈ found, Member item
  saves := fun clearCollections extra => clearCollections = true ∧ extra = []
  fill := fun found token => saveCollection policy owner found key key token isGlobal
  drop := fun _ token => do
    let _ ← releaseCollectionLock policy .read owner [key] token
    return ()

/-- All versions of the item share their dependency list, which serves as nothing else, and no lock
of theirs claims the collection. -/
structure CollectionRoles (names : KeyNames) (version : Nat → α) (owner : β) (Member : α → Prop)
    (list key : Key) (isGlobal : Bool) : Prop where
  member : ∀ n, Member (version n)
  own : ∀ n, Cacheable.dependenciesKey? names (version n) = some list
  locks : ∀ n, key ∉ (ItemKeys.of names (version n)).lockKeys .update
  stale : ∀ n, key ∉ (ItemKeys.of names (version n)).stale []
  lists : ∀ item, Member item → key ∉ listKeys names item
  ownerList : isGlobal = false → Cacheable.dependenciesKey? names owner ≠ some key
  listLocks : ∀ n, list ∉ (ItemKeys.of names (version n)).lockKeys .update
  listStale : ∀ n, list ∉ (ItemKeys.of names (version n)).stale []
  listOwner : Cacheable.ownCollection? names owner ≠ some list

variable {cfg : MemorySettings} {policy : Policy} {version : Nat → α} {owner : β}
  {Member : α → Prop} {list key : Key} {isGlobal : Bool} {m m' : Memory}

theorem collectionScenario_read :
    (collectionScenario policy version owner Member key isGlobal).read =
      getCollection policy key true := rfl

section Reached
variable (list key)

/-- Whatever value a key holds, a list reaches it. -/
structure Reached (m : Memory) : Prop where
  lists : m.ListsOnly (fun _ => True) list
  registered : ∀ raw, m.content key = some raw → isToken raw = false → m.Lists list key

/-- A call reaches the key and its list by clearing the list only, or adds to the list. -/
structure Spares (c : Call) : Prop where
  keySlot : key ∉ c.slots
  listSlot : list ∉ c.slots
  adds : ∀ lists dependents ttl, c = .addDependency lists dependents ttl → ttl ≠ 0 ∧ key ∉ lists
  clears : ∀ k tombstone, c = .clearDependencies k tombstone → k = list
  flushes : ∀ root tombstones, c ≠ .flush root tombstones

variable {list key}

theorem Reached.cleared (h : Reached list key m) (tombstone : Bool) {raw : String}
    (hraw : (m.clearDependencies cfg list tombstone).memory.content key = some raw) :
    isToken raw = true := by
  have hlive := Memory.live?_clearDependencies cfg m list tombstone key
  by_cases hmem : key ∈ m.cleared list
  · rw [if_pos hmem] at hlive
    have hleft : (m.clearDependencies cfg list tombstone).memory.content key =
        if tombstone then some Token.tombstone else none := Memory.live?_leftover cfg hlive
    rw [hleft] at hraw
    cases tombstone with
    | true =>
      cases hraw
      exact Content.isToken_tombstone
    | false => cases hraw
  · rw [if_neg hmem] at hlive
    rw [Memory.content_of_live? hlive] at hraw
    cases htoken : isToken raw with
    | true => rfl
    | false => exact absurd (h.registered raw hraw htoken).mem_cleared hmem

theorem Reached.perform (hr : cfg.rules = Rules.standard) {c : Call} (hc : Spares list key c)
    (h : Reached list key m) :
    Reached list key (m.perform cfg c).memory ∧
      ∀ raw, (m.perform cfg c).memory.content key = some raw → isToken raw = false →
        m.content key = some raw := by
  have hlists : (m.perform cfg c).memory.ListsOnly (fun _ => True) list :=
    h.lists.perform hr hc.listSlot fun lists dependents ttl hadd _ =>
      ⟨(hc.adds lists dependents ttl hadd).1, fun _ _ => trivial⟩
  by_cases hclear : ∃ k tombstone, c = .clearDependencies k tombstone
  · obtain ⟨k, tombstone, rfl⟩ := hclear
    obtain rfl := hc.clears k tombstone rfl
    have hnone (raw : String)
        (hraw : (m.clearDependencies cfg k tombstone).memory.content key = some raw)
        (hvalue : isToken raw = false) : False := by
      rw [h.cleared tombstone hraw] at hvalue
      cases hvalue
    exact ⟨⟨hlists, fun raw hraw hvalue => (hnone raw hraw hvalue).elim⟩,
      fun raw hraw hvalue => (hnone raw hraw hvalue).elim⟩
  · have hkey : (m.perform cfg c).memory.live? key = m.live? key := by
      refine Memory.live?_perform_of_not_mem hr hc.keySlot ?_ ?_ hc.flushes
      · exact fun lists dependents ttl hadd => (hc.adds lists dependents ttl hadd).2
      · exact fun k tombstone hc => absurd ⟨k, tombstone, hc⟩ hclear
    have hcontent := Memory.content_of_live? hkey
    refine ⟨⟨hlists, fun raw hraw hvalue => ?_⟩, fun raw hraw _ => hcontent ▸ hraw⟩
    have hlisted := h.registered raw (hcontent ▸ hraw) hvalue
    cases c with
    | addDependency lists dependents ttl => exact hlisted.addDependency lists dependents ttl
    | clearDependencies k tombstone => exact absurd ⟨k, tombstone, rfl⟩ hclear
    | _ =>
      refine hlisted.congr (Memory.live?_perform_of_not_mem hr hc.listSlot ?_ ?_ hc.flushes)
      · rintro _ _ _ ⟨⟩
      · rintro _ _ ⟨⟩

/-- An operation of such calls keeps a value within reach of the list and brings none. -/
theorem Reached.on (hr : cfg.rules = Rules.standard) {γ : Type} {op : Operation γ}
    (hop : Calls (Spares list key) op) (h : Reached list key m) :
    Reached list key (op.on cfg m).2 ∧
      ∀ raw, (op.on cfg m).2.content key = some raw → isToken raw = false →
        m.content key = some raw := by
  refine hop.preserves cfg (P := fun m' => Reached list key m' ∧
    ∀ raw, m'.content key = some raw → isToken raw = false → m.content key = some raw) ?_
    ⟨h, fun raw hraw _ => hraw⟩
  rintro c m₁ hc ⟨hreached, hbefore⟩
  obtain ⟨hreached', hbefore'⟩ := hreached.perform hr hc
  exact ⟨hreached', fun raw hraw hvalue => hbefore raw (hbefore' raw hraw hvalue) hvalue⟩

theorem Reached.of_key (h : Reached list key m) (hlist : m'.live? list = m.live? list)
    (hkey : ∀ raw, m'.content key = some raw → isToken raw = false → m.content key = some raw) :
    Reached list key m' :=
  ⟨fun slot hslot => h.lists slot (hlist ▸ hslot),
    fun raw hraw hvalue => (h.registered raw (hkey raw hraw hvalue) hvalue).congr hlist⟩

theorem Reached.congr (h : Reached list key m) (hsame : ∀ k, m'.live? k = m.live? k) :
    Reached list key m' :=
  h.of_key (hsame list) fun _ hraw _ => Memory.content_of_live? (hsame key) ▸ hraw

end Reached

section Writers
variable (roles : CollectionRoles policy.names version owner Member list key isGlobal)
  (hr : cfg.rules = Rules.standard) {n : Nat} {t : Token}
include roles

theorem CollectionRoles.list_ne_key : list ≠ key := by
  rintro rfl
  refine roles.lists (version 0) (roles.member 0) ?_
  rw [listKeys, roles.own 0]
  exact List.mem_append_left _ (List.mem_singleton_self list)

theorem CollectionRoles.spares_slots {c : Call} (hc : c.OnSlots)
    (hslots : ∀ k ∈ c.slots, k ∈ (ItemKeys.of policy.names (version n)).lockKeys .update) :
    Spares list key c where
  keySlot := fun hmem => roles.locks n (hslots key hmem)
  listSlot := fun hmem => roles.listLocks n (hslots list hmem)
  adds := fun _ _ _ hadd => absurd hadd (hc.ne.1 _ _ _)
  clears := fun _ _ hclear => absurd hclear (hc.ne.2.1 _ _)
  flushes := hc.ne.2.2

theorem CollectionRoles.spares_lock :
    Spares list key
        (.writeToken .update ((ItemKeys.of policy.names (version n)).lockKeys .update)) ∧
      ∀ token, Spares list key
        (.releaseToken ((ItemKeys.of policy.names (version n)).lockKeys .update) token) :=
  ⟨roles.spares_slots (n := n) trivial fun _ hk => hk,
    fun _ => roles.spares_slots (n := n) trivial fun _ hk => hk⟩

theorem CollectionRoles.spares_write (value : String) (ttl : Nat) :
    Spares list key (.setValue (ItemKeys.of policy.names (version n)).primary
      (ItemKeys.of policy.names (version n)).cached value t ttl) := by
  refine roles.spares_slots (n := n) trivial fun k hk => ?_
  rcases List.mem_cons.1 hk with rfl | hk
  · exact ItemKeys.mem_lockKeys_of_cached List.mem_cons_self
  · exact ItemKeys.mem_lockKeys_of_cached hk

theorem CollectionRoles.spares_settle (httl : Cacheable.ttl α policy.ttls ≠ skipTtl) {c : Call}
    (hc : Settles policy (version n) true [] c) : Spares list key c := by
  cases c with
  | deleteValue ks tombstone force =>
    obtain ⟨-, rfl, -⟩ := hc
    exact ⟨roles.stale n, roles.listStale n, fun _ _ _ h => (by cases h), fun _ _ h => (by cases h),
      fun _ _ h => (by cases h)⟩
  | clearDependencies k tombstone =>
    obtain ⟨-, hk, -⟩ := hc
    refine ⟨List.not_mem_nil, List.not_mem_nil, fun _ _ _ h => (by cases h), ?_,
      fun _ _ h => (by cases h)⟩
    rintro _ _ ⟨⟩
    exact Option.some.inj (hk.symm.trans (roles.own n))
  | addDependency targets dependents lifetime =>
    obtain ⟨rfl, htargets⟩ := hc
    refine ⟨List.not_mem_nil, List.not_mem_nil, ?_, fun _ _ h => (by cases h),
      fun _ _ h => (by cases h)⟩
    rintro _ _ _ ⟨⟩
    refine ⟨httl, fun hmem => ?_⟩
    rcases htargets with ⟨rfl, -⟩ | ⟨own, hlist, rfl, -⟩
    · exact roles.lists (version n) (roles.member n) (List.mem_append_right _ hmem)
    · have hsame : key = list :=
        (List.mem_singleton.1 hmem).trans (Option.some.inj (hlist.symm.trans (roles.own n)))
      exact roles.list_ne_key hsame.symm
  | _ => cases hc

theorem CollectionRoles.calls_save :
    Calls (Spares list key) (saveItem policy (version n) t true []) := by
  refine calls_saveItem policy (version n) t true [] (fun value => roles.spares_write value _)
    (fun httl c hc => roles.spares_settle httl hc) ?_
  exact roles.spares_slots (n := n) trivial fun k hk => ItemKeys.mem_lockKeys_of_cached hk

include hr

/-- Settling a version of the item takes every value of the collection away. -/
theorem Reached.settled (httl : Cacheable.ttl α policy.ttls ≠ skipTtl) (h : Reached list key m)
    {raw : String}
    (hraw : ((settleItem policy (version n) true []).on cfg m).2.content key = some raw) :
    isToken raw = true := by
  have hown : (ItemKeys.of policy.names (version n)).dependencies = some list := roles.own n
  -- First the stale keys go, then the list is cleared, and the registration brings nothing back.
  have hstale : Spares list key
      (.deleteValue ((ItemKeys.of policy.names (version n)).stale []) false true) :=
    roles.spares_settle (n := n) httl ⟨rfl, rfl, rfl⟩
  obtain ⟨hreached, -⟩ := h.perform hr hstale
  have hclear : Spares list key (.clearDependencies list false) :=
    roles.spares_settle (n := n) httl ⟨rfl, roles.own n, rfl⟩
  obtain ⟨hreached', -⟩ := hreached.perform hr hclear
  have hregister := hreached'.on hr
    ((calls_registerItem policy (version n) true []).mono fun c hc => roles.spares_settle httl hc)
  simp only [settleItem, if_true, on_bind, invalidateCollections_on cfg _ _ _ hown, on_pure] at hraw
  cases htoken : isToken raw with
  | true => rfl
  | false => exact (htoken.symm.trans (hreached.cleared false (hregister.2 raw hraw htoken)))

theorem Reached.saved (h : Reached list key m) {outcome : SaveOutcome}
    (hop : (saveItem policy (version n) t true []).on cfg m = (outcome, m'))
    (hdone : outcome = .stored ∨ outcome = .rolledBack) {raw : String}
    (hraw : m'.content key = some raw) : isToken raw = true := by
  rcases saveItem_cases hr hop with ⟨-, hnot⟩ | ⟨document, -, httl, ⟨-, rfl, -⟩ |
    ⟨hstore, failed, settled, hsettle, hend⟩⟩
  · rcases hnot with rfl | rfl <;> rcases hdone with hdone | hdone <;> cases hdone
  · rcases hdone with hdone | hdone <;> cases hdone
  · have hwrite : Spares list key (.setValue (ItemKeys.of policy.names (version n)).primary
        (ItemKeys.of policy.names (version n)).cached document.compact t
        (Cacheable.ttl α policy.ttls)) := roles.spares_write _ _
    have hset := (h.perform hr hwrite).1
    have hgone {raw : String} (hraw : settled.content key = some raw) : isToken raw = true := by
      refine hset.settled roles hr (n := n) httl ?_
      change ((settleItem policy (version n) true []).on cfg (m.setValue cfg _ _ _ _ _).memory
        ).2.content key = some raw
      rw [hsettle]
      exact hraw
    rcases hend with ⟨-, -, rfl⟩ | ⟨-, -, rfl⟩
    · exact hgone hraw
    · have hremoved := Memory.live?_deleteValue_forced cfg settled
        (ItemKeys.of policy.names (version n)).cached false key
      rw [if_neg fun hmem => roles.locks n (ItemKeys.mem_lockKeys_of_cached hmem)] at hremoved
      exact hgone ((Memory.content_of_live? hremoved).symm.trans hraw)

end Writers

section Readers
variable (roles : CollectionRoles policy.names version owner Member list key isGlobal)
  (hr : cfg.rules = Rules.standard) {n : Nat} {t : Token} {items : List α}
include roles

theorem Reached.read (h : Reached list key m) {found : Found (List α)}
    (hop : (getCollection policy key true : Operation (Found (List α))).on cfg m = (found, m')) :
    Reached list key m' ∧
      ∀ raw, m'.content key = some raw → isToken raw = false → m.content key = some raw := by
  unfold getCollection at hop
  split at hop
  · obtain ⟨-, rfl⟩ := Prod.mk.inj hop
    exact ⟨h, fun raw hraw _ => hraw⟩
  cases hc : m.content key with
  | none =>
    rw [fetch_on_empty cfg servableItems m key hc] at hop
    obtain ⟨-, rfl⟩ := Prod.mk.inj hop
    have hkey := Memory.live?_lookup cfg m key true key
    rw [if_pos ⟨rfl, rfl, hc⟩] at hkey
    have hnone (raw : String) (hraw : (m.lookup cfg key true).2.content key = some raw) :
        isToken raw = true := by
      rw [Memory.content_of_live?_lasting hkey] at hraw
      rw [← Option.some.inj hraw]
      exact Content.isToken_issue_lock _ _
    have hlist := Memory.live?_lookup cfg m key true list
    rw [if_neg fun h => roles.list_ne_key h.1] at hlist
    refine ⟨h.of_key hlist fun raw hraw hvalue => ?_, fun raw hraw hvalue => ?_⟩
    · rw [hnone raw hraw] at hvalue
      cases hvalue
    · rw [hnone raw hraw] at hvalue
      cases hvalue
  | some raw =>
    cases ht : isToken raw with
    | true =>
      rw [fetch_on_token cfg servableItems m hc ht] at hop
      obtain ⟨-, rfl⟩ := Prod.mk.inj hop
      exact ⟨h, fun raw hraw _ => hc ▸ hraw⟩
    | false =>
      rw [fetch_on_value cfg servableItems m hc ht] at hop
      split at hop
      · obtain ⟨-, rfl⟩ := Prod.mk.inj hop
        exact ⟨h, fun raw hraw _ => hc ▸ hraw⟩
      · obtain ⟨-, rfl⟩ := Prod.mk.inj hop
        have hremoved := Memory.live?_deleteValue_forced cfg m [key] false
        have hkey := hremoved key
        rw [if_pos (List.mem_singleton_self key)] at hkey
        have hlist := hremoved list
        rw [if_neg fun h => roles.list_ne_key (List.mem_singleton.1 h)] at hlist
        have hempty := (Memory.live?_eq_none_iff _ _).1 hkey
        refine ⟨h.of_key hlist fun raw' hraw' _ => ?_, fun raw' hraw' _ => ?_⟩
        · rw [hempty] at hraw'
          cases hraw'
        · rw [hempty] at hraw'
          cases hraw'

theorem Reached.dropped (h : Reached list key m) :
    Reached list key (((collectionScenario policy version owner Member key isGlobal).drop items
      t).on cfg m).2 ∧
      ∀ raw, (((collectionScenario policy version owner Member key isGlobal).drop items
        t).on cfg m).2.content key = some raw → isToken raw = false →
        m.content key = some raw := by
  have hkeys : collectionLockKeys policy .read owner [key] =
      .ok ((Cacheable.ownCollection? policy.names owner).toList ++ [key]) := rfl
  have hmemory : (((collectionScenario policy version owner Member key isGlobal).drop items
      t).on cfg m).2 =
      (m.releaseToken ((Cacheable.ownCollection? policy.names owner).toList ++ [key])
        t).memory := by
    simp only [collectionScenario, on_bind, on_pure, releaseCollectionLock_on cfg policy m hkeys]
  rw [hmemory]
  have hlive := Memory.live?_releaseToken m
    ((Cacheable.ownCollection? policy.names owner).toList ++ [key]) t
  have hlist := hlive list
  rw [if_neg] at hlist
  · have hkey (raw : String)
        (hraw : (m.releaseToken ((Cacheable.ownCollection? policy.names owner).toList ++ [key])
          t).memory.content key = some raw) : m.content key = some raw := by
      have hkey := hlive key
      split at hkey
      · rw [(Memory.live?_eq_none_iff _ _).1 hkey] at hraw
        cases hraw
      · exact (Memory.content_of_live? hkey).symm.trans hraw
    exact ⟨h.of_key hlist fun raw hraw _ => hkey raw hraw, fun raw hraw _ => hkey raw hraw⟩
  · rintro ⟨-, hmem, -⟩
    rcases List.mem_append.1 hmem with hown | hkey
    · exact roles.listOwner (Option.mem_toList.1 hown)
    · exact roles.list_ne_key (List.mem_singleton.1 hkey)

include hr

/-- A fill puts the collection on the list before it writes it. -/
theorem Reached.filled (h : Reached list key m)
    (hloads : (collectionScenario policy version owner Member key isGlobal).loads n items)
    {outcome : SaveOutcome}
    (hop : (saveCollection policy owner items key key t isGlobal).on cfg m = (outcome, m')) :
    Reached list key m' ∧
      (outcome = .stored ∧ Cacheable.ttl α policy.ttls ≠ skipTtl ∧
          (∃ document, collectionJson? items = some document ∧
            m'.content key = some document.compact) ∨
        outcome ≠ .stored ∧
          ∀ raw, m'.content key = some raw → isToken raw = false → m.content key = some raw) := by
  obtain ⟨hcurrent, -, hmembers⟩ := hloads
  rcases saveCollection_cases hr hop with ⟨rfl, hnot⟩ |
    ⟨document, registered, hdoc, hcached, hmembersCached, hadd, hanswer, rfl, hwrite⟩
  · refine ⟨h, .inr ⟨?_, fun raw hraw _ => hraw⟩⟩
    rcases hnot with rfl | rfl
    · exact fun he => by cases he
    · exact fun he => by cases he
  subst hadd
  have hlistMem : list ∈ (collectionDependencies policy owner items isGlobal).keys := by
    refine mem_collectionDependencies.2 (.inl ⟨version n, hcurrent, ?_⟩)
    rw [listKeys, roles.own n]
    exact List.mem_append_left _ (List.mem_singleton_self list)
  have hkeyNotMem : key ∉ (collectionDependencies policy owner items isGlobal).keys := by
    intro hmem
    rcases mem_collectionDependencies.1 hmem with ⟨item, hitem, hlist⟩ | ⟨hglobal, hlist⟩
    · exact roles.lists item (hmembers item hitem) hlist
    · exact roles.ownerList hglobal hlist
  generalize hdependencies : (collectionDependencies policy owner items isGlobal).keys =
    dependencies at *
  have hlists : (m.addDependency dependencies [key]
      (Cacheable.ttl β policy.ttls)).memory.ListsOnly (fun _ => True) list := by
    refine h.lists.perform hr (c := .addDependency dependencies [key] (Cacheable.ttl β policy.ttls))
      List.not_mem_nil ?_
    rintro _ _ _ ⟨⟩ -
    exact ⟨hcached, fun _ _ => trivial⟩
  have hlisted : (m.addDependency dependencies [key]
      (Cacheable.ttl β policy.ttls)).memory.Lists list key :=
    h.lists.lists_of_added hanswer hlistMem (List.mem_singleton_self key)
  have hkey := Memory.live?_addDependency_of_not_mem m dependencies [key]
    (Cacheable.ttl β policy.ttls) hkeyNotMem
  generalize m.addDependency dependencies [key] (Cacheable.ttl β policy.ttls) = registered at *
  by_cases hstore : registered.memory.MayStore key t
  · have hlive := Memory.live?_setValue_stored cfg [key] document.compact
      (Cacheable.ttl β policy.ttls) hr hstore
    have hlist := hlive list
    rw [if_neg fun h => roles.list_ne_key (List.mem_singleton.1 h)] at hlist
    have hwritten := hlive key
    rw [if_pos (List.mem_singleton_self key)] at hwritten
    rw [if_pos hstore] at hwrite
    exact ⟨⟨fun slot hslot => hlists slot (hlist ▸ hslot), fun _ _ _ => hlisted.congr hlist⟩,
      .inl ⟨hwrite, hmembersCached, document, hdoc, Memory.content_of_live?_lasting hwritten⟩⟩
  · have hlive := Memory.live?_setValue_refused cfg [key] document.compact
      (Cacheable.ttl β policy.ttls) hr hstore
    have hlist := hlive list
    rw [if_neg fun h => roles.list_ne_key h.1] at hlist
    rw [if_neg hstore] at hwrite
    refine ⟨⟨fun slot hslot => hlists slot (hlist ▸ hslot), fun _ _ _ => hlisted.congr hlist⟩,
      .inr ⟨by rw [hwrite]; exact fun he => (by cases he), fun raw hraw _ => ?_⟩⟩
    have hleft := hlive key
    split at hleft
    · rw [(Memory.live?_eq_none_iff _ _).1 hleft] at hraw
      cases hraw
    · exact (Memory.content_of_live? (hleft.trans hkey)).symm.trans hraw

end Readers

end CacheCoherence
