import CacheCoherence.Proofs.Memory.Lists
import CacheCoherence.Proofs.ReadAfterWrite.World

/-!
# Clients of one item

Readers read the item's own key. What each move of a client does to that key, and that no move
spoils the dependency lists of the item.
-/
namespace CacheCoherence
open Operation
variable {α : Type} [Cacheable α]

/-- Readers read an item at its key, and fill it in as the single item that it is. -/
def itemScenario (policy : Policy) (version : Nat → α) (key : Key) : Scenario α α where
  policy := policy
  version := version
  key := key
  entry := servableItem
  loads := fun n found => found = version n
  saves := fun _ extra =>
    key ∉ extra ∧ ∀ n, ∀ list ∈ listKeys policy.names (version n), list ∉ extra
  fill := fun found token => saveItem policy found token false []
  drop := fun found token => releaseItemLock policy .read found token

/-- All versions of an item share the primary key and use their keys in one role each. -/
structure ItemRoles (names : KeyNames) (version : Nat → α) (key : Key) : Prop where
  primary : ∀ n, Cacheable.primaryKey names (version n) = key
  secondary : ∀ n, key ∉ Cacheable.secondaryKeys names (version n)
  collections : ∀ n, key ∉ (ItemKeys.of names (version n)).stale []
  lists : ∀ n n', ∀ list ∈ listKeys names (version n),
    list ∉ (ItemKeys.of names (version n')).deleted
  own : ∀ n n' list, Cacheable.dependenciesKey? names (version n) = some list →
    list ∉ Cacheable.dependencyKeys names (version n')

variable {cfg : MemorySettings} {policy : Policy} {version : Nat → α} {key : Key} {m m' : Memory}

theorem itemScenario_read :
    (itemScenario policy version key).read = getItem policy key true := rfl

section Lists
variable (policy version key)

def IsOwnList (list : Key) : Prop :=
  ∃ n, Cacheable.dependenciesKey? policy.names (version n) = some list

/-- The lists of the item are lists, without tombstones, and its own does not hold its key. -/
def ListsSound (m : Memory) : Prop :=
  ∀ n, ∀ list ∈ listKeys policy.names (version n),
    m.ListsOnly (fun k => IsOwnList policy version list → k ≠ key) list ∧
      m.content list ≠ some Token.tombstone

/-- A call keeps off the slots of the lists and never registers the key with the item itself. -/
structure KeepsLists (c : Call) : Prop where
  slots : ∀ n, ∀ list ∈ listKeys policy.names (version n), list ∉ c.slots
  adds : ∀ lists dependents ttl, c = .addDependency lists dependents ttl →
    ttl ≠ 0 ∧ ∀ list ∈ lists, IsOwnList policy version list → key ∉ dependents
  clears : ∀ list, c ≠ .clearDependencies list true

variable {policy version key}

theorem ListsSound.perform (hr : cfg.rules = Rules.standard) {c : Call}
    (hc : KeepsLists policy version key c) (h : ListsSound policy version key m) :
    ListsSound policy version key (m.perform cfg c).memory := by
  intro n list hlist
  obtain ⟨hlists, htombstone⟩ := h n list hlist
  refine ⟨hlists.perform hr (hc.slots n list hlist) ?_,
    Memory.content_ne_tombstone_perform hr htombstone (hc.slots n list hlist) hc.clears⟩
  intro lists dependents ttl hadd hmem
  obtain ⟨httl, hkey⟩ := hc.adds lists dependents ttl hadd
  refine ⟨httl, ?_⟩
  rintro k hk hown rfl
  exact hkey list hmem hown hk

theorem ListsSound.on (hr : cfg.rules = Rules.standard) {γ : Type} {op : Operation γ}
    (hop : Calls (KeepsLists policy version key) op) (h : ListsSound policy version key m) :
    ListsSound policy version key (op.on cfg m).2 :=
  hop.preserves cfg (fun _ _ hc hm => hm.perform hr hc) h

theorem ListsSound.congr (h : ListsSound policy version key m)
    (hsame : ∀ k, m'.live? k = m.live? k) : ListsSound policy version key m' := by
  intro n list hlist
  obtain ⟨hlists, htombstone⟩ := h n list hlist
  refine ⟨fun slot hslot => hlists slot (hsame list ▸ hslot), ?_⟩
  rwa [Memory.content_of_live? (hsame list)]

variable (roles : ItemRoles policy.names version key)
include roles

theorem ItemRoles.key_mem_deleted (n : Nat) :
    key ∈ (ItemKeys.of policy.names (version n)).deleted := by
  have hprimary : (ItemKeys.of policy.names (version n)).primary = key := roles.primary n
  simp [ItemKeys.deleted, ItemKeys.lockKeys, hprimary]

theorem ItemRoles.ne_key (n : Nat) {list : Key} (h : list ∈ listKeys policy.names (version n)) :
    list ≠ key := fun he => roles.lists n n list h (he ▸ roles.key_mem_deleted n)

theorem ItemRoles.keepsLists_of_slots {c : Call} (hc : c.OnSlots)
    (hslots : ∀ k ∈ c.slots, ∃ n, k ∈ (ItemKeys.of policy.names (version n)).deleted) :
    KeepsLists policy version key c where
  slots := by
    intro n list hlist hmem
    obtain ⟨n', hdeleted⟩ := hslots list hmem
    exact roles.lists n n' list hlist hdeleted
  adds := fun _ _ _ hadd => absurd hadd (hc.ne.1 _ _ _)
  clears := fun list => hc.ne.2.1 list true

theorem keepsLists_settle (httl : Cacheable.ttl α policy.ttls ≠ skipTtl) {n : Nat}
    {clearCollections : Bool} {extra : List Key}
    (hextra : ∀ n, ∀ list ∈ listKeys policy.names (version n), list ∉ extra) {c : Call}
    (hc : Settles policy (version n) clearCollections extra c) :
    KeepsLists policy version key c := by
  cases c with
  | deleteValue ks tombstone force =>
    obtain ⟨-, rfl, -⟩ := hc
    refine ⟨fun n' list hlist hmem => ?_, fun _ _ _ h => (by cases h), fun _ h => (by cases h)⟩
    rcases ItemKeys.mem_deleted_of_stale hmem with hdeleted | hmem
    · exact roles.lists n' n list hlist hdeleted
    · exact hextra n' list hlist hmem
  | clearDependencies list tombstone =>
    obtain ⟨-, -, rfl⟩ := hc
    exact ⟨fun _ _ _ h => (by cases h), fun _ _ _ h => (by cases h), fun _ h => (by cases h)⟩
  | addDependency targets dependents lifetime =>
    obtain ⟨rfl, htargets⟩ := hc
    refine ⟨fun _ _ _ h => (by cases h), ?_, fun _ h => (by cases h)⟩
    rintro _ _ _ ⟨⟩
    refine ⟨httl, fun list hmem hown => ?_⟩
    rcases htargets with ⟨rfl, -⟩ | ⟨own, -, -, rfl⟩
    · obtain ⟨n', hown⟩ := hown
      exact absurd hmem (roles.own n' n list hown)
    · exact roles.secondary n
  | _ => cases hc

end Lists

section Effects
variable (roles : ItemRoles policy.names version key) (hr : cfg.rules = Rules.standard)
  {n : Nat} {t : Token}
include roles

theorem key_mem_lockKeys (kind : LockKind) :
    key ∈ (ItemKeys.of policy.names (version n)).lockKeys kind := by
  have hprimary : (ItemKeys.of policy.names (version n)).primary = key := roles.primary n
  cases kind <;> simp [ItemKeys.lockKeys, hprimary]

theorem keepsLists_lock (kind : LockKind) :
    KeepsLists policy version key
        (.writeToken kind ((ItemKeys.of policy.names (version n)).lockKeys kind)) ∧
      ∀ token, KeepsLists policy version key
        (.releaseToken ((ItemKeys.of policy.names (version n)).lockKeys kind) token) := by
  constructor
  · refine roles.keepsLists_of_slots trivial fun k hk => ⟨n, ?_⟩
    exact ItemKeys.mem_deleted_of_lockKeys hk
  · intro token
    refine roles.keepsLists_of_slots trivial fun k hk => ⟨n, ?_⟩
    exact ItemKeys.mem_deleted_of_lockKeys hk

include hr

/-- A writer that gets its lock found none of the marks of another writer under the key. -/
theorem claim_effect (hlists : ListsSound policy version key m)
    (hop : (takeItemLock policy .update (version n)).on cfg m = (.ok t, m')) :
    ListsSound policy version key m' ∧
      (t = Token.issue LockKind.update.name m.issued ∧
          LockKind.update.mayTake (m.content key) = true ∧ m'.content key = some t ∨
        t = Token.noLock ∧ (m'.content key = m.content key ∨
          Content.ofSlot (m'.content key) = .conflict)) := by
  obtain ⟨hwrite, hrelease⟩ := keepsLists_lock (n := n) roles .update
  have hcalls := calls_takeItemLock policy (version n) hwrite
    (fun _ _ h => by cases h) hrelease
  have hsound := hlists.on hr hcalls
  rw [hop] at hsound
  have hkey := key_mem_lockKeys (n := n) roles .update
  have hkind : LockKind.update ≠ .delete := by decide
  refine ⟨hsound, ?_⟩
  rcases takeItemLock_cases cfg policy m hr hkind (version n) with ⟨hg, htake⟩ | ⟨hg, htake⟩
  · rw [htake] at hop
    obtain ⟨ht, rfl⟩ := Prod.mk.inj hop
    obtain rfl := Except.ok.inj ht
    refine .inl ⟨rfl, hg.2 key hkey, ?_⟩
    have hlive := Memory.live?_writeToken_granted cfg m hr hg key
    rw [if_pos hkey] at hlive
    exact Memory.content_of_live?_lasting hlive
  · rw [htake] at hop
    obtain ⟨ht, rfl⟩ := Prod.mk.inj hop
    obtain rfl := Except.ok.inj ht
    refine .inr ⟨rfl, ?_⟩
    obtain ⟨-, -, -, hslots⟩ := Memory.writeToken_refused cfg m hr hg
    by_cases hmarks : m.Marks .update ((ItemKeys.of policy.names (version n)).lockKeys .update) key
    · obtain ⟨i, -, -, hlive⟩ := (hslots key).2 hmarks
      right
      rw [Memory.content_of_live?_lasting hlive]
      exact Content.ofText_issue_conflict i
    · exact .inl (Memory.content_of_live? ((hslots key).1 hmarks))

/-- Giving a lock back empties the key if it holds the lock. -/
theorem release_effect (hlists : ListsSound policy version key m) (kind : LockKind)
    (hne : t ≠ Token.noLock) :
    ListsSound policy version key ((releaseItemLock policy kind (version n) t).on cfg m).2 ∧
      ((releaseItemLock policy kind (version n) t).on cfg m).2.content key =
        if m.content key = some t then none else m.content key := by
  refine ⟨hlists.on hr (calls_releaseItemLock policy kind (version n) t
    ((keepsLists_lock roles kind).2 t)), ?_⟩
  have hlive := Memory.live?_releaseToken m
    ((ItemKeys.of policy.names (version n)).lockKeys kind) t key
  rw [releaseItemLock_on]
  split
  · rename_i hheld
    rw [if_pos ⟨hne, key_mem_lockKeys roles kind, hheld⟩] at hlive
    exact (Memory.live?_eq_none_iff _ _).1 hlive
  · rename_i hheld
    rw [if_neg (fun hc => hheld hc.2.2)] at hlive
    exact Memory.content_of_live? hlive

theorem settle_effect (httl : Cacheable.ttl α policy.ttls ≠ skipTtl) {clearCollections : Bool}
    {extra : List Key} (hsaves : (itemScenario policy version key).saves clearCollections extra)
    (hlists : ListsSound policy version key m) :
    ListsSound policy version key
        ((settleItem policy (version n) clearCollections extra).on cfg m).2 ∧
      ((settleItem policy (version n) clearCollections extra).on cfg m).2.live? key =
        m.live? key := by
  obtain ⟨hkey, hextra⟩ := hsaves
  refine (calls_settleItem policy (version n) clearCollections extra).preserves cfg
    (P := fun m' => ListsSound policy version key m' ∧ m'.live? key = m.live? key) ?_ ⟨hlists, rfl⟩
  rintro c m₁ hc ⟨hsound, hsame⟩
  have hkeeps := keepsLists_settle roles httl hextra hc
  refine ⟨hsound.perform hr hkeeps, Eq.trans ?_ hsame⟩
  refine Memory.live?_perform_of_not_mem hr ?_ ?_ ?_ ?_
  · cases c with
    | deleteValue ks tombstone force =>
      obtain ⟨-, rfl, -⟩ := hc
      intro hmem
      have hstale := roles.collections n
      simp only [Call.slots, ItemKeys.stale, List.append_nil, List.mem_append] at hmem hstale
      rcases hmem with hmem | hmem
      · exact hstale hmem
      · exact hkey hmem
    | clearDependencies list tombstone => exact fun h => by cases h
    | addDependency targets dependents lifetime => exact fun h => by cases h
    | _ => cases hc
  · rintro lists dependents ttl rfl hmem
    obtain ⟨-, ⟨rfl, -⟩ | ⟨own, hown, rfl, -⟩⟩ := hc
    · exact roles.ne_key n (List.mem_append_right _ hmem) rfl
    · have hlist : key ∈ listKeys policy.names (version n) := by
        have hkey : key = own := List.mem_singleton.1 hmem
        rw [listKeys, hown, hkey]
        simp
      exact roles.ne_key n hlist rfl
  · rintro list tombstone rfl hmem
    obtain ⟨-, hown, -⟩ := hc
    have hlist : list ∈ listKeys policy.names (version n) := by
      rw [listKeys, hown]
      simp
    rcases (hsound n list hlist).1.of_mem_cleared hmem with hP | hself
    · exact hP ⟨n, hown⟩ rfl
    · exact roles.ne_key n hlist hself.symm
  · rintro root tombstones rfl
    cases hc

/-- A save writes the key only while the key holds its token, and otherwise at most takes a
conflict marker away. -/
theorem save_effect {clearCollections : Bool} {extra : List Key} {outcome : SaveOutcome}
    (hsaves : (itemScenario policy version key).saves clearCollections extra)
    (hlists : ListsSound policy version key m)
    (hop : (saveItem policy (version n) t clearCollections extra).on cfg m = (outcome, m')) :
    ListsSound policy version key m' ∧
      (m'.content key = m.content key ∨
        m'.content key = none ∧
          (m.content key = some t ∨ Content.ofSlot (m.content key) = .conflict) ∨
        m.content key = some t ∧ ∃ document, Cacheable.toJson? (version n) = some document ∧
          m'.content key = some document.compact) := by
  have hcached {k : Key} (hk : k ∈ (ItemKeys.of policy.names (version n)).cached) :
      k ∈ (ItemKeys.of policy.names (version n)).deleted := ItemKeys.mem_deleted_of_cached hk
  have hcalls : Calls (KeepsLists policy version key)
      (saveItem policy (version n) t clearCollections extra) := by
    refine calls_saveItem policy (version n) t clearCollections extra (fun value => ?_)
      (fun httl c hc => keepsLists_settle roles httl hsaves.2 hc) ?_
    · refine roles.keepsLists_of_slots trivial fun k hk => ⟨n, ?_⟩
      rcases List.mem_cons.1 hk with rfl | hk
      · exact hcached List.mem_cons_self
      · exact hcached hk
    · exact roles.keepsLists_of_slots trivial fun k hk => ⟨n, hcached hk⟩
  have hsound := hlists.on hr hcalls
  rw [hop] at hsound
  refine ⟨hsound, ?_⟩
  have hprimary : (ItemKeys.of policy.names (version n)).primary = key := roles.primary n
  have hmem : key ∈ (ItemKeys.of policy.names (version n)).cached := by
    rw [ItemKeys.cached, hprimary]
    exact List.mem_cons_self
  rcases saveItem_cases hr hop with ⟨rfl, -⟩ | ⟨document, hdoc, httl, hcases⟩
  · exact .inl rfl
  rw [hprimary] at hcases
  rcases hcases with ⟨hrefused, -, rfl⟩ | ⟨hstore, failed, settled, hsettle, hend⟩
  · have hlive := Memory.live?_setValue_refused cfg (ItemKeys.of policy.names (version n)).cached
      document.compact (Cacheable.ttl α policy.ttls) hr hrefused key
    split at hlive
    · rename_i hclears
      exact .inr (.inl ⟨(Memory.live?_eq_none_iff _ _).1 hlive, hclears.2.2⟩)
    · exact .inl (Memory.content_of_live? hlive)
  · have hwritten := Memory.live?_setValue_stored cfg (ItemKeys.of policy.names (version n)).cached
      document.compact (Cacheable.ttl α policy.ttls) hr hstore key
    rw [if_pos hmem] at hwritten
    have hset : ListsSound policy version key (m.setValue cfg key
        (ItemKeys.of policy.names (version n)).cached document.compact t
        (Cacheable.ttl α policy.ttls)).memory := by
      refine hlists.perform hr (c := .setValue key _ _ _ _) ?_
      refine roles.keepsLists_of_slots trivial fun k hk => ⟨n, ?_⟩
      rcases List.mem_cons.1 hk with rfl | hk
      · exact hcached hmem
      · exact hcached hk
    obtain ⟨-, hkept⟩ := settle_effect (n := n) roles hr httl hsaves hset
    rw [hsettle] at hkept
    have hcontent : settled.content key = some document.compact :=
      Memory.content_of_live?_lasting (hkept.trans hwritten)
    rcases hend with ⟨-, -, rfl⟩ | ⟨-, -, rfl⟩
    · exact .inr (.inr ⟨hstore.2.1, document, hdoc, hcontent⟩)
    · refine .inr (.inl ⟨?_, .inl hstore.2.1⟩)
      have hremoved := Memory.live?_deleteValue_forced cfg settled
        (ItemKeys.of policy.names (version n)).cached false key
      rw [if_pos hmem] at hremoved
      exact (Memory.live?_eq_none_iff _ _).1 hremoved

theorem read_effect {found : Found α} (hlists : ListsSound policy version key m)
    (hop : (getItem policy key true : Operation (Found α)).on cfg m = (found, m')) :
    ListsSound policy version key m' ∧
      (found.token = Token.noLock ∧ m'.content key = m.content key ∨
        found.token = Token.noLock ∧ m'.content key = none ∧
          (∃ raw, m.content key = some raw ∧ isToken raw = false) ∨
        m.content key = none ∧ found.token = Token.issue LockKind.read.name m.issued ∧
          m'.content key = some found.token) := by
  have hkey (k : Key) (hk : k ∈ [key]) :
      ∃ n, k ∈ (ItemKeys.of policy.names (version n)).deleted := by
    rw [List.mem_singleton.1 hk]
    exact ⟨0, roles.key_mem_deleted 0⟩
  have hcalls : Calls (KeepsLists policy version key)
      (getItem policy key true : Operation (Found α)) :=
    calls_getItem key true (roles.keepsLists_of_slots trivial hkey)
      (roles.keepsLists_of_slots trivial hkey)
  have hsound := hlists.on hr hcalls
  rw [hop] at hsound
  refine ⟨hsound, ?_⟩
  unfold getItem at hop
  split at hop
  · obtain ⟨rfl, rfl⟩ := Prod.mk.inj hop
    exact .inl ⟨rfl, rfl⟩
  cases hc : m.content key with
  | none =>
    rw [fetch_on_empty cfg servableItem m key hc] at hop
    obtain ⟨rfl, rfl⟩ := Prod.mk.inj hop
    have hlive := Memory.live?_lookup cfg m key true key
    rw [if_pos ⟨rfl, rfl, hc⟩] at hlive
    exact .inr (.inr ⟨rfl, rfl, Memory.content_of_live?_lasting hlive⟩)
  | some raw =>
    cases ht : isToken raw with
    | true =>
      rw [fetch_on_token cfg servableItem m hc ht] at hop
      obtain ⟨rfl, rfl⟩ := Prod.mk.inj hop
      exact .inl ⟨rfl, hc⟩
    | false =>
      rw [fetch_on_value cfg servableItem m hc ht] at hop
      split at hop
      · obtain ⟨rfl, rfl⟩ := Prod.mk.inj hop
        exact .inl ⟨rfl, hc⟩
      · obtain ⟨rfl, rfl⟩ := Prod.mk.inj hop
        have hremoved := Memory.live?_deleteValue_forced cfg m [key] false key
        rw [if_pos (List.mem_singleton_self key)] at hremoved
        exact .inr (.inl ⟨rfl, (Memory.live?_eq_none_iff _ _).1 hremoved, raw, rfl, ht⟩)

end Effects

end CacheCoherence
