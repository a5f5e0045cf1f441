import CacheCoherence.Proofs.Cache.Lock
import CacheCoherence.Proofs.Cache.Save
import CacheCoherence.Proofs.Catalogue
import CacheCoherence.Proofs.Memory.Covers

/-!
# What is cached once a save has ended stored

A save writes the item under its primary and secondary keys, clears the item's own dependency list
if it is a change, and registers the secondary keys on that list. So a key that was on the list is
emptied right after it was written, and nothing writes it again. Every other key has the document of
the item. The list fills with the secondary keys at the first change, so that the second one, while
the list lasts, erases all of them.
-/
namespace CacheCoherence
open Operation
variable {cfg : MemorySettings} {policy : Policy} {α : Type} [Cacheable α] {item : α}
  {token : Token} {clearCollections : Bool} {extra : List Key} {m m' : Memory} {list k : Key}

variable (m list k) in
/-- The slot of a list spells a list that a key is on. -/
def Memory.Enlists : Prop := ∃ members, m.decoded list = .ok members ∧ members.get? k = some ()

theorem Memory.Enlists.congr (h : m.Enlists list k) (hsame : m'.live? list = m.live? list) :
    m'.Enlists list k := by
  obtain ⟨members, hdecoded, hmem⟩ := h
  exact ⟨members, (Memory.decoded_congr hsame).trans hdecoded, hmem⟩

theorem Memory.Lists.enlists (h : m.Lists list k) : m.Enlists list k := by
  obtain ⟨members, hcontent, hmem⟩ := h
  exact ⟨members, Memory.decoded_of_encode hcontent, hmem⟩

theorem Memory.not_enlists_of_empty (h : m.content list = none) : ¬ m.Enlists list k := by
  rintro ⟨members, hdecoded, hmem⟩
  rw [Memory.decoded, Memory.listText_of_empty h] at hdecoded
  cases hdecoded
  rw [Table.get?_empty] at hmem
  cases hmem

variable (policy item clearCollections m k) in
/-- A save clears the item's own list with a key on it. -/
def ClearsListOf : Prop :=
  clearCollections = true ∧
    ∃ list, Cacheable.dependenciesKey? policy.names item = some list ∧ m.Enlists list k

variable (policy item extra) in
/-- The keys of a save serve as one thing each: the item is cached under some, others go out of date
with it, and the rest are its lists. -/
structure KeysApart : Prop where
  cached : ∀ k ∈ (ItemKeys.of policy.names item).cached,
    k ∉ (ItemKeys.of policy.names item).stale extra ∧ k ∉ listKeys policy.names item
  stale : ∀ k ∈ (ItemKeys.of policy.names item).stale extra, k ∉ listKeys policy.names item

theorem mem_listKeys_of_own (hown : Cacheable.dependenciesKey? policy.names item = some list) :
    list ∈ listKeys policy.names item :=
  List.mem_append_left _ (Option.mem_toList.2 hown)

section Invalidation
variable (hapart : KeysApart policy item extra)
include hapart

theorem KeysApart.own (hown : Cacheable.dependenciesKey? policy.names item = some list) :
    list ∉ (ItemKeys.of policy.names item).stale extra ∧
      list ∉ (ItemKeys.of policy.names item).cached ∧
      list ∉ (ItemKeys.of policy.names item).lockKeys .update := by
  have hlist := mem_listKeys_of_own hown
  have hstale : list ∉ (ItemKeys.of policy.names item).stale extra := fun hmem =>
    hapart.stale list hmem hlist
  have hcached : list ∉ (ItemKeys.of policy.names item).cached := fun hmem =>
    (hapart.cached list hmem).2 hlist
  refine ⟨hstale, hcached, fun hmem => ?_⟩
  simp only [ItemKeys.lockKeys, ItemKeys.stale, ItemKeys.cached, List.mem_cons,
    List.mem_append] at hmem hstale hcached
  grind

variable (cfg m) in
/-- The invalidation of a change empties a key of the item if the key was on the item's list, and
leaves it alone otherwise. -/
theorem live?_invalidateCollections (hk : k ∈ (ItemKeys.of policy.names item).cached) :
    (ClearsListOf policy item true m k →
      ((invalidateCollections (ItemKeys.of policy.names item) extra).on cfg m).2.live? k = none) ∧
    (¬ ClearsListOf policy item true m k →
      ((invalidateCollections (ItemKeys.of policy.names item) extra).on cfg m).2.live? k =
        m.live? k) := by
  obtain ⟨hstale, hlists⟩ := hapart.cached k hk
  have hdeleted (j : Key) (hj : j ∉ (ItemKeys.of policy.names item).stale extra) :
      (m.deleteValue cfg ((ItemKeys.of policy.names item).stale extra) false true).memory.live? j =
        m.live? j := by
    rw [Memory.live?_deleteValue_forced, if_neg hj]
  cases hown : Cacheable.dependenciesKey? policy.names item with
  | none =>
    have hkeys : (ItemKeys.of policy.names item).dependencies = none := hown
    have hafter := invalidateCollections_on_unlisted cfg m _ extra hkeys
    constructor
    · rintro ⟨-, list, hlist, -⟩
      rw [hown] at hlist
      cases hlist
    · intro _
      rw [hafter]
      exact hdeleted k hstale
  | some list =>
    have hne : k ≠ list := by
      rintro rfl
      exact hlists (mem_listKeys_of_own hown)
    have hsame := hdeleted list (hapart.own hown).1
    have hafter := Memory.live?_clearDependencies cfg (m.deleteValue cfg
      ((ItemKeys.of policy.names item).stale extra) false true).memory list false k
    have hreached : k ∈ (m.deleteValue cfg ((ItemKeys.of policy.names item).stale extra) false
        true).memory.cleared list ↔ m.Enlists list k := by
      rw [Memory.mem_cleared_iff]
      constructor
      · rintro (hlisted | heq)
        · exact Memory.Enlists.congr hlisted hsame.symm
        · exact absurd heq hne
      · exact fun hlisted => .inl (hlisted.congr hsame)
    rw [invalidateCollections_on cfg m _ extra hown, hafter]
    constructor
    · rintro ⟨-, list', hlist', hlisted⟩
      rw [hown] at hlist'
      cases hlist'
      rw [if_pos (hreached.2 hlisted)]
      rfl
    · intro hnot
      rw [if_neg fun hmem => hnot ⟨rfl, list, hown, hreached.1 hmem⟩]
      exact hdeleted k hstale

end Invalidation

section Registration

theorem live?_registerItem (hk : k ∉ listKeys policy.names item) :
    ((registerItem policy item (ItemKeys.of policy.names item)
      (Cacheable.ttl α policy.ttls)).on cfg m).2.live? k = m.live? k := by
  refine (calls_registerItem policy item false []).preserves cfg
    (P := fun m' => m'.live? k = m.live? k) (fun q m' hq hm => ?_) rfl
  rcases hq.live?_cases cfg m' hk with hsame | ⟨hclear, -⟩
  · exact hsame.trans hm
  · cases hclear

/-- A save that ends stored has left a key of the item empty, if it cleared the item's list with the
key on it, and the item's document under the key otherwise. -/
theorem live?_of_stored (hapart : KeysApart policy item extra)
    (h : (saveItem policy item token clearCollections extra).on cfg m = (.stored, m')) :
    ∃ document, Cacheable.toJson? item = some document ∧
      Cacheable.ttl α policy.ttls ≠ skipTtl ∧ ∀ k ∈ (ItemKeys.of policy.names item).cached,
        (ClearsListOf policy item clearCollections m k → m'.live? k = none) ∧
        (¬ ClearsListOf policy item clearCollections m k →
          m'.live? k = some (.lasting m.now document.compact (Cacheable.ttl α policy.ttls))) := by
  obtain ⟨document, m₁, hdoc, httl, rfl, hwritten, hsettle⟩ := saveItem_stored h
  refine ⟨document, hdoc, httl, fun k hk => ?_⟩
  generalize hm₁ : (m.perform cfg (.setValue (ItemKeys.of policy.names item).primary
    (ItemKeys.of policy.names item).cached document.compact token
    (Cacheable.ttl α policy.ttls))).memory = m₁ at hwritten hsettle
  have hregister := registerItem_of_settled hsettle
  have hend := congrArg (fun run => run.2.live? k) hregister
  rw [live?_registerItem (hapart.cached k hk).2] at hend
  cases clearCollections with
  | false =>
    constructor
    · rintro ⟨hclear, -⟩
      cases hclear
    · intro _
      exact hend.symm.trans (hwritten k hk)
  | true =>
    rw [if_pos rfl] at hend
    obtain ⟨hlisted, hunlisted⟩ := live?_invalidateCollections cfg m₁ hapart hk
    -- The write leaves the item's own list alone.
    have hclears : ClearsListOf policy item true m₁ k ↔ ClearsListOf policy item true m k := by
      refine and_congr_right fun _ => exists_congr fun list => and_congr_right fun hown => ?_
      have hcached := (hapart.own hown).2.1
      have hsame : m₁.live? list = m.live? list := by
        rw [← hm₁]
        refine Memory.live?_setValue_frame cfg _ _ _ (fun heq => hcached ?_) (.inl hcached)
        rw [heq]
        exact List.mem_cons_self
      exact ⟨fun h => h.congr hsame.symm, fun h => h.congr hsame⟩
    constructor
    · intro hclear
      exact hend.symm.trans (hlisted (hclears.2 hclear))
    · intro hclear
      exact hend.symm.trans ((hunlisted fun hc => hclear (hclears.1 hc)).trans (hwritten k hk))

/-- Registering an item whose own list is empty puts the secondary keys on the list, for as long as
the item lasts. -/
theorem covers_of_registerItem_own (hr : cfg.rules = Rules.standard)
    (hown : Cacheable.dependenciesKey? policy.names item = some list)
    (httl : Cacheable.ttl α policy.ttls ≠ skipTtl) (hempty : m.live? list = none)
    (h : (registerItem policy item (ItemKeys.of policy.names item)
      (Cacheable.ttl α policy.ttls)).on cfg m = (false, m'))
    (hk : k ∈ (ItemKeys.of policy.names item).secondary) (text : String) :
    m'.Covers list k (.lasting m.now text (Cacheable.ttl α policy.ttls)) := by
  have hkeys : (ItemKeys.of policy.names item).dependencies = some list := hown
  have hsome : (ItemKeys.of policy.names item).secondary.isEmpty = false := by
    rw [List.isEmpty_eq_false_iff]
    exact List.ne_nil_of_mem hk
  rw [registerItem_on] at h
  simp only [hkeys, hsome, Bool.false_eq_true, if_false] at h
  obtain ⟨-, rfl⟩ := Prod.mk.inj h
  have honly : m.ListsOnly (fun _ => True) list := by
    intro slot hlive
    rw [hempty] at hlive
    cases hlive
  have hopen : m.content list ≠ some Token.tombstone := by
    rw [(Memory.live?_eq_none_iff m list).1 hempty]
    exact fun heq => by cases heq
  -- The item may depend on its own list, but then the list is written as one.
  have honly₁ : (m.perform cfg (.addDependency (Cacheable.dependencyKeys policy.names item)
      (ItemKeys.of policy.names item).cached (Cacheable.ttl α policy.ttls))).memory.ListsOnly
        (fun _ => True) list := by
    refine honly.perform hr (fun hmem => by cases hmem) ?_
    rintro _ _ _ ⟨⟩ -
    exact ⟨httl, fun _ _ => trivial⟩
  have hopen₁ : (m.perform cfg (.addDependency (Cacheable.dependencyKeys policy.names item)
      (ItemKeys.of policy.names item).cached (Cacheable.ttl α policy.ttls))).memory.content list ≠
        some Token.tombstone :=
    Memory.content_ne_tombstone_perform hr hopen (fun hmem => by cases hmem) fun _ hc => by cases hc
  have hnow₁ := (Memory.perform_rest cfg m hr (.addDependency
    (Cacheable.dependencyKeys policy.names item) (ItemKeys.of policy.names item).cached
    (Cacheable.ttl α policy.ttls))).1
  have hanswer := Memory.addDependency_answer_ok (List.forall_mem_singleton.2 ⟨honly₁, hopen₁⟩)
    (ItemKeys.of policy.names item).secondary (Cacheable.ttl α policy.ttls)
  have hcovers := honly₁.covers_of_added httl hanswer (List.mem_singleton_self list) hk text
  rw [hnow₁] at hcovers
  exact hcovers

end Registration

section NextChange
variable {next : α} {extra' : List Key} {token' : Token} {elapsed : Nat} {m₁ m₂ : Memory}
  (hr : cfg.rules = Rules.standard)
include hr

/-- A change that ends stored leaves the secondary keys on the item's own list. -/
theorem covers_of_stored (hown : Cacheable.dependenciesKey? policy.names item = some list)
    (h : (saveItem policy item token true extra).on cfg m = (.stored, m'))
    (hk : k ∈ (ItemKeys.of policy.names item).secondary) (text : String) :
    m'.Covers list k (.lasting m.now text (Cacheable.ttl α policy.ttls)) := by
  obtain ⟨document, m₁, -, httl, rfl, -, hsettle⟩ := saveItem_stored h
  have hkeys : (ItemKeys.of policy.names item).dependencies = some list := hown
  have hregister := registerItem_of_settled hsettle
  rw [if_pos rfl] at hregister
  have hempty : ((invalidateCollections (ItemKeys.of policy.names item) extra).on cfg (m.perform cfg
      (.setValue (ItemKeys.of policy.names item).primary (ItemKeys.of policy.names item).cached
        document.compact token (Cacheable.ttl α policy.ttls))).memory).2.live? list = none := by
    rw [invalidateCollections_on cfg _ _ extra hkeys, Memory.live?_clearDependencies,
      if_pos ((Memory.mem_cleared_iff _ _ _).2 (.inr rfl))]
    rfl
  have hcovers := covers_of_registerItem_own hr hown httl hempty hregister hk text
  rw [(Operation.on_rest cfg hr _ _).1, (Memory.perform_rest cfg m hr _).1] at hcovers
  exact hcovers

theorem live?_own_takeItemLock (hapart : KeysApart policy next extra')
    (hown : Cacheable.dependenciesKey? policy.names next = some list)
    (h : (takeItemLock policy .update next).on cfg m = (.ok token', m₁)) :
    m₁.live? list = m.live? list := by
  have hm₁ : m₁ = (m.perform cfg (.writeToken .update
      ((ItemKeys.of policy.names next).lockKeys .update))).memory := by
    rcases takeItemLock_cases cfg policy m hr (show LockKind.update ≠ .delete by decide) next with
      ⟨-, htaken⟩ | ⟨-, htaken⟩
    all_goals
      rw [h] at htaken
      exact (Prod.mk.inj htaken).2
  rw [hm₁]
  refine Memory.live?_perform_of_not_mem hr (hapart.own hown).2.2 ?_ ?_ ?_
  · rintro _ _ _ ⟨⟩
  · rintro _ _ ⟨⟩
  · rintro _ _ ⟨⟩

end NextChange

/-- A save of an item that ends stored leaves the document of the item under its primary and
secondary keys, each until its lifetime from now is over, except that it has emptied what it cleared
from the item's own list after writing it. A change that ends stored puts the secondary keys on that
list, so that the next change of the item within the lifetime, though it ends stored, too, leaves
nothing under any of them. -/
theorem stored_item_cached_unless_enlisted (hapart : KeysApart policy item extra)
    (h : (saveItem policy item token clearCollections extra).on cfg m = (.stored, m')) :
    (∃ document, Cacheable.toJson? item = some document ∧
      ∀ k ∈ (ItemKeys.of policy.names item).cached,
        (ClearsListOf policy item clearCollections m k → m'.live? k = none) ∧
        (¬ ClearsListOf policy item clearCollections m k →
          m'.live? k = some ⟨document.compact, some (m.now + Cacheable.ttl α policy.ttls)⟩)) ∧
    (cfg.rules = Rules.standard → clearCollections = true →
      (Cacheable.dependenciesKey? policy.names item).isSome = true →
      ∀ (next : α) (extra' : List Key) (token' : Token) (elapsed : Nat) (m₁ m₂ : Memory),
        ItemKeys.of policy.names next = ItemKeys.of policy.names item →
        KeysApart policy next extra' → elapsed < Cacheable.ttl α policy.ttls →
        (takeItemLock policy .update next).on cfg (m'.advance elapsed) = (.ok token', m₁) →
        (saveItem policy next token' true extra').on cfg m₁ = (.stored, m₂) →
        ∀ k ∈ (ItemKeys.of policy.names item).secondary, m₂.live? k = none) := by
  constructor
  · obtain ⟨document, hdoc, httl, hkeys⟩ := live?_of_stored hapart h
    have hlasting : Slot.lasting m.now document.compact (Cacheable.ttl α policy.ttls) =
        ⟨document.compact, some (m.now + Cacheable.ttl α policy.ttls)⟩ := by
      simp only [Slot.lasting, show Cacheable.ttl α policy.ttls ≠ 0 from httl, if_false]
    simp only [hlasting] at hkeys
    exact ⟨document, hdoc, hkeys⟩
  · rintro hr rfl hsome next extra' token' elapsed m₁ m₂ hkeys hnext hearly htake hsave k hk
    obtain ⟨list, hown⟩ := Option.isSome_iff_exists.1 hsome
    have hown' : Cacheable.dependenciesKey? policy.names next = some list :=
      (congrArg ItemKeys.dependencies hkeys).trans hown
    have hnow : m'.now = m.now := by
      have hrest := (Operation.on_rest cfg hr (saveItem policy item token true extra) m).1
      rwa [h] at hrest
    have hlasts : (Slot.lasting m.now "" (Cacheable.ttl α policy.ttls)).isLive
        (m'.now + elapsed) = true := by
      rw [hnow, Slot.lasting, if_neg (by omega)]
      simpa [Slot.isLive] using hearly
    have hcovers := (covers_of_stored hr hown h hk "").advance hlasts
    have hlisted : m₁.Enlists list k :=
      hcovers.lists.enlists.congr (live?_own_takeItemLock hr hnext hown' htake)
    obtain ⟨document, -, -, hleft⟩ := live?_of_stored hnext hsave
    have hmem : k ∈ (ItemKeys.of policy.names next).cached := by
      rw [hkeys]
      exact List.mem_cons_of_mem _ hk
    exact (hleft k hmem).1 ⟨rfl, list, hown', hlisted⟩

section Example
open Catalogue

/-- A node at the key `k` that is cached under `s`, too, and has the list `d`. -/
def aliasedNode : Node := { nodeVersion 0 with secondary := ["s"] }

def firstChange : SaveOutcome × Memory :=
  (saveItem lasting aliasedNode (Token.issue LockKind.update.name 0) true []).on {}
    ((takeItemLock lasting .update aliasedNode).on {} {}).2

def nextLock : Except CacheError Token × Memory :=
  (takeItemLock lasting .update aliasedNode).on {} (firstChange.2.advance 1)

def nextChange : SaveOutcome × Memory :=
  (saveItem lasting aliasedNode (Token.issue LockKind.update.name 1) true []).on {} nextLock.2

theorem keysApart_aliasedNode : KeysApart lasting aliasedNode [] where
  cached := by decide
  stale := by decide

/-- The first change caches the node under `s`. So, it says, does the next one, but nothing is
there. -/
theorem stored_item_cached_unless_enlisted_of_node :
    firstChange.1 = .stored ∧ (firstChange.2.live? "s").isSome = true ∧
      nextChange.1 = .stored ∧ nextChange.2.live? "s" = none := by
  have hfirst : firstChange = (.stored, firstChange.2) := by
    have hstored : firstChange.1 = .stored := by decide +kernel
    rw [← hstored]
  have hgrants : (firstChange.2.advance 1).Grants .update
      ((ItemKeys.of lasting.names aliasedNode).lockKeys .update) := ⟨by decide, by decide +kernel⟩
  have htake : nextLock = (.ok (Token.issue LockKind.update.name 1), nextLock.2) := by
    have hissued : (firstChange.2.advance 1).issued = 1 := by decide +kernel
    rcases takeItemLock_cases {} lasting (firstChange.2.advance 1) rfl
      (show LockKind.update ≠ .delete by decide) aliasedNode with ⟨-, htaken⟩ | ⟨hrefused, -⟩
    · rw [nextLock, htaken, hissued]
    · exact absurd hgrants hrefused
  have hnext : nextChange = (.stored, nextChange.2) := by
    have hstored : nextChange.1 = .stored := by decide +kernel
    rw [← hstored]
  obtain ⟨⟨document, -, hcached⟩, hlater⟩ :=
    stored_item_cached_unless_enlisted keysApart_aliasedNode hfirst
  have hlisted : ¬ ClearsListOf lasting aliasedNode true
      ((takeItemLock lasting .update aliasedNode).on {} {}).2 "s" := by
    rintro ⟨-, list, hown, hlisted⟩
    obtain rfl : "d" = list := Option.some.inj hown
    exact Memory.not_enlists_of_empty (by decide +kernel) hlisted
  refine ⟨congrArg Prod.fst hfirst, ?_, congrArg Prod.fst hnext, ?_⟩
  · rw [(hcached "s" (by decide)).2 hlisted]
    rfl
  · exact hlater rfl rfl rfl aliasedNode [] _ 1 _ _ rfl keysApart_aliasedNode (by decide +kernel)
      htake hnext "s" (List.mem_singleton_self "s")

end Example

end CacheCoherence
