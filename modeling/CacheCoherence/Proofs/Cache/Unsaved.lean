import CacheCoherence.Proofs.Cache.RecordedSaves
import CacheCoherence.Proofs.Catalogue

/-!
# Saves that cache nothing

A save that does not end stored leaves nothing of what it was to cache. An item is written before it
is settled, and removed again if that fails; a collection is registered before it is written, and
nothing is written if that fails. Whatever calls fail on the way, every slot that serves as no list
is in the end as it was, or it is empty. The one exception is an item whose removal fails as well,
and its save says so.
-/
namespace CacheCoherence
open Operation
variable {cfg : MemorySettings} {fails : Failures} {policy : Policy} {α : Type} [Cacheable α]
  {outcome : SaveOutcome} {r r' : Recorded} {k : Key}

namespace Memory
variable {m m' m'' : Memory}

/-- A slot is in a second state as it was in the first, or it is empty. So any text that it has then
it had before. -/
def KeptOrEmptied (m m' : Memory) (k : Key) : Prop := m'.live? k = m.live? k ∨ m'.live? k = none

theorem KeptOrEmptied.refl : m.KeptOrEmptied m k := .inl rfl

theorem KeptOrEmptied.trans (h : m.KeptOrEmptied m' k) (h' : m'.KeptOrEmptied m'' k) :
    m.KeptOrEmptied m'' k := by
  rcases h' with hkept | hempty
  · rcases h with hkept' | hempty
    · exact .inl (hkept.trans hkept')
    · exact .inr (hkept.trans hempty)
  · exact .inr hempty

theorem keptOrEmptied_deleteValue (keys : List Key) (force : Bool) :
    m.KeptOrEmptied (m.deleteValue cfg keys false force).memory k := by
  unfold KeptOrEmptied
  rw [live?_deleteValue]
  split
  · exact .inr rfl
  · exact .inl rfl

end Memory

section Item
variable {item : α} {token : Token} {clearCollections : Bool} {extra : List Key}

/-- Settling an item writes nothing but lists, whichever of its calls fail. -/
theorem keptOrEmptied_of_settled {op : Operation Bool} {failed : Bool}
    (hcalls : Calls (Settles policy item clearCollections extra) op)
    (hk : k ∉ listKeys policy.names item) (h : op.recorded cfg fails r = (failed, r')) :
    r.memory.KeptOrEmptied r'.memory k := by
  have hkept := hcalls.preserves_recorded cfg fails (P := fun m => r.memory.KeptOrEmptied m k)
    (fun q m hq hm => hm.trans ?_) .refl
  · rwa [h] at hkept
  · rcases hq.live?_cases cfg m hk with hsame | ⟨-, hempty⟩
    · exact .inl hsame
    · exact .inr hempty

/-- What a save of an item has left that ended in an outcome that claims nothing cached. -/
structure ItemUnsaved (cfg : MemorySettings) (policy : Policy) (item : α) (token : Token)
    (outcome : SaveOutcome) (r r' : Recorded) : Prop where
  /-- No slot but those of the item's lists has gained any text, that of the item in particular. -/
  nothingNew : ∀ k ∉ listKeys policy.names item, r.memory.KeptOrEmptied r'.memory k
  /-- Nothing was called and nothing logged. -/
  skipped : outcome = .skipped → r' = r
  notCached : outcome = .notCached → r'.memory = r.memory
  /-- At most the slot of the primary key was emptied, of a conflict marker or of the delete lock
  that the caller came with. -/
  conflict : outcome = .conflict → r'.memory = r.memory ∨
    r'.memory =
        { r.memory with
          slots := r.memory.slots.erase (ItemKeys.of policy.names item).primary } ∧
      (cfg.rules = Rules.standard →
        Content.ofSlot (r.memory.content (ItemKeys.of policy.names item).primary) = .conflict ∨
        r.memory.content (ItemKeys.of policy.names item).primary = some token ∧
          Content.ofText token = .lock .delete)
  rolledBack : outcome = .rolledBack →
    ∀ k ∈ (ItemKeys.of policy.names item).cached, r'.memory.live? k = none

theorem itemUnsaved_of_saveItem
    (h : (saveItem policy item token clearCollections extra).recorded cfg fails r = (outcome, r'))
    (hstored : outcome ≠ .stored) (hfailed : outcome ≠ .rollbackFailed) :
    ItemUnsaved cfg policy item token outcome r r' := by
  rcases saveItem_recorded_ends h with ⟨rfl, rfl⟩ | ⟨rfl, hsame⟩ | ⟨document, -,
    ⟨rfl, hwritten, result, hresult, hrefused⟩ |
    ⟨r₁, cleared, r₂, registered, r₃, hwritten, hclear, hregister, hend⟩⟩
  · exact ⟨fun _ _ => .refl, fun _ => rfl, (by rintro ⟨⟩), (by rintro ⟨⟩), by rintro ⟨⟩⟩
  · refine ⟨fun k _ => ?_, (by rintro ⟨⟩), fun _ => hsame, (by rintro ⟨⟩), by rintro ⟨⟩⟩
    rw [hsame]
    exact .refl
  · have hslot := Memory.memory_setValue_of_unstored cfg _ _ _ hresult hrefused
    rw [← hwritten] at hslot
    refine ⟨fun k _ => ?_, (by rintro ⟨⟩), (by rintro ⟨⟩), fun _ => hslot, by rintro ⟨⟩⟩
    rcases hslot with hsame | ⟨herased, -⟩
    · rw [hsame]
      exact .refl
    · rw [herased, Memory.KeptOrEmptied, Memory.live?, Slots.live?_erase]
      split
      · exact .inr rfl
      · exact .inl rfl
  · -- Whatever was written under the item's keys is removed; elsewhere nothing was written.
    have hrollback := hend.resolve_left fun hdone => hstored hdone.2.1
    obtain rfl : outcome = .rolledBack := (rollback_recorded hrollback).resolve_right hfailed
    have hremoved := rollback_removes hrollback
    have hgone (k : Key) (hk : k ∈ (ItemKeys.of policy.names item).cached) :
        r'.memory.live? k = none := by
      rw [hremoved, Memory.live?_deleteValue_forced, if_pos hk]
      rfl
    refine ⟨fun k hk => ?_, (by rintro ⟨⟩), (by rintro ⟨⟩), (by rintro ⟨⟩), fun _ => hgone⟩
    by_cases hcached : k ∈ (ItemKeys.of policy.names item).cached
    · exact .inr (hgone k hcached)
    have hprimary : k ≠ (ItemKeys.of policy.names item).primary := fun heq =>
      hcached (heq ▸ List.mem_cons_self)
    have hfirst : r.memory.KeptOrEmptied r₁.memory k := by
      rw [hwritten]
      exact .inl (Memory.live?_setValue_frame cfg _ _ _ hprimary (.inl hcached))
    have hinvalidates : Calls (Settles policy item clearCollections extra)
        (if clearCollections then invalidateCollections (ItemKeys.of policy.names item) extra
          else pure false) := by
      cases clearCollections with
      | true => exact calls_invalidateCollections policy item extra
      | false => trivial
    have hcleared := keptOrEmptied_of_settled hinvalidates hk hclear
    have hregistered := keptOrEmptied_of_settled
      (calls_registerItem policy item clearCollections extra) hk hregister
    have hlast : r₃.memory.KeptOrEmptied r'.memory k := by
      rw [hremoved]
      exact Memory.keptOrEmptied_deleteValue _ _
    exact ((hfirst.trans hcleared).trans hregistered).trans hlast

end Item

section Collection
variable {β : Type} [Cacheable β] {owner : β} {items : List α} {lockKey collectionKey : Key}
  {token : Token} {isGlobal : Bool}

/-- What a save of a collection has left that ended in an outcome that claims nothing cached. Only
the slots of the lists that the collection depends on may have gained something. -/
structure CollectionUnsaved (cfg : MemorySettings) (policy : Policy) (owner : β) (items : List α)
    (lockKey : Key) (token : Token) (isGlobal : Bool) (outcome : SaveOutcome) (r r' : Recorded) :
    Prop where
  ends : outcome = .skipped ∨ outcome = .notCached ∨ outcome = .conflict
  skipped : outcome = .skipped → r' = r
  notCached : outcome = .notCached →
    ∀ k ∉ (collectionDependencies policy owner items isGlobal).keys,
      r'.memory.live? k = r.memory.live? k
  /-- At most the slot of the lock was emptied, of a conflict marker or of the delete lock that the
  caller came with. -/
  conflict : outcome = .conflict →
    ∀ k ∉ (collectionDependencies policy owner items isGlobal).keys,
      r'.memory.live? k = r.memory.live? k ∨
      k = lockKey ∧ r'.memory.live? k = none ∧
        (cfg.rules = Rules.standard → Content.ofSlot (r.memory.content lockKey) = .conflict ∨
          r.memory.content lockKey = some token ∧ Content.ofText token = .lock .delete)

theorem collectionUnsaved_of_saveCollection
    (h : (saveCollection policy owner items lockKey collectionKey token isGlobal).recorded cfg fails
      r = (outcome, r')) (hstored : outcome ≠ .stored) :
    CollectionUnsaved cfg policy owner items lockKey token isGlobal outcome r r' := by
  rcases saveCollection_recorded_ends h with ⟨rfl, rfl⟩ | ⟨rfl, hsame⟩ |
    ⟨document, m, -, hm, ⟨rfl, hsame⟩ | ⟨result, hresult, hwritten, rfl⟩⟩
  · exact ⟨.inl rfl, fun _ => rfl, (by rintro ⟨⟩), (by rintro ⟨⟩)⟩
  · exact ⟨.inr (.inl rfl), (by rintro ⟨⟩), fun _ k _ => (by rw [hsame]), by rintro ⟨⟩⟩
  · refine ⟨.inr (.inl rfl), (by rintro ⟨⟩), fun _ k hk => ?_, by rintro ⟨⟩⟩
    rw [hsame, hm]
    exact Memory.live?_addDependency_of_not_mem r.memory _ _ _ hk
  · cases hrefused : result.stored with
    | true =>
      rw [hrefused] at hstored
      exact absurd rfl hstored
    | false =>
      refine ⟨.inr (.inr rfl), (by rintro ⟨⟩), (by rintro ⟨⟩), fun _ k hk => ?_⟩
      have hadded : m.live? k = r.memory.live? k := by
        rw [hm]
        exact Memory.live?_addDependency_of_not_mem r.memory _ _ _ hk
      rcases Memory.memory_setValue_of_unstored cfg _ _ _ hresult hrefused with
        hsame | ⟨herased, hlock⟩
      · rw [hwritten, hsame]
        exact .inl hadded
      · rw [hwritten, herased, Memory.live?, Slots.live?_erase]
        by_cases hlockKey : k = lockKey
        · subst hlockKey
          rw [if_pos rfl]
          refine .inr ⟨rfl, rfl, fun hr => ?_⟩
          rw [← Memory.content_of_live? hadded]
          exact hlock hr
        · rw [if_neg hlockKey]
          exact .inl hadded

end Collection

/-- A save that does not end stored, and does not admit that it could not take back what it wrote,
leaves nothing cached under any key that serves as no list, whichever of its calls fail. What else
it may have changed depends on how it ended. -/
theorem unstored_save_caches_nothing {β : Type} [Cacheable β] :
    (∀ (item : α) (token : Token) (clearCollections : Bool) (extra : List Key)
        (outcome : SaveOutcome) (r' : Recorded),
      (saveItem policy item token clearCollections extra).recorded cfg fails r = (outcome, r') →
      outcome ≠ .stored → outcome ≠ .rollbackFailed →
      ItemUnsaved cfg policy item token outcome r r') ∧
    ∀ (owner : β) (items : List α) (lockKey collectionKey : Key) (token : Token) (isGlobal : Bool)
        (outcome : SaveOutcome) (r' : Recorded),
      (saveCollection policy owner items lockKey collectionKey token isGlobal).recorded cfg fails
        r = (outcome, r') →
      outcome ≠ .stored → outcome ≠ .rollbackFailed →
      CollectionUnsaved cfg policy owner items lockKey token isGlobal outcome r r' :=
  ⟨fun _ _ _ _ _ _ hsave hstored hfailed => itemUnsaved_of_saveItem hsave hstored hfailed,
    fun _ _ _ _ _ _ _ _ hsave hstored _ => collectionUnsaved_of_saveCollection hsave hstored⟩

section Example
open Catalogue

/-- The node at `k` and its collection at `c` are locked. The list `l`, which the node depends on,
holds a tombstone. -/
def barred : Memory :=
  Memory.after {} {}
    [.call (.clearDependencies "l" true), .call (.writeToken .update ["k"]),
      .call (.writeToken .read ["c"])]

def barredItem : SaveOutcome × Recorded :=
  (saveItem lasting (nodeVersion 1) (Token.issue LockKind.update.name 0) true []).recorded {} .never
    { memory := barred }

/-- A save of the collection without members, the write of which fails. -/
def barredCollection : SaveOutcome × Recorded :=
  (saveCollection lasting (nodeVersion 0) ([] : List Node) "c" "c"
    (Token.issue LockKind.read.name 1) false).recorded {} (fun _ c => c.name = "SetValue")
      { memory := barred }

theorem unstored_save_caches_nothing_of_node :
    barredItem.1 = .rolledBack ∧ barredItem.2.memory.live? "k" = none ∧
      barredCollection.1 = .notCached ∧
      barredCollection.2.memory.live? "c" = barred.live? "c" := by
  have hitem : barredItem.1 = .rolledBack := by decide +kernel
  have hcollection : barredCollection.1 = .notCached := by decide +kernel
  refine ⟨hitem, ?_, hcollection, ?_⟩
  · have hunsaved := (unstored_save_caches_nothing (β := Node)).1 (nodeVersion 1) _ true [] _ _
      (Prod.eta barredItem).symm (by rw [hitem]; decide) (by rw [hitem]; decide)
    exact hunsaved.rolledBack hitem "k" List.mem_cons_self
  · have hunsaved := unstored_save_caches_nothing.2 (nodeVersion 0) ([] : List Node) "c" "c" _ false
      _ _ (Prod.eta barredCollection).symm (by rw [hcollection]; decide)
      (by rw [hcollection]; decide)
    rw [hunsaved.notCached hcollection "c" (by decide +kernel)]

end Example

end CacheCoherence
