import CacheCoherence.Proofs.Cache.RecordedSaves
import CacheCoherence.Proofs.Catalogue
import CacheCoherence.Proofs.Memory.Lists

/-!
# What a change leaves stale

A save that is a change invalidates, once the item is written, the item's collections, its modified
key, further keys and whatever is on its dependency list. Any call on the way may fail. A change
that ends stored has left nothing under these keys. One that is rolled back has done so, too, unless
the very call failed that was to empty them. A change that is refused or cannot be written
invalidates nothing.
-/
namespace CacheCoherence
open Operation
variable {cfg : MemorySettings} {fails : Failures} {policy : Policy} {α : Type} [Cacheable α]
  {item : α} {token : Token} {extra : List Key} {outcome : SaveOutcome} {r r' : Recorded}
  {list k : Key}

section Calls
variable {failed : Bool} {e : Event}

theorem failing_deleteValue {keys : List Key}
    (h : (failing keys.isEmpty e (call (.deleteValue keys false true))).recorded cfg fails r =
      (failed, r')) :
    r'.memory = (r.memory.deleteValue cfg keys false true).memory ∨
      r'.memory = r.memory ∧ failed = true ∧
        ∃ fault, (.deleteValue keys false true, some fault) ∈ r'.calls := by
  obtain ⟨hfailed, hmemory, hcalls⟩ := failing_recorded cfg fails r keys.isEmpty e
    (call (.deleteValue keys false true))
  rw [h] at hfailed hmemory hcalls
  cases hempty : keys.isEmpty with
  | true =>
    left
    rw [hempty, if_pos rfl] at hmemory
    rw [List.isEmpty_iff.1 hempty, deleteValue_nil]
    exact hmemory
  | false =>
    simp only [hempty, Bool.false_eq_true, if_false] at hfailed hmemory hcalls
    rcases Recorded.ask_cases cfg fails r (.deleteValue keys false true) with
      ⟨hanswer, hkept, hmem⟩ | ⟨-, hdone⟩
    · right
      refine ⟨hmemory.trans hkept, hfailed.trans ?_, _, hcalls ▸ hmem⟩
      exact congrArg (fun a => !(a : Except Fault Unit).isOk) hanswer
    · exact .inl (hmemory.trans hdone)

theorem failing_clearDependencies
    (h : (failing false e (call (.clearDependencies list false))).recorded cfg fails r =
      (failed, r')) :
    r'.memory = (r.memory.clearDependencies cfg list false).memory ∨
      r'.memory = r.memory ∧ failed = true ∧
        ∃ fault, (.clearDependencies list false, some fault) ∈ r'.calls := by
  obtain ⟨hfailed, hmemory, hcalls⟩ := failing_recorded cfg fails r false e
    (call (.clearDependencies list false))
  rw [h] at hfailed hmemory hcalls
  rcases Recorded.ask_cases cfg fails r (.clearDependencies list false) with
    ⟨hanswer, hkept, hmem⟩ | ⟨-, hdone⟩
  · right
    refine ⟨hmemory.trans hkept, hfailed.trans ?_, _, hcalls ▸ hmem⟩
    exact congrArg (fun a => !(a : Except Fault Unit).isOk) hanswer
  · exact .inl (hmemory.trans hdone)

/-- The invalidation of a change empties the stale keys and then clears the item's list, and either
is only left out if its call fails. -/
theorem invalidateCollections_recorded {keys : ItemKeys} (hkeys : keys.dependencies = some list)
    (h : (invalidateCollections keys extra).recorded cfg fails r = (failed, r')) :
    ∃ m : Memory,
      (m = (r.memory.deleteValue cfg (keys.stale extra) false true).memory ∨
        m = r.memory ∧ failed = true ∧
          ∃ fault, (.deleteValue (keys.stale extra) false true, some fault) ∈ r'.calls) ∧
      (r'.memory = (m.clearDependencies cfg list false).memory ∨
        r'.memory = m ∧ failed = true ∧
          ∃ fault, (.clearDependencies list false, some fault) ∈ r'.calls) := by
  simp only [invalidateCollections, hkeys, recorded_bind, recorded_pure] at h
  change (let deleted := (failing (keys.stale extra).isEmpty
        (.invalidateCollectionsFailed (keys.stale extra))
        (call (.deleteValue (keys.stale extra) false true))).recorded cfg fails r
    let cleared := (failing false (.invalidateDependentsFailed list)
        (call (.clearDependencies list false))).recorded cfg fails deleted.2
    (deleted.1 || cleared.1, cleared.2)) = (failed, r') at h
  cases hdelete : (failing (keys.stale extra).isEmpty (.invalidateCollectionsFailed
      (keys.stale extra)) (call (.deleteValue (keys.stale extra) false true))).recorded cfg fails
        r with
  | mk deleteFailed r₁ =>
  cases hclear : (failing false (.invalidateDependentsFailed list)
      (call (.clearDependencies list false))).recorded cfg fails r₁ with
  | mk clearFailed r₂ =>
  simp only [hdelete, hclear] at h
  obtain ⟨rfl, rfl⟩ := Prod.mk.inj h
  have hkept : r₁.calls <+: r₂.calls := by
    have hgrown := calls_recorded_grow cfg fails
      (failing false (.invalidateDependentsFailed list) (call (.clearDependencies list false))) r₁
    rwa [hclear] at hgrown
  refine ⟨r₁.memory, ?_, ?_⟩
  · rcases failing_deleteValue hdelete with hdone | ⟨hsame, rfl, fault, hmem⟩
    · exact .inl hdone
    · exact .inr ⟨hsame, rfl, fault, hkept.subset hmem⟩
  · rcases failing_clearDependencies hclear with hdone | ⟨hsame, rfl, hfault⟩
    · exact .inl hdone
    · exact .inr ⟨hsame, Bool.or_true _, hfault⟩

/-- A change writes nothing, or it is refused, or it writes the item, invalidates and registers, for
good or for the item to be removed again. -/
theorem saveItem_recorded_cases
    (h : (saveItem policy item token true extra).recorded cfg fails r = (outcome, r')) :
    ((outcome = .skipped ∨ outcome = .notCached) ∧ r'.memory = r.memory) ∨
    ∃ document : Json,
      (outcome = .conflict ∧
        r'.memory = (r.memory.setValue cfg (ItemKeys.of policy.names item).primary
          (ItemKeys.of policy.names item).cached document.compact token
          (Cacheable.ttl α policy.ttls)).memory ∧
        ∃ result, (r.memory.setValue cfg (ItemKeys.of policy.names item).primary
          (ItemKeys.of policy.names item).cached document.compact token
          (Cacheable.ttl α policy.ttls)).answer = .ok result ∧ result.stored = false) ∨
      ∃ r₁ cleared r₂ registered r₃,
        r₁.memory = (r.memory.setValue cfg (ItemKeys.of policy.names item).primary
          (ItemKeys.of policy.names item).cached document.compact token
          (Cacheable.ttl α policy.ttls)).memory ∧
        (invalidateCollections (ItemKeys.of policy.names item) extra).recorded cfg fails r₁ =
          (cleared, r₂) ∧
        (registerItem policy item (ItemKeys.of policy.names item)
          (Cacheable.ttl α policy.ttls)).recorded cfg fails r₂ = (registered, r₃) ∧
        (cleared = false ∧ outcome = .stored ∧ r'.memory = r₃.memory ∨
          (rollback (ItemKeys.of policy.names item)).recorded cfg fails r₃ = (outcome, r')) := by
  rcases saveItem_recorded_ends h with ⟨rfl, rfl⟩ | ⟨rfl, hsame⟩ | ⟨document, -, hends⟩
  · exact .inl ⟨.inl rfl, rfl⟩
  · exact .inl ⟨.inr rfl, hsame⟩
  · exact .inr ⟨document, hends⟩

end Calls

section Empty
variable {m : Memory}

/-- The calls that settle an item fill no empty slot but those of the item's lists. -/
theorem Settles.live?_eq_none {q : Call} (hq : Settles policy item true extra q)
    (hlist : k ∉ listKeys policy.names item) (h : m.live? k = none) :
    (m.perform cfg q).memory.live? k = none := by
  rcases hq.live?_cases cfg m hlist with hsame | ⟨-, hnone⟩
  · rw [hsame, h]
  · exact hnone

variable {failed : Bool}

theorem registerItem_empty (hlist : k ∉ listKeys policy.names item)
    (h : (registerItem policy item (ItemKeys.of policy.names item)
      (Cacheable.ttl α policy.ttls)).recorded cfg fails r = (failed, r'))
    (hempty : r.memory.live? k = none) : r'.memory.live? k = none := by
  have hkept := (calls_registerItem policy item true []).preserves_recorded cfg fails
    (P := fun m => m.live? k = none) (fun q m hq hm => hq.live?_eq_none hlist hm) hempty
  rw [h] at hkept
  exact hkept

theorem rollback_empty {keys : ItemKeys}
    (h : (rollback keys).recorded cfg fails r = (outcome, r')) (hempty : r.memory.live? k = none) :
    r'.memory.live? k = none := by
  have hcalls : Calls (· = .deleteValue keys.cached false true) (rollback keys) := by
    refine Calls.bind ((calls_call _).2 rfl) fun answer => Calls.bind (calls_note _) fun _ => ?_
    cases answer with
    | ok u => trivial
    | error fault => exact calls_logged _ _
  have hkept := hcalls.preserves_recorded cfg fails (P := fun m => m.live? k = none)
    (fun q m hq hm => ?_) hempty
  · rw [h] at hkept
    exact hkept
  · rw [hq]
    change (m.deleteValue cfg keys.cached false true).memory.live? k = none
    rw [Memory.live?_deleteValue, hm]
    split <;> rfl

/-- The invalidation leaves nothing under the stale keys, and nothing under the keys on the item's
list, unless the very call fails that is to take it away. -/
theorem invalidateCollections_empties {keys : ItemKeys} (hkeys : keys.dependencies = some list)
    (hlist : list ∉ keys.stale extra)
    (h : (invalidateCollections keys extra).recorded cfg fails r = (failed, r')) :
    (k ∈ keys.stale extra → r'.memory.live? k = none ∨ failed = true ∧
      ∃ fault, (.deleteValue (keys.stale extra) false true, some fault) ∈ r'.calls) ∧
    ∀ members, r.memory.decoded list = .ok members → members.get? k = some () →
      r'.memory.live? k = none ∨ failed = true ∧
        ∃ fault, (.clearDependencies list false, some fault) ∈ r'.calls := by
  obtain ⟨m, hdeleted, hcleared⟩ := invalidateCollections_recorded hkeys h
  constructor
  · intro hstale
    rcases hdeleted with rfl | ⟨-, hfault⟩
    · left
      have hempty := Memory.live?_deleteValue_forced cfg r.memory (keys.stale extra) false k
      rw [if_pos hstale] at hempty
      rcases hcleared with hdone | ⟨hsame, -⟩
      · rw [hdone, Memory.live?_clearDependencies, hempty]
        split <;> rfl
      · rw [hsame, hempty]
        rfl
    · exact .inr hfault
  · intro members hmembers hmem
    rcases hcleared with hdone | ⟨-, hfault⟩
    · left
      -- Nothing touches the list before it is cleared.
      have hsame : m.live? list = r.memory.live? list := by
        rcases hdeleted with rfl | ⟨rfl, -⟩
        · rw [Memory.live?_deleteValue_forced, if_neg hlist]
        · rfl
      have hreached : k ∈ m.cleared list :=
        (Memory.mem_cleared_iff m list k).2
          (.inl ⟨members, (Memory.decoded_congr hsame).trans hmembers, hmem⟩)
      rw [hdone, Memory.live?_clearDependencies, if_pos hreached]
      rfl
    · exact .inr hfault

/-- After the invalidation what is empty stays empty, and what the record shows it shows to the end.
If the invalidation failed, the change does not end stored. -/
theorem change_ends {invalidated registered : Bool} {r₂ r₃ : Recorded}
    (hrole : k ∉ listKeys policy.names item)
    (hregister : (registerItem policy item (ItemKeys.of policy.names item)
      (Cacheable.ttl α policy.ttls)).recorded cfg fails r₂ = (registered, r₃))
    (hend : invalidated = false ∧ outcome = .stored ∧ r'.memory = r₃.memory ∨
      (rollback (ItemKeys.of policy.names item)).recorded cfg fails r₃ = (outcome, r')) :
    (r₂.memory.live? k = none → r'.memory.live? k = none) ∧
      (invalidated = true → outcome ≠ .stored ∧ r₂.calls ⊆ r'.calls) := by
  constructor
  · intro hempty
    have hregistered := registerItem_empty hrole hregister hempty
    rcases hend with ⟨-, -, hsame⟩ | hrollback
    · rw [hsame]
      exact hregistered
    · exact rollback_empty hrollback hregistered
  · intro hfailed
    rcases hend with ⟨hnot, -, -⟩ | hrollback
    · rw [hnot] at hfailed
      cases hfailed
    · have hgrown := calls_recorded_grow cfg fails (registerItem policy item
        (ItemKeys.of policy.names item) (Cacheable.ttl α policy.ttls)) r₂
      have hgrown' := calls_recorded_grow cfg fails (rollback (ItemKeys.of policy.names item)) r₃
      rw [hregister] at hgrown
      rw [hrollback] at hgrown'
      refine ⟨?_, (hgrown.trans hgrown').subset⟩
      rcases rollback_recorded hrollback with rfl | rfl <;> exact fun hout => by cases hout

end Empty

/-- A change that ends stored, or was rolled back, leaves nothing under the keys that it makes out
of date, and nothing under the keys that were on the item's list, except that a change that was
rolled back leaves what the very call failed for that was to take it away. A change that is refused
or cannot be written leaves every other slot alone. -/
theorem change_leaves_nothing_stale {m : Memory}
    (h : (saveItem policy item token true extra).recorded cfg fails { memory := m } = (outcome, r'))
    (hown : Cacheable.dependenciesKey? policy.names item = some list)
    (hlist : list ∉ (ItemKeys.of policy.names item).cached ∧
      list ∉ (ItemKeys.of policy.names item).stale extra)
    (hcached : k ∉ (ItemKeys.of policy.names item).cached)
    (hrole : k ∉ listKeys policy.names item) :
    (outcome = .stored ∨ outcome = .rolledBack →
      (k ∈ (ItemKeys.of policy.names item).stale extra → r'.memory.live? k = none ∨
        outcome = .rolledBack ∧ ∃ fault,
          (.deleteValue ((ItemKeys.of policy.names item).stale extra) false true, some fault) ∈
            r'.calls) ∧
      ∀ members, m.decoded list = .ok members → members.get? k = some () →
        r'.memory.live? k = none ∨ outcome = .rolledBack ∧ ∃ fault,
          (.clearDependencies list false, some fault) ∈ r'.calls) ∧
    (outcome = .conflict ∨ outcome = .notCached → r'.memory.live? k = m.live? k) := by
  have hprimary : k ≠ (ItemKeys.of policy.names item).primary := fun hk =>
    hcached (hk ▸ List.mem_cons_self)
  have hkeys : (ItemKeys.of policy.names item).dependencies = some list := hown
  rcases saveItem_recorded_cases h with ⟨houtcome, hsame⟩ | ⟨document, ⟨rfl, hwritten, hrefused⟩ |
    ⟨r₁, invalidated, r₂, registered, r₃, hwritten, hinvalidate, hregister, hend⟩⟩
  · constructor
    · rcases houtcome with rfl | rfl <;> rintro (hout | hout) <;> cases hout
    · intro _
      rw [hsame]
  · constructor
    · rintro (hout | hout) <;> cases hout
    · intro _
      rw [hwritten]
      exact Memory.live?_setValue_frame cfg _ _ _ hprimary (.inr hrefused)
  have hlist₁ : r₁.memory.live? list = m.live? list := by
    have hne : list ≠ (ItemKeys.of policy.names item).primary := fun hk =>
      hlist.1 (hk ▸ List.mem_cons_self)
    rw [hwritten]
    exact Memory.live?_setValue_frame cfg _ _ _ hne (.inl hlist.1)
  obtain ⟨hstale, hlisted⟩ := invalidateCollections_empties (k := k) hkeys hlist.2 hinvalidate
  obtain ⟨hkept, hfails⟩ := change_ends hrole hregister hend
  constructor
  · intro houtcome
    have hends {c : Call} (hemptied : r₂.memory.live? k = none ∨
        invalidated = true ∧ ∃ fault, (c, some fault) ∈ r₂.calls) :
        r'.memory.live? k = none ∨
          outcome = .rolledBack ∧ ∃ fault, (c, some fault) ∈ r'.calls := by
      rcases hemptied with hempty | ⟨hfailed, fault, hfault⟩
      · exact .inl (hkept hempty)
      · obtain ⟨hnot, hsub⟩ := hfails hfailed
        exact .inr ⟨houtcome.resolve_left hnot, fault, hsub hfault⟩
    refine ⟨fun hmem => hends (hstale hmem), fun members hmembers hmem => hends ?_⟩
    exact hlisted members ((Memory.decoded_congr hlist₁).trans hmembers) hmem
  · intro hout
    rcases hend with ⟨-, rfl, -⟩ | hrollback
    · rcases hout with hout | hout <;> cases hout
    · rcases rollback_recorded hrollback with rfl | rfl <;> rcases hout with hout | hout <;>
        cases hout

section Example
open Catalogue

/-- The node at `k` is locked. It depends on nothing or on `l`, where it is registered already, `x`
is on its own list `d`, and there are values under `e` and `x`. -/
def occupied : Memory :=
  Memory.after {} {}
    [.call (.writeToken .update ["e", "x"]),
      .call (.setValue "e" ["e", "x"] "1" (Token.issue LockKind.update.name 0)
        (Duration.ofSeconds 60)),
      .call (.addDependency ["d"] ["x"] (Duration.ofSeconds 60)),
      .call (.addDependency ["l"] ["k"] (Duration.ofSeconds 60)),
      .call (.writeToken .update ["k"])]

theorem occupied_lists :
    occupied.content "d" = some (DependencyList.encode (KeySet.ofList ["x"])) := by
  decide +kernel

def changed (fails : Failures) (n : Nat) (token : Token) (extra : List Key) :
    SaveOutcome × Recorded :=
  (saveItem lasting (nodeVersion n) token true extra).recorded {} fails { memory := occupied }

/-- A change that ends stored has emptied the further key and the key on the node's list. -/
theorem change_leaves_nothing_stale_of_node :
    (changed .never 0 (Token.issue LockKind.update.name 1) ["e"]).1 = .stored ∧
      (changed .never 0 (Token.issue LockKind.update.name 1) ["e"]).2.memory.live? "e" = none ∧
      (changed .never 0 (Token.issue LockKind.update.name 1) ["e"]).2.memory.live? "x" = none := by
  have hstored : (changed .never 0 (Token.issue LockKind.update.name 1) ["e"]).1 = .stored := by
    decide +kernel
  unfold changed at hstored ⊢
  generalize hrun : (saveItem lasting (nodeVersion 0) (Token.issue LockKind.update.name 1) true
    ["e"]).recorded {} .never { memory := occupied } = run at hstored ⊢
  obtain ⟨outcome, r'⟩ := run
  obtain rfl : outcome = .stored := hstored
  have hlist : "d" ∉ (ItemKeys.of lasting.names (nodeVersion 0)).cached ∧
      "d" ∉ (ItemKeys.of lasting.names (nodeVersion 0)).stale ["e"] := by decide
  have hsettled (hnot : SaveOutcome.stored = .rolledBack) : False := by cases hnot
  refine ⟨rfl, ?_, ?_⟩
  · have he := (change_leaves_nothing_stale (k := "e") hrun rfl hlist (by decide) (by decide)).1
      (.inl rfl)
    exact (he.1 (by decide)).resolve_right fun h => hsettled h.1
  · have hx := (change_leaves_nothing_stale (k := "x") hrun rfl hlist (by decide) (by decide)).1
      (.inl rfl)
    exact (hx.2 (KeySet.ofList ["x"]) (Memory.decoded_of_encode occupied_lists)
      (by decide)).resolve_right fun h => hsettled h.1

/-- What a key held before a change it still holds after it. -/
def Keeps (key : Key) (run : SaveOutcome × Recorded) : Prop :=
  (occupied.live? key).isSome = true ∧ run.2.memory.live? key = occupied.live? key

instance (key : Key) (run : SaveOutcome × Recorded) : Decidable (Keeps key run) :=
  inferInstanceAs (Decidable (_ ∧ _))

/-- Changes that leave a key as it was that they should have emptied: one that is refused, one that
cannot be written, one whose deletion of the key fails and one whose clearing of the list fails,
both rolled back, and two that end stored although a list is among the keys to empty. -/
theorem change_leaves_stale_keys :
    occupied.content "d" = some (DependencyList.encode (KeySet.ofList ["x"])) ∧
      ((changed .never 0 (Token.issue LockKind.update.name 9) ["e"]).1 = .conflict ∧
        Keeps "e" (changed .never 0 (Token.issue LockKind.update.name 9) ["e"])) ∧
      ((changed (fun _ c => c.name = "SetValue") 0 (Token.issue LockKind.update.name 1) ["e"]).1 =
          .notCached ∧
        Keeps "e" (changed (fun _ c => c.name = "SetValue") 0 (Token.issue LockKind.update.name 1)
          ["e"])) ∧
      ((changed (fun _ c => c = .deleteValue ["e"] false true) 0
          (Token.issue LockKind.update.name 1) ["e"]).1 = .rolledBack ∧
        Keeps "e" (changed (fun _ c => c = .deleteValue ["e"] false true) 0
          (Token.issue LockKind.update.name 1) ["e"])) ∧
      ((changed (fun _ c => c.name = "ClearDependencies") 0 (Token.issue LockKind.update.name 1)
          ["e"]).1 = .rolledBack ∧
        Keeps "x" (changed (fun _ c => c.name = "ClearDependencies") 0
          (Token.issue LockKind.update.name 1) ["e"])) ∧
      ((changed .never 0 (Token.issue LockKind.update.name 1) ["d"]).1 = .stored ∧
        Keeps "x" (changed .never 0 (Token.issue LockKind.update.name 1) ["d"])) ∧
      ((changed .never 1 (Token.issue LockKind.update.name 1) ["l"]).1 = .stored ∧
        Keeps "l" (changed .never 1 (Token.issue LockKind.update.name 1) ["l"])) := by
  decide +kernel

end Example

end CacheCoherence
