import CacheCoherence.Cache.Delete
import CacheCoherence.Cache.Save
import CacheCoherence.Proofs.Operations

/-!
# Saving an item, run on a store in memory

A save of an item writes it under its token or ends at once. Once written, it is settled: what the
change makes out of date is invalidated and the item is registered with what it depends on. If
settling fails, the item is removed again. The removal never fails on a store in memory.
-/
namespace CacheCoherence
open Operation
variable (cfg : MemorySettings) {α : Type} [Cacheable α] (policy : Policy)

/-- What follows the write of an item: the invalidation, if wanted, and the registration. Reports
whether a call failed. -/
def settleItem (item : α) (clearCollections : Bool) (extra : List Key) : Operation Bool := do
  let keys := ItemKeys.of policy.names item
  let clearFailed ← if clearCollections then invalidateCollections keys extra else pure false
  let registerFailed ← registerItem policy item keys (Cacheable.ttl α policy.ttls)
  return clearFailed || registerFailed

theorem saveItem_eq_settle (item : α) (token : Token) (clearCollections : Bool) (extra : List Key)
    {document : Json}
    (h : ¬ (Cacheable.ttl α policy.ttls = skipTtl ∨ token = Token.noLock))
    (hdoc : Cacheable.toJson? item = some document) :
    saveItem policy item token clearCollections extra = (do
      let keys := ItemKeys.of policy.names item
      note .call
      match ← call (.setValue keys.primary keys.cached document.compact token
          (Cacheable.ttl α policy.ttls)) with
      | .error _ =>
        note (.store false)
        log (.storeFailed keys.primary)
        return .notCached
      | .ok result =>
        if result.stored then
          let failed ← settleItem policy item clearCollections extra
          if failed then rollback keys
          else
            note (.store true)
            log (.stored keys.primary)
            return .stored
        else
          note (.store false)
          log (.storeConflict keys.primary token)
          return .conflict) := by
  rw [saveItem, if_neg h, hdoc]
  refine bind_congr fun _ => bind_congr fun answer => ?_
  cases answer with
  | error fault => rfl
  | ok result =>
    cases clearCollections <;>
      simp only [settleItem, bind_assoc, pure_bind, if_true, if_false, Bool.false_eq_true]

/-- The keys that are emptied when an item changes, its list of dependents apart. -/
def ItemKeys.stale (keys : ItemKeys) (extra : List Key) : List Key :=
  keys.globalCollection.toList ++ keys.modified.toList ++ extra

/-- The dependency lists of an item: its own and those that it depends on. -/
def listKeys (names : KeyNames) (item : α) : List Key :=
  (Cacheable.dependenciesKey? names item).toList ++ Cacheable.dependencyKeys names item

section Roles
variable {keys : ItemKeys} {k : Key}

theorem ItemKeys.mem_deleted_of_lockKeys {kind : LockKind} (h : k ∈ keys.lockKeys kind) :
    k ∈ keys.deleted := by
  cases kind <;> simp [lockKeys, deleted] at h ⊢ <;> grind

theorem ItemKeys.mem_deleted_of_cached (h : k ∈ keys.cached) : k ∈ keys.deleted := by
  simp [cached, lockKeys, deleted] at h ⊢
  grind

theorem ItemKeys.mem_lockKeys_of_cached (h : k ∈ keys.cached) : k ∈ keys.lockKeys .update := by
  simp [cached, lockKeys] at h ⊢
  grind

theorem ItemKeys.mem_deleted_of_stale {extra : List Key} (h : k ∈ keys.stale extra) :
    k ∈ keys.deleted ∨ k ∈ extra := by
  simp [stale, lockKeys, deleted] at h ⊢
  grind

end Roles

section SaveItem
variable (m : Memory) (item : α) (token : Token) (clearCollections : Bool) (extra : List Key)

theorem saveItem_on_skipped (h : Cacheable.ttl α policy.ttls = skipTtl ∨ token = Token.noLock) :
    (saveItem policy item token clearCollections extra).on cfg m = (.skipped, m) := by
  rw [saveItem, if_pos h]
  rfl

variable {token} (h : ¬ (Cacheable.ttl α policy.ttls = skipTtl ∨ token = Token.noLock))
include h

theorem saveItem_on_unserializable (hdoc : Cacheable.toJson? item = none) :
    (saveItem policy item token clearCollections extra).on cfg m = (.notCached, m) := by
  rw [saveItem, if_neg h]
  simp [hdoc]

variable {document : Json} (hdoc : Cacheable.toJson? item = some document)
include hdoc

theorem saveItem_on_answered {result : SetResult}
    (hanswer : (m.setValue cfg (ItemKeys.of policy.names item).primary
      (ItemKeys.of policy.names item).cached document.compact token
      (Cacheable.ttl α policy.ttls)).answer = .ok result) :
    (saveItem policy item token clearCollections extra).on cfg m =
      let written := (m.setValue cfg (ItemKeys.of policy.names item).primary
        (ItemKeys.of policy.names item).cached document.compact token
        (Cacheable.ttl α policy.ttls)).memory
      let settled := (settleItem policy item clearCollections extra).on cfg written
      if result.stored then
        if settled.1 then
          (.rolledBack,
            (settled.2.deleteValue cfg (ItemKeys.of policy.names item).cached false true).memory)
        else (.stored, settled.2)
      else (.conflict, written) := by
  rw [saveItem, if_neg h]
  cases hstored : result.stored with
  | false => simp [hdoc, hanswer, hstored]
  | true =>
    cases clearCollections <;>
      simp only [hdoc, on_bind, on_note, on_setValue, hanswer, hstored, if_true, if_false,
        Bool.false_eq_true, Bool.false_or, settleItem, on_pure]
    all_goals
      split
      · simp [rollback]
      · simp

theorem saveItem_on_refused (hr : cfg.rules = Rules.standard)
    (hstore : ¬ m.MayStore (ItemKeys.of policy.names item).primary token) :
    (saveItem policy item token clearCollections extra).on cfg m =
      (.conflict,
        (m.setValue cfg (ItemKeys.of policy.names item).primary
          (ItemKeys.of policy.names item).cached document.compact token
          (Cacheable.ttl α policy.ttls)).memory) := by
  obtain ⟨conflict, hanswer⟩ := Memory.answer_setValue cfg m (ItemKeys.of policy.names item).primary
    (ItemKeys.of policy.names item).cached document.compact token (Cacheable.ttl α policy.ttls) hr
  rw [saveItem_on_answered cfg policy m item clearCollections extra h hdoc hanswer]
  simp [hstore]

theorem saveItem_on_stored (hr : cfg.rules = Rules.standard)
    (hstore : m.MayStore (ItemKeys.of policy.names item).primary token) :
    (saveItem policy item token clearCollections extra).on cfg m =
      let settled := (settleItem policy item clearCollections extra).on cfg
        (m.setValue cfg (ItemKeys.of policy.names item).primary
          (ItemKeys.of policy.names item).cached document.compact token
          (Cacheable.ttl α policy.ttls)).memory
      if settled.1 then
        (.rolledBack,
          (settled.2.deleteValue cfg (ItemKeys.of policy.names item).cached false true).memory)
      else (.stored, settled.2) := by
  obtain ⟨conflict, hanswer⟩ := Memory.answer_setValue cfg m (ItemKeys.of policy.names item).primary
    (ItemKeys.of policy.names item).cached document.compact token (Cacheable.ttl α policy.ttls) hr
  rw [saveItem_on_answered cfg policy m item clearCollections extra h hdoc hanswer]
  simp [hstore]

end SaveItem

section Settle
variable (m : Memory) (keys : ItemKeys)

theorem failing_on (skip : Bool) (e : Event) (attempt : Operation (Except Fault Unit)) :
    (failing skip e attempt).on cfg m =
      if skip then (false, m)
      else (!(attempt.on cfg m).1.isOk, (attempt.on cfg m).2) := by
  cases skip with
  | true => rfl
  | false =>
    simp only [failing, Bool.false_eq_true, if_false, on_bind]
    cases (attempt.on cfg m).1 <;> rfl

theorem deleteValue_nil (tombstone force : Bool) :
    (m.deleteValue cfg [] tombstone force).memory = m := rfl

theorem addDependency_nil (dependents : List Key) (ttl : Nat) :
    m.addDependency [] dependents ttl = { answer := .ok (), memory := m } := rfl

/-- Invalidating what depends on an item empties the stale keys and then clears the item's list. -/
theorem invalidateCollections_on (extra : List Key) {list : Key}
    (h : keys.dependencies = some list) :
    (invalidateCollections keys extra).on cfg m =
      (!((m.deleteValue cfg (keys.stale extra) false true).memory.clearDependencies cfg list
          false).answer.isOk,
        ((m.deleteValue cfg (keys.stale extra) false true).memory.clearDependencies cfg list
          false).memory) := by
  have hstale : keys.globalCollection.toList ++ keys.modified.toList ++ extra = keys.stale extra :=
    rfl
  simp only [invalidateCollections, h, on_bind, failing_on, hstale, on_deleteValue,
    on_clearDependencies, on_pure]
  cases hempty : (keys.stale extra).isEmpty with
  | true =>
    rw [List.isEmpty_iff.1 hempty, deleteValue_nil]
    simp
  | false => simp [Except.isOk, Except.toBool]

theorem invalidateCollections_on_unlisted (extra : List Key) (h : keys.dependencies = none) :
    ((invalidateCollections keys extra).on cfg m).2 =
      (m.deleteValue cfg (keys.stale extra) false true).memory := by
  have hstale : keys.globalCollection.toList ++ keys.modified.toList ++ extra = keys.stale extra :=
    rfl
  simp only [invalidateCollections, h, on_bind, failing_on, hstale, on_deleteValue, on_pure]
  cases hempty : (keys.stale extra).isEmpty with
  | true =>
    rw [List.isEmpty_iff.1 hempty, deleteValue_nil]
    rfl
  | false => rfl

theorem registerItem_on (item : α) (ttl : Nat) :
    (registerItem policy item keys ttl).on cfg m =
      let registered :=
        m.addDependency (Cacheable.dependencyKeys policy.names item) keys.cached ttl
      (!registered.answer.isOk,
        match keys.dependencies with
        | none => registered.memory
        | some list =>
          if keys.secondary.isEmpty then registered.memory
          else (registered.memory.addDependency [list] keys.secondary ttl).memory) := by
  have hfirst : (failing (Cacheable.dependencyKeys policy.names item).isEmpty
        (.addDependencyFailed keys.primary)
        (call (.addDependency (Cacheable.dependencyKeys policy.names item) keys.cached ttl))).on
      cfg m =
      (!(m.addDependency (Cacheable.dependencyKeys policy.names item) keys.cached ttl).answer.isOk,
        (m.addDependency (Cacheable.dependencyKeys policy.names item) keys.cached
          ttl).memory) := by
    rw [failing_on, on_addDependency]
    cases hempty : (Cacheable.dependencyKeys policy.names item).isEmpty with
    | true =>
      rw [List.isEmpty_iff.1 hempty, addDependency_nil]
      rfl
    | false => rfl
  simp only [registerItem, on_bind, hfirst]
  cases keys.dependencies with
  | none => rfl
  | some list =>
    simp only [on_bind, failing_on, on_addDependency, on_pure]
    cases keys.secondary.isEmpty <;> rfl

theorem registerItem_fails {item : α} {list : Key}
    (hlist : list ∈ Cacheable.dependencyKeys policy.names item)
    (h : m.content list = some Token.tombstone) (ttl : Nat) :
    ((registerItem policy item keys ttl).on cfg m).1 = true := by
  rw [registerItem_on]
  cases hanswer : (m.addDependency (Cacheable.dependencyKeys policy.names item) keys.cached
      ttl).answer with
  | error fault =>
    simp only [hanswer]
    rfl
  | ok u => exact absurd h ((Memory.addDependency_ok m _ _ _ hanswer list).2 hlist).1

theorem settleItem_on (item : α) (clearCollections : Bool) (extra : List Key) :
    (settleItem policy item clearCollections extra).on cfg m =
      let invalidated := on cfg (if clearCollections then
        invalidateCollections (ItemKeys.of policy.names item) extra else pure false) m
      let registered := (registerItem policy item (ItemKeys.of policy.names item)
        (Cacheable.ttl α policy.ttls)).on cfg invalidated.2
      (invalidated.1 || registered.1, registered.2) := by
  cases clearCollections <;> simp [settleItem]

/-- The calls that settle an item: what they invalidate and what they register where. -/
def Settles (item : α) (clearCollections : Bool) (extra : List Key) : Call → Prop
  | .deleteValue ks tombstone _ =>
    clearCollections = true ∧ ks = (ItemKeys.of policy.names item).stale extra ∧ tombstone = false
  | .clearDependencies list tombstone =>
    clearCollections = true ∧ Cacheable.dependenciesKey? policy.names item = some list ∧
      tombstone = false
  | .addDependency lists dependents ttl =>
    ttl = Cacheable.ttl α policy.ttls ∧
      (lists = Cacheable.dependencyKeys policy.names item ∧
          dependents = (ItemKeys.of policy.names item).cached ∨
        ∃ list, Cacheable.dependenciesKey? policy.names item = some list ∧ lists = [list] ∧
          dependents = (ItemKeys.of policy.names item).secondary)
  | _ => False

variable {policy} in
/-- The calls that settle an item leave any other slot than those of its lists alone, or they empty
it on behalf of a change. -/
theorem Settles.live?_cases {item : α} {clearCollections : Bool} {extra : List Key} {q : Call}
    (hq : Settles policy item clearCollections extra q) {k : Key}
    (hlist : k ∉ listKeys policy.names item) :
    (m.perform cfg q).memory.live? k = m.live? k ∨
      clearCollections = true ∧ (m.perform cfg q).memory.live? k = none := by
  cases q with
  | deleteValue keys tombstone force =>
    obtain ⟨hclear, -, rfl⟩ := hq
    change (m.deleteValue cfg keys false force).memory.live? k = _ ∨
      _ ∧ (m.deleteValue cfg keys false force).memory.live? k = none
    rw [Memory.live?_deleteValue]
    split
    · exact .inr ⟨hclear, rfl⟩
    · exact .inl rfl
  | clearDependencies key tombstone =>
    obtain ⟨hclear, -, rfl⟩ := hq
    change (m.clearDependencies cfg key false).memory.live? k = _ ∨
      _ ∧ (m.clearDependencies cfg key false).memory.live? k = none
    rw [Memory.live?_clearDependencies]
    split
    · exact .inr ⟨hclear, rfl⟩
    · exact .inl rfl
  | addDependency lists dependents ttl =>
    have hmem : k ∉ lists := by
      intro hmem
      rcases hq.2 with ⟨rfl, -⟩ | ⟨own, hown, rfl, -⟩
      · exact hlist (List.mem_append_right _ hmem)
      · rw [List.mem_singleton.1 hmem] at hlist
        exact hlist (List.mem_append_left _ (Option.mem_toList.2 hown))
    exact .inl (Memory.live?_addDependency_of_not_mem m lists dependents ttl hmem)
  | _ => cases hq

theorem calls_failing {S : Call → Prop} (skip : Bool) (e : Event)
    {attempt : Operation (Except Fault Unit)} (h : Calls S attempt) :
    Calls S (failing skip e attempt) := by
  cases skip with
  | true => trivial
  | false =>
    refine Calls.bind h fun answer => ?_
    cases answer with
    | ok u => trivial
    | error fault => exact Calls.bind (calls_log e) fun _ => trivial

theorem calls_invalidateCollections (item : α) (extra : List Key) :
    Calls (Settles policy item true extra)
      (invalidateCollections (ItemKeys.of policy.names item) extra) := by
  refine Calls.bind (calls_failing _ _ ((calls_call _).2 ⟨rfl, rfl, rfl⟩))
    fun collectionsFailed => ?_
  cases h : (ItemKeys.of policy.names item).dependencies with
  | none => trivial
  | some list =>
    refine Calls.bind (calls_failing _ _ ((calls_call _).2 ⟨rfl, h, rfl⟩))
      fun dependentsFailed => ?_
    trivial

theorem calls_registerItem (item : α) (clearCollections : Bool) (extra : List Key) :
    Calls (Settles policy item clearCollections extra)
      (registerItem policy item (ItemKeys.of policy.names item) (Cacheable.ttl α policy.ttls)) := by
  refine Calls.bind (calls_failing _ _ ((calls_call _).2 ⟨rfl, .inl ⟨rfl, rfl⟩⟩)) fun failed => ?_
  cases h : (ItemKeys.of policy.names item).dependencies with
  | none => trivial
  | some list =>
    refine Calls.bind (calls_failing _ _ ((calls_call _).2 ⟨rfl, .inr ⟨list, h, rfl, rfl⟩⟩))
      fun secondaryFailed => ?_
    trivial

theorem calls_settleItem (item : α) (clearCollections : Bool) (extra : List Key) :
    Calls (Settles policy item clearCollections extra)
      (settleItem policy item clearCollections extra) := by
  have hregister (clearFailed : Bool) := Calls.bind
    (calls_registerItem policy item clearCollections extra)
    fun registerFailed => calls_pure (clearFailed || registerFailed)
  unfold settleItem
  cases clearCollections with
  | true => exact Calls.bind (calls_invalidateCollections policy item extra) hregister
  | false => exact hregister false

/-- The calls of a save of an item: the write of its document, those that settle the item and its
removal. -/
theorem calls_saveItem_document {S : Call → Prop} (item : α) (token : Token)
    (clearCollections : Bool) (extra : List Key)
    (hset : ∀ document, Cacheable.toJson? item = some document →
      S (.setValue (ItemKeys.of policy.names item).primary (ItemKeys.of policy.names item).cached
        document.compact token (Cacheable.ttl α policy.ttls)))
    (hsettle : Cacheable.ttl α policy.ttls ≠ skipTtl → ∀ c,
      Settles policy item clearCollections extra c → S c)
    (hdelete : S (.deleteValue (ItemKeys.of policy.names item).cached false true)) :
    Calls S (saveItem policy item token clearCollections extra) := by
  unfold saveItem
  simp only
  split
  · trivial
  rename_i hskip
  have hsettle := hsettle fun ht => hskip (.inl ht)
  split
  · exact calls_logged _ _
  rename_i document hdoc
  refine Calls.bind (calls_note _) fun _ =>
    Calls.bind ((calls_call _).2 (hset document hdoc)) fun answer => ?_
  cases answer with
  | error fault => exact calls_reported _ _ _
  | ok result =>
    simp only
    split
    · have hrollback : Calls S (rollback (ItemKeys.of policy.names item)) := by
        refine Calls.bind ((calls_call _).2 hdelete) fun answer =>
          Calls.bind (calls_note _) fun _ => ?_
        cases answer with
        | ok u => trivial
        | error fault => exact calls_logged _ _
      have hregister (clearFailed : Bool) := Calls.bind
        ((calls_registerItem policy item clearCollections extra).mono hsettle)
        fun registerFailed =>
          show Calls S (if (clearFailed || registerFailed) = true then
              rollback (ItemKeys.of policy.names item)
            else do
              note (.store true)
              log (.stored (ItemKeys.of policy.names item).primary)
              return .stored) by
            split
            · exact hrollback
            · exact calls_reported _ _ _
      cases clearCollections with
      | true =>
        exact Calls.bind ((calls_invalidateCollections policy item extra).mono hsettle) hregister
      | false => exact hregister false
    · exact calls_reported _ _ _

theorem calls_saveItem {S : Call → Prop} (item : α) (token : Token) (clearCollections : Bool)
    (extra : List Key)
    (hset : ∀ value, S (.setValue (ItemKeys.of policy.names item).primary
      (ItemKeys.of policy.names item).cached value token (Cacheable.ttl α policy.ttls)))
    (hsettle : Cacheable.ttl α policy.ttls ≠ skipTtl → ∀ c,
      Settles policy item clearCollections extra c → S c)
    (hdelete : S (.deleteValue (ItemKeys.of policy.names item).cached false true)) :
    Calls S (saveItem policy item token clearCollections extra) :=
  calls_saveItem_document policy item token clearCollections extra
    (fun document _ => hset document.compact) hsettle hdelete

end Settle

section SaveItemCases
variable {cfg policy} {m : Memory} {item : α} {token : Token} {clearCollections : Bool}
  {extra : List Key} {outcome : SaveOutcome} {m' : Memory}

/-- A save of an item leaves the store alone, or it is refused by the store, or it writes the item
and settles it, for good or for the item to be removed again. -/
theorem saveItem_cases (hr : cfg.rules = Rules.standard)
    (h : (saveItem policy item token clearCollections extra).on cfg m = (outcome, m')) :
    (m' = m ∧ (outcome = .skipped ∨ outcome = .notCached)) ∨
    ∃ document, Cacheable.toJson? item = some document ∧ Cacheable.ttl α policy.ttls ≠ skipTtl ∧
      ((¬ m.MayStore (ItemKeys.of policy.names item).primary token ∧ outcome = .conflict ∧
          m' = (m.setValue cfg (ItemKeys.of policy.names item).primary
            (ItemKeys.of policy.names item).cached document.compact token
            (Cacheable.ttl α policy.ttls)).memory) ∨
        m.MayStore (ItemKeys.of policy.names item).primary token ∧
        ∃ failed settled,
          (settleItem policy item clearCollections extra).on cfg
            (m.setValue cfg (ItemKeys.of policy.names item).primary
              (ItemKeys.of policy.names item).cached document.compact token
              (Cacheable.ttl α policy.ttls)).memory = (failed, settled) ∧
          (failed = false ∧ outcome = .stored ∧ m' = settled ∨
            failed = true ∧ outcome = .rolledBack ∧
              m' = (settled.deleteValue cfg (ItemKeys.of policy.names item).cached false
                true).memory)) := by
  by_cases hskip : Cacheable.ttl α policy.ttls = skipTtl ∨ token = Token.noLock
  · rw [saveItem_on_skipped cfg policy m item token clearCollections extra hskip] at h
    obtain ⟨rfl, rfl⟩ := Prod.mk.inj h
    exact .inl ⟨rfl, .inl rfl⟩
  · cases hdoc : Cacheable.toJson? item with
    | none =>
      rw [saveItem_on_unserializable cfg policy m item clearCollections extra hskip hdoc] at h
      obtain ⟨rfl, rfl⟩ := Prod.mk.inj h
      exact .inl ⟨rfl, .inr rfl⟩
    | some document =>
      refine .inr ⟨document, rfl, fun ht => hskip (.inl ht), ?_⟩
      by_cases hstore : m.MayStore (ItemKeys.of policy.names item).primary token
      · rw [saveItem_on_stored cfg policy m item clearCollections extra hskip hdoc hr hstore] at h
        refine .inr ⟨hstore, _, _, rfl, ?_⟩
        cases hfailed : ((settleItem policy item clearCollections extra).on cfg
            (m.setValue cfg (ItemKeys.of policy.names item).primary
              (ItemKeys.of policy.names item).cached document.compact token
              (Cacheable.ttl α policy.ttls)).memory).1 with
        | true =>
          simp only [hfailed, if_true] at h
          obtain ⟨rfl, rfl⟩ := Prod.mk.inj h
          exact .inr ⟨hfailed, rfl, rfl⟩
        | false =>
          simp only [hfailed, Bool.false_eq_true, if_false] at h
          obtain ⟨rfl, rfl⟩ := Prod.mk.inj h
          exact .inl ⟨hfailed, rfl, rfl⟩
      · rw [saveItem_on_refused cfg policy m item clearCollections extra hskip hdoc hr hstore] at h
        obtain ⟨rfl, rfl⟩ := Prod.mk.inj h
        exact .inl ⟨hstore, rfl, rfl⟩

/-- A save of an item that ends stored wrote the item and settled it without a failure. -/
theorem saveItem_stored
    (h : (saveItem policy item token clearCollections extra).on cfg m = (.stored, m')) :
    ∃ (document : Json) (m₁ : Memory), Cacheable.toJson? item = some document ∧
      Cacheable.ttl α policy.ttls ≠ skipTtl ∧
      m₁ = (m.perform cfg (.setValue (ItemKeys.of policy.names item).primary
        (ItemKeys.of policy.names item).cached document.compact token
        (Cacheable.ttl α policy.ttls))).memory ∧
      (∀ k ∈ (ItemKeys.of policy.names item).cached, m₁.live? k =
        some (.lasting m.now document.compact (Cacheable.ttl α policy.ttls))) ∧
      (settleItem policy item clearCollections extra).on cfg m₁ = (false, m') := by
  by_cases hskip : Cacheable.ttl α policy.ttls = skipTtl ∨ token = Token.noLock
  · rw [saveItem_on_skipped cfg policy m item token clearCollections extra hskip] at h
    cases h
  cases hdoc : Cacheable.toJson? item with
  | none =>
    rw [saveItem_on_unserializable cfg policy m item clearCollections extra hskip hdoc] at h
    cases h
  | some document =>
    obtain ⟨result, hanswer⟩ : ∃ result, (m.setValue cfg (ItemKeys.of policy.names item).primary
        (ItemKeys.of policy.names item).cached document.compact token
        (Cacheable.ttl α policy.ttls)).answer = .ok result := Memory.setValue_ok cfg _ _ _
    rw [saveItem_on_answered cfg policy m item clearCollections extra hskip hdoc hanswer] at h
    cases hstored : result.stored with
    | false =>
      simp only [hstored, Bool.false_eq_true, if_false] at h
      cases h
    | true =>
      simp only [hstored, if_true] at h
      split at h
      · cases h
      · rename_i hsettled
        obtain ⟨-, rfl⟩ := Prod.mk.inj h
        refine ⟨document, _, rfl, fun ht => hskip (.inl ht), rfl, fun k hk => ?_,
          Prod.ext (Bool.eq_false_iff.2 hsettled) rfl⟩
        exact Memory.live?_setValue_of_stored cfg _ _ _ hanswer hstored hk

/-- The registration of an item comes last and does not fail if the item is settled. -/
theorem registerItem_of_settled
    (h : (settleItem policy item clearCollections extra).on cfg m = (false, m')) :
    (registerItem policy item (ItemKeys.of policy.names item) (Cacheable.ttl α policy.ttls)).on cfg
      (on cfg (if clearCollections then
        invalidateCollections (ItemKeys.of policy.names item) extra else pure false) m).2 =
      (false, m') := by
  rw [settleItem_on] at h
  obtain ⟨hfailed, hsettled⟩ := Prod.mk.inj h
  exact Prod.ext (Bool.or_eq_false_iff.1 hfailed).2 hsettled

end SaveItemCases

end CacheCoherence
