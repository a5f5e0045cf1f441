import CacheCoherence.Cache.Lock
import CacheCoherence.Proofs.Operations

/-!
# Locks on items, run on a store in memory

Taking a lock that is no delete lock is one call to the store, and so is giving any lock back.
-/
namespace CacheCoherence
open Operation
variable (cfg : MemorySettings) {α : Type} [Cacheable α] (policy : Policy) (m : Memory)

theorem takeItemLock_on {kind : LockKind} (hkind : kind ≠ .delete) (item : α) {token : Token}
    (h : (m.writeToken cfg kind ((ItemKeys.of policy.names item).lockKeys kind)).answer =
      .ok token) :
    (takeItemLock policy kind item).on cfg m =
      (.ok token,
        (m.writeToken cfg kind ((ItemKeys.of policy.names item).lockKeys kind)).memory) := by
  simp only [takeItemLock, on_bind, on_note, on_writeToken, h]
  by_cases hnone : token = Token.noLock
  · simp [hnone]
  · rw [if_neg hnone]
    cases kind with
    | delete => exact absurd rfl hkind
    | _ => simp

/-- Taking such a lock is granted with the next token, or refused. -/
theorem takeItemLock_cases (hr : cfg.rules = Rules.standard) {kind : LockKind}
    (hkind : kind ≠ .delete) (item : α) :
    (m.Grants kind ((ItemKeys.of policy.names item).lockKeys kind) ∧
      (takeItemLock policy kind item).on cfg m =
        (.ok (Token.issue kind.name m.issued),
          (m.writeToken cfg kind ((ItemKeys.of policy.names item).lockKeys kind)).memory)) ∨
    (¬ m.Grants kind ((ItemKeys.of policy.names item).lockKeys kind) ∧
      (takeItemLock policy kind item).on cfg m =
        (.ok Token.noLock,
          (m.writeToken cfg kind ((ItemKeys.of policy.names item).lockKeys kind)).memory)) := by
  by_cases hg : m.Grants kind ((ItemKeys.of policy.names item).lockKeys kind)
  · refine .inl ⟨hg, takeItemLock_on cfg policy m hkind item ?_⟩
    rw [Memory.writeToken_granted cfg m hr hg]
  · have hanswer := (Memory.writeToken_refused cfg m hr hg).1
    exact .inr ⟨hg, takeItemLock_on cfg policy m hkind item hanswer⟩

/-- A delete lock is always granted, and then everything that depends on the item is invalidated for
good. -/
theorem takeItemLock_on_delete (hr : cfg.rules = Rules.standard) (item : α) {list : Key}
    (hlist : Cacheable.dependenciesKey? policy.names item = some list)
    (hclear : ((m.writeToken cfg .delete
      ((ItemKeys.of policy.names item).lockKeys .delete)).memory.clearDependencies cfg list
        true).answer = .ok ()) :
    (takeItemLock policy .delete item).on cfg m =
      (.ok (Token.issue LockKind.delete.name m.issued),
        ((m.writeToken cfg .delete
          ((ItemKeys.of policy.names item).lockKeys .delete)).memory.clearDependencies cfg list
            true).memory) := by
  have hgrants : m.Grants .delete ((ItemKeys.of policy.names item).lockKeys .delete) :=
    ⟨by simp [ItemKeys.lockKeys], fun k _ => rfl⟩
  have hanswer : (m.writeToken cfg .delete
      ((ItemKeys.of policy.names item).lockKeys .delete)).answer =
        .ok (Token.issue LockKind.delete.name m.issued) := by
    rw [Memory.writeToken_granted cfg m hr hgrants]
  have hne := Token.issue_ne_noLock LockKind.delete.name m.issued
  have hown : (ItemKeys.of policy.names item).dependencies = some list := hlist
  simp only [takeItemLock, on_bind, on_note, on_writeToken, hanswer, if_neg hne, hown,
    on_clearDependencies, hclear]
  rfl

theorem releaseItemLock_on (kind : LockKind) (item : α) (token : Token) :
    ((releaseItemLock policy kind item token).on cfg m).2 =
      (m.releaseToken ((ItemKeys.of policy.names item).lockKeys kind) token).memory := by
  unfold releaseItemLock
  by_cases hnone : token = Token.noLock
  · simp [hnone, Memory.releaseToken]
  · simp [hnone]

theorem calls_takeItemLock {S : Call → Prop} {kind : LockKind} (item : α)
    (hwrite : S (.writeToken kind ((ItemKeys.of policy.names item).lockKeys kind)))
    (hclear : ∀ list, Cacheable.dependenciesKey? policy.names item = some list → kind = .delete →
      S (.clearDependencies list true))
    (hrelease : ∀ token,
      S (.releaseToken ((ItemKeys.of policy.names item).lockKeys kind) token)) :
    Calls S (takeItemLock policy kind item) := by
  refine Calls.bind (calls_note _) fun _ => Calls.bind ((calls_call _).2 hwrite) fun answer => ?_
  cases answer with
  | error fault => exact calls_logged _ _
  | ok token =>
    by_cases hnone : token = Token.noLock
    · simp only [if_pos hnone]
      exact calls_logged _ _
    · simp only [if_neg hnone]
      split
      · rename_i list hlist
        refine Calls.bind ((calls_call _).2 (hclear list hlist rfl)) fun cleared => ?_
        cases cleared with
        | error fault =>
          refine Calls.bind (calls_log _) fun _ => ?_
          exact Calls.bind ((calls_call _).2 (hrelease token)) fun _ => trivial
        | ok u => exact calls_logged _ _
      · exact calls_logged _ _

theorem calls_releaseItemLock {S : Call → Prop} (kind : LockKind) (item : α) (token : Token)
    (h : S (.releaseToken ((ItemKeys.of policy.names item).lockKeys kind) token)) :
    Calls S (releaseItemLock policy kind item token) := by
  unfold releaseItemLock
  split
  · trivial
  · exact Calls.bind (calls_note _) fun _ => (calls_call _).2 h

theorem releaseCollectionLock_on {kind : LockKind} {item : α} {extra keys : List Key}
    (h : collectionLockKeys policy kind item extra = .ok keys) (token : Token) :
    ((releaseCollectionLock policy kind item extra token).on cfg m).2 =
      (m.releaseToken keys token).memory := by
  unfold releaseCollectionLock
  rw [h]
  by_cases hnone : token = Token.noLock
  · simp [hnone, Memory.releaseToken]
  · simp [hnone]

section Collection
variable {S : Call → Prop} {policy} {kind : LockKind} {item : α} {extra : List Key}

theorem collectionLockKeys_ok {keys : List Key}
    (h : collectionLockKeys policy kind item extra = .ok keys) :
    keys = (Cacheable.ownCollection? policy.names item).toList ++ extra := by
  cases kind with
  | delete => exact (Except.ok.inj h).symm
  | read => exact (Except.ok.inj h).symm
  | create => cases h
  | update => cases h

theorem calls_takeCollectionLock
    (h : S (.writeToken kind ((Cacheable.ownCollection? policy.names item).toList ++ extra))) :
    Calls S (takeCollectionLock policy kind item extra) := by
  unfold takeCollectionLock
  split
  · trivial
  · rename_i keys hkeys
    rw [collectionLockKeys_ok hkeys]
    refine Calls.bind (calls_note _) fun _ => Calls.bind ((calls_call _).2 h) fun answer => ?_
    cases answer with
    | error fault => exact calls_logged _ _
    | ok token => trivial

theorem calls_releaseCollectionLock (token : Token)
    (h : S (.releaseToken ((Cacheable.ownCollection? policy.names item).toList ++ extra) token)) :
    Calls S (releaseCollectionLock policy kind item extra token) := by
  unfold releaseCollectionLock
  split
  · trivial
  · rename_i keys hkeys
    rw [collectionLockKeys_ok hkeys]
    split
    · trivial
    · exact Calls.bind (calls_note _) fun _ => Calls.bind ((calls_call _).2 h) fun _ => trivial

end Collection

end CacheCoherence
