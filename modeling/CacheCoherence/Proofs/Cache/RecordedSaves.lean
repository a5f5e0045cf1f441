import CacheCoherence.Proofs.Cache.Collection
import CacheCoherence.Proofs.RecordedRuns

/-!
# Saves any of whose calls may fail

A save on a recorded run: what it comes to when some of its calls are made to fail. A call that
fails leaves the store as it was, so every way through a save is a few of its calls in a row, and
the outcome tells which of them were made.
-/
namespace CacheCoherence
open Operation
variable {cfg : MemorySettings} {fails : Failures} {policy : Policy} {α : Type} [Cacheable α]
  {outcome : SaveOutcome} {r r' : Recorded}

section Calls
variable (cfg fails r) in
theorem Recorded.ask_cases (c : Call) :
    ((r.ask cfg fails c).1 = c.failed (.backend .injected) ∧
        (r.ask cfg fails c).2.memory = r.memory ∧
        (c, some (.backend .injected)) ∈ (r.ask cfg fails c).2.calls) ∨
      ((r.ask cfg fails c).1 = (r.memory.perform cfg c).answer ∧
        (r.ask cfg fails c).2.memory = (r.memory.perform cfg c).memory) := by
  unfold Recorded.ask
  split
  · exact .inl ⟨rfl, rfl, List.mem_append_right _ List.mem_cons_self⟩
  · exact .inr ⟨rfl, rfl⟩

variable (cfg fails r) in
theorem failing_recorded (skip : Bool) (e : Event) (attempt : Operation (Except Fault Unit)) :
    ((failing skip e attempt).recorded cfg fails r).1 =
        (if skip then false else !(attempt.recorded cfg fails r).1.isOk) ∧
      ((failing skip e attempt).recorded cfg fails r).2.memory =
        (if skip then r else (attempt.recorded cfg fails r).2).memory ∧
      ((failing skip e attempt).recorded cfg fails r).2.calls =
        (if skip then r else (attempt.recorded cfg fails r).2).calls := by
  cases skip with
  | true => exact ⟨rfl, rfl, rfl⟩
  | false =>
    simp only [failing, Bool.false_eq_true, if_false, recorded_bind]
    cases (attempt.recorded cfg fails r).1 <;> exact ⟨rfl, rfl, rfl⟩

theorem rollback_recorded {keys : ItemKeys}
    (h : (rollback keys).recorded cfg fails r = (outcome, r')) :
    outcome = .rolledBack ∨ outcome = .rollbackFailed := by
  simp only [rollback, recorded_bind, recorded_note] at h
  split at h
  · exact .inl (congrArg Prod.fst h).symm
  · exact .inr (congrArg Prod.fst h).symm

theorem rollback_removes {keys : ItemKeys}
    (h : (rollback keys).recorded cfg fails r = (.rolledBack, r')) :
    r'.memory = (r.memory.deleteValue cfg keys.cached false true).memory := by
  simp only [rollback, recorded_bind, recorded_note, recorded_deleteValue] at h
  rcases Recorded.ask_cases cfg fails r (.deleteValue keys.cached false true) with
    ⟨hanswer, -, -⟩ | ⟨-, hdone⟩
  · rw [hanswer] at h
    cases congrArg Prod.fst h
  · split at h
    · obtain ⟨-, rfl⟩ := Prod.mk.inj h
      exact hdone
    · cases congrArg Prod.fst h

variable (cfg fails r) in
theorem Recorded.ask_setValue_cases (lockKey : Key) (keys : List Key) (value : String)
    (token : Token) (ttl : Nat) :
    ((∃ fault, (r.ask cfg fails (.setValue lockKey keys value token ttl)).1 = .error fault) ∧
        (r.ask cfg fails (.setValue lockKey keys value token ttl)).2.memory = r.memory) ∨
      ∃ result, (r.ask cfg fails (.setValue lockKey keys value token ttl)).1 = .ok result ∧
        (r.memory.setValue cfg lockKey keys value token ttl).answer = .ok result ∧
        (r.ask cfg fails (.setValue lockKey keys value token ttl)).2.memory =
          (r.memory.setValue cfg lockKey keys value token ttl).memory := by
  rcases Recorded.ask_cases cfg fails r (.setValue lockKey keys value token ttl) with
    ⟨hanswer, hmemory, -⟩ | ⟨hanswer, hmemory⟩
  · exact .inl ⟨⟨_, hanswer⟩, hmemory⟩
  · obtain ⟨result, hresult⟩ : ∃ result, (r.memory.setValue cfg lockKey keys value token
        ttl).answer = .ok result := Memory.setValue_ok cfg _ _ _
    exact .inr ⟨result, hanswer.trans hresult, hresult, hmemory⟩

end Calls

section Item
variable {item : α} {token : Token} {clearCollections : Bool} {extra : List Key}

/-- A save of an item that gets as far as the write fails there, or it is refused, or it writes the
item, settles it and keeps it unless something failed. -/
theorem saveItem_recorded_ends
    (h : (saveItem policy item token clearCollections extra).recorded cfg fails r =
      (outcome, r')) :
    (outcome = .skipped ∧ r' = r) ∨ (outcome = .notCached ∧ r'.memory = r.memory) ∨
    ∃ document : Json, Cacheable.toJson? item = some document ∧
      ((outcome = .conflict ∧
        r'.memory = (r.memory.setValue cfg (ItemKeys.of policy.names item).primary
          (ItemKeys.of policy.names item).cached document.compact token
          (Cacheable.ttl α policy.ttls)).memory ∧
        ∃ result, (r.memory.setValue cfg (ItemKeys.of policy.names item).primary
          (ItemKeys.of policy.names item).cached document.compact token
          (Cacheable.ttl α policy.ttls)).answer = .ok result ∧ result.stored = false) ∨
      ∃ r₁ cleared r₂ registered r₃,
        r₁.memory = (r.memory.setValue cfg (ItemKeys.of policy.names item).primary
          (ItemKeys.of policy.names item).cached document.compact token
          (Cacheable.ttl α policy.ttls)).memory ∧
        (if clearCollections then invalidateCollections (ItemKeys.of policy.names item) extra
          else pure false).recorded cfg fails r₁ = (cleared, r₂) ∧
        (registerItem policy item (ItemKeys.of policy.names item)
          (Cacheable.ttl α policy.ttls)).recorded cfg fails r₂ = (registered, r₃) ∧
        (cleared = false ∧ outcome = .stored ∧ r'.memory = r₃.memory ∨
          (rollback (ItemKeys.of policy.names item)).recorded cfg fails r₃ = (outcome, r'))) := by
  by_cases hskip : Cacheable.ttl α policy.ttls = skipTtl ∨ token = Token.noLock
  · rw [saveItem, if_pos hskip] at h
    obtain ⟨rfl, rfl⟩ := Prod.mk.inj h
    exact .inl ⟨rfl, rfl⟩
  rw [saveItem, if_neg hskip] at h
  cases hdoc : Cacheable.toJson? item with
  | none =>
    simp only [hdoc, recorded_bind, recorded_log, recorded_pure] at h
    obtain ⟨rfl, rfl⟩ := Prod.mk.inj h
    exact .inr (.inl ⟨rfl, rfl⟩)
  | some document =>
  simp only [hdoc, recorded_bind, recorded_note, recorded_setValue] at h
  rcases Recorded.ask_setValue_cases cfg fails r (ItemKeys.of policy.names item).primary
    (ItemKeys.of policy.names item).cached document.compact token (Cacheable.ttl α policy.ttls) with
    ⟨⟨fault, hanswer⟩, hmemory⟩ | ⟨result, hanswer, hresult, hmemory⟩
  · simp only [hanswer, recorded_bind, recorded_note, recorded_log, recorded_pure] at h
    obtain ⟨rfl, rfl⟩ := Prod.mk.inj h
    exact .inr (.inl ⟨rfl, hmemory⟩)
  refine .inr (.inr ⟨document, rfl, ?_⟩)
  simp only [hanswer] at h
  cases hstored : result.stored with
  | false =>
    simp only [hstored, Bool.false_eq_true, if_false, recorded_bind, recorded_note, recorded_log,
      recorded_pure] at h
    obtain ⟨rfl, rfl⟩ := Prod.mk.inj h
    exact .inl ⟨rfl, hmemory, result, hresult, hstored⟩
  | true =>
    right
    -- Without an invalidation the save goes on as after one that did not fail.
    cases clearCollections
    all_goals
      simp only [hstored, Bool.false_eq_true, if_true, if_false, recorded_bind] at h
      refine ⟨_, _, _, _, _, hmemory, rfl, rfl, ?_⟩
      split at h
      · exact .inr h
      · rename_i hfailed
        simp only [recorded_bind, recorded_note, recorded_log, recorded_pure] at h
        obtain ⟨rfl, rfl⟩ := Prod.mk.inj h
        have hfailed := Bool.or_eq_false_iff.1 (Bool.eq_false_iff.2 hfailed)
        exact .inl ⟨hfailed.1, rfl, rfl⟩

end Item

section Collection
variable {β : Type} [Cacheable β] {owner : β} {items : List α} {lockKey collectionKey : Key}
  {token : Token} {isGlobal : Bool}

/-- The outcome that the answer to the write of a collection comes to. -/
def SaveOutcome.ofWrite : Except Fault SetResult → SaveOutcome
  | .error _ => .notCached
  | .ok result => if result.stored then .stored else .conflict

theorem write_recorded {value : String} {ttl : Nat}
    {report : Except Fault SetResult → Operation SaveOutcome}
    (hreport : ∀ answer r₁, ((report answer).recorded cfg fails r₁).1 = .ofWrite answer ∧
      ((report answer).recorded cfg fails r₁).2.memory = r₁.memory)
    (h : (call (.setValue lockKey [collectionKey] value token ttl) >>= report).recorded cfg fails
      r = (outcome, r')) :
    (outcome = .notCached ∧ r'.memory = r.memory) ∨
      ∃ result,
        (r.memory.setValue cfg lockKey [collectionKey] value token ttl).answer = .ok result ∧
        r'.memory = (r.memory.setValue cfg lockKey [collectionKey] value token ttl).memory ∧
        outcome = if result.stored then .stored else .conflict := by
  simp only [recorded_bind, recorded_setValue] at h
  obtain ⟨houtcome, hkept⟩ := hreport
    (r.ask cfg fails (.setValue lockKey [collectionKey] value token ttl)).1
    (r.ask cfg fails (.setValue lockKey [collectionKey] value token ttl)).2
  rw [h] at houtcome hkept
  rcases Recorded.ask_setValue_cases cfg fails r lockKey [collectionKey] value token ttl with
    ⟨⟨fault, hanswer⟩, hmemory⟩ | ⟨result, hanswer, hresult, hmemory⟩
  · rw [hanswer] at houtcome
    exact .inl ⟨houtcome, hkept.trans hmemory⟩
  · rw [hanswer] at houtcome
    exact .inr ⟨result, hresult, hkept.trans hmemory, houtcome⟩

/-- A save of a collection leaves the store alone, or it registers the collection and then fails to
write it, or is answered as the store answers the write. -/
theorem saveCollection_recorded_ends
    (h : (saveCollection policy owner items lockKey collectionKey token isGlobal).recorded cfg fails
      r = (outcome, r')) :
    (outcome = .skipped ∧ r' = r) ∨ (outcome = .notCached ∧ r'.memory = r.memory) ∨
    ∃ (document : Json) (m : Memory), collectionJson? items = some document ∧
      m = (r.memory.addDependency (collectionDependencies policy owner items isGlobal).keys
        [collectionKey] (Cacheable.ttl β policy.ttls)).memory ∧
      ((outcome = .notCached ∧ r'.memory = m) ∨
        ∃ result, (m.setValue cfg lockKey [collectionKey] document.compact token
            (Cacheable.ttl β policy.ttls)).answer = .ok result ∧
          r'.memory = (m.setValue cfg lockKey [collectionKey] document.compact token
            (Cacheable.ttl β policy.ttls)).memory ∧
          outcome = if result.stored then .stored else .conflict) := by
  rw [saveCollection] at h
  by_cases hskip : Cacheable.ttl β policy.ttls = skipTtl ∨ Cacheable.ttl α policy.ttls = skipTtl ∨
      token = Token.noLock
  · rw [if_pos hskip] at h
    obtain ⟨rfl, rfl⟩ := Prod.mk.inj h
    exact .inl ⟨rfl, rfl⟩
  rw [if_neg hskip] at h
  right
  simp only at h
  split at h
  · obtain ⟨rfl, rfl⟩ := Prod.mk.inj h
    exact .inl ⟨rfl, rfl⟩
  cases hdoc : collectionJson? items with
  | none =>
    simp only [hdoc] at h
    obtain ⟨rfl, rfl⟩ := Prod.mk.inj h
    exact .inl ⟨rfl, rfl⟩
  | some document =>
  simp only [hdoc, recorded_bind, recorded_note] at h
  split at h
  · rename_i hempty
    rw [pure_bind] at h
    refine .inr ⟨document, r.memory, rfl, ?_, write_recorded (fun answer r₁ => ?_) h⟩
    · rw [List.isEmpty_iff.1 hempty, addDependency_nil]
    · rcases answer with fault | ⟨stored, conflict⟩
      · exact ⟨rfl, rfl⟩
      · cases stored <;> exact ⟨rfl, rfl⟩
  · simp only [recorded_bind, recorded_addDependency] at h
    rcases Recorded.ask_cases cfg fails r (.addDependency
        (collectionDependencies policy owner items isGlobal).keys [collectionKey]
        (Cacheable.ttl β policy.ttls)) with ⟨hanswer, hmemory, -⟩ | ⟨hanswer, hmemory⟩
    · rw [hanswer] at h
      obtain ⟨rfl, rfl⟩ := Prod.mk.inj h
      exact .inl ⟨rfl, hmemory⟩
    change _ = (r.memory.addDependency (collectionDependencies policy owner items isGlobal).keys
      [collectionKey] (Cacheable.ttl β policy.ttls)).answer at hanswer
    cases hadd : (r.memory.addDependency (collectionDependencies policy owner items isGlobal).keys
        [collectionKey] (Cacheable.ttl β policy.ttls)).answer with
    | error fault =>
      rw [hanswer, hadd] at h
      obtain ⟨rfl, rfl⟩ := Prod.mk.inj h
      exact .inl ⟨rfl, hmemory.trans (Memory.addDependency_failed r.memory _ _ _ hadd)⟩
    | ok u =>
      rw [hanswer, hadd] at h
      refine .inr ⟨document, _, rfl, hmemory, write_recorded (fun answer r₁ => ?_) h⟩
      rcases answer with fault | ⟨stored, conflict⟩
      · exact ⟨rfl, rfl⟩
      · cases stored <;> exact ⟨rfl, rfl⟩

end Collection

end CacheCoherence
