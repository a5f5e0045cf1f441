import CacheCoherence.Proofs.DependencyLists
import CacheCoherence.Proofs.Memory.Runs

/-!
# What a call leaves alone

A call names the keys whose slots it may write, and clearing a list reaches in addition what the
list spells. Any other slot is left as it was. A slot that serves as a dependency list, and is never
named in another role, is changed in few ways only: it is cleared, flushed or extended. And wherever
a call leaves a slot that was not there before, the slot holds a token, or a value that was stored,
or a list that was added to.
-/
namespace CacheCoherence

/-- The keys that a call names in another role than that of a dependency list. -/
def Call.slots : Call → List Key
  | .getValue key _ => [key]
  | .getValues keys _ => keys
  | .setValue lockKey keys _ _ _ => lockKey :: keys
  | .deleteValue keys _ _ => keys
  | .writeToken _ keys => keys
  | .releaseToken keys _ => keys
  | .addDependency .. | .clearDependencies .. | .flush .. | .registerHandler .. => []

/-- A call that reaches no slots but those that it names. -/
def Call.OnSlots : Call → Prop
  | .addDependency .. | .clearDependencies .. | .flush .. => False
  | _ => True

theorem Call.OnSlots.ne {c : Call} (h : c.OnSlots) :
    (∀ lists dependents ttl, c ≠ .addDependency lists dependents ttl) ∧
      (∀ key tombstone, c ≠ .clearDependencies key tombstone) ∧
      ∀ root tombstones, c ≠ .flush root tombstones := by
  refine ⟨?_, ?_, ?_⟩
  · rintro _ _ _ rfl
    exact h
  · rintro _ _ rfl
    exact h
  · rintro _ _ rfl
    exact h

namespace Memory
variable {cfg : MemorySettings} {m : Memory} {k : Key}

theorem live?_lookups_of_not_mem {reads : List (Key × Bool)} (h : k ∉ reads.map Prod.fst) :
    (lookups cfg reads m).2.live? k = m.live? k := by
  induction reads generalizing m with
  | nil => rfl
  | cons read rest ih =>
    obtain ⟨key, lock⟩ := read
    rw [List.map_cons, List.mem_cons, not_or] at h
    rw [lookups_cons, ih h.2, live?_lookup, if_neg (fun hc => h.1 hc.1)]

/-- A slot that a call does not name is only reached by additions to its list, by the clearing of a
list and by a flush. -/
theorem live?_perform_of_not_mem (hr : cfg.rules = Rules.standard) {c : Call} (h : k ∉ c.slots)
    (hadd : ∀ lists dependents ttl, c = .addDependency lists dependents ttl → k ∉ lists)
    (hclear : ∀ key tombstone, c = .clearDependencies key tombstone → k ∉ m.cleared key)
    (hflush : ∀ root tombstones, c ≠ .flush root tombstones) :
    (m.perform cfg c).memory.live? k = m.live? k := by
  cases c with
  | getValue key lock =>
    have hne : k ≠ key := fun he => h (he ▸ List.mem_singleton_self key)
    change (m.lookup cfg key lock).2.live? k = m.live? k
    rw [live?_lookup, if_neg (fun hc => hne hc.1)]
  | getValues keys locks =>
    change (m.getValues cfg keys locks).memory.live? k = m.live? k
    rw [getValues_memory]
    split
    · rename_i hlen
      apply live?_lookups_of_not_mem
      rw [List.map_fst_zip (Nat.le_of_eq hlen)]
      exact h
    · rfl
  | setValue lockKey keys value token ttl =>
    obtain ⟨hlock, hkeys⟩ := not_or.1 (mt List.mem_cons.2 h)
    change (m.setValue cfg lockKey keys value token ttl).memory.live? k = m.live? k
    by_cases hs : m.MayStore lockKey token
    · rw [live?_setValue_stored cfg keys value ttl hr hs, if_neg hkeys]
    · rw [live?_setValue_refused cfg keys value ttl hr hs, if_neg (fun hc => hlock hc.1)]
  | deleteValue keys tombstone force =>
    change (m.deleteValue cfg keys tombstone force).memory.live? k = m.live? k
    rw [live?_deleteValue, if_neg (fun hc => h hc.1)]
  | writeToken kind keys =>
    have hkeys : k ∉ keys := h
    change (m.writeToken cfg kind keys).memory.live? k = m.live? k
    by_cases hg : m.Grants kind keys
    · rw [live?_writeToken_granted cfg m hr hg, if_neg hkeys]
    · obtain ⟨-, -, -, hslot⟩ := writeToken_refused cfg m hr hg
      exact (hslot k).1 fun hm => hkeys hm.1
  | releaseToken keys token =>
    change (m.releaseToken keys token).memory.live? k = m.live? k
    rw [live?_releaseToken, if_neg (fun hc => h hc.2.1)]
  | addDependency lists dependents ttl =>
    exact live?_addDependency_of_not_mem m lists dependents ttl (hadd _ _ _ rfl)
  | clearDependencies key tombstone =>
    change (m.clearDependencies cfg key tombstone).memory.live? k = m.live? k
    rw [live?_clearDependencies, if_neg (hclear _ _ rfl)]
  | flush root tombstones => exact absurd rfl (hflush root tombstones)
  | registerHandler key handler => rfl

/-- What a call may do to a slot that serves as a dependency list. -/
theorem live?_list (hr : cfg.rules = Rules.standard) {c : Call} {list : Key}
    (h : list ∉ c.slots) :
    (m.perform cfg c).memory.live? list = m.live? list ∨
    (∃ key tombstone, c = .clearDependencies key tombstone ∧ list ∈ m.cleared key ∧
      (m.perform cfg c).memory.live? list = leftover cfg m.now tombstone) ∨
    (∃ root tombstones, c = .flush root tombstones ∧ isUnder root list = true ∧
      (m.perform cfg c).memory.live? list =
        (m.live? list).filter fun s => !tombstones && isTombstone s.text) ∨
    ∃ lists dependents ttl text, c = .addDependency lists dependents ttl ∧ list ∈ lists ∧
      m.content list ≠ some Token.tombstone ∧
      DependencyList.merge list (m.listText list) dependents = .ok text ∧
      (m.perform cfg c).memory.live? list = some (m.extendedSlot ttl list text) := by
  cases c with
  | clearDependencies key tombstone =>
    change (m.clearDependencies cfg key tombstone).memory.live? list = _ ∨ _
    by_cases hmem : list ∈ m.cleared key
    · refine .inr (.inl ⟨key, tombstone, rfl, hmem, ?_⟩)
      change (m.clearDependencies cfg key tombstone).memory.live? list = _
      rw [live?_clearDependencies, if_pos hmem]
    · rw [live?_clearDependencies, if_neg hmem]
      exact .inl rfl
  | flush root tombstones =>
    have hflush := live?_flush m root tombstones list
    cases hunder : isUnder root list with
    | true =>
      refine .inr (.inr (.inl ⟨root, tombstones, rfl, hunder, ?_⟩))
      change (m.flush root tombstones).memory.live? list = _
      rw [hflush, hunder]
      simp
    | false =>
      left
      change (m.flush root tombstones).memory.live? list = _
      rw [hflush, hunder]
      cases m.live? list <;> simp [Option.filter]
  | addDependency lists dependents ttl =>
    cases ha : (m.addDependency lists dependents ttl).answer with
    | error fault =>
      left
      change (m.addDependency lists dependents ttl).memory.live? list = _
      rw [addDependency_failed m lists dependents ttl ha]
    | ok u =>
      by_cases hmem : list ∈ lists
      · obtain ⟨htombstone, text, hmerge, hslot⟩ :=
          (addDependency_ok m lists dependents ttl ha list).2 hmem
        exact .inr (.inr (.inr ⟨lists, dependents, ttl, text, rfl, hmem, htombstone, hmerge,
          hslot⟩))
      · exact .inl (live?_addDependency_of_not_mem m lists dependents ttl hmem)
  | _ =>
    left
    refine live?_perform_of_not_mem hr h ?_ ?_ ?_
    · rintro _ _ _ ⟨⟩
    · rintro _ _ ⟨⟩
    · rintro _ _ ⟨⟩

section Written

theorem live?_lookups_cases (reads : List (Key × Bool)) {slot : Slot}
    (h : (lookups cfg reads m).2.live? k = some slot) :
    m.live? k = some slot ∨ ∃ n, slot.text = Token.issue LockKind.read.name n := by
  induction reads generalizing m with
  | nil => exact .inl h
  | cons read rest ih =>
    obtain ⟨key, lock⟩ := read
    rw [lookups_cons] at h
    rcases ih h with hfirst | htoken
    · rw [live?_lookup] at hfirst
      split at hfirst
      · cases hfirst
        exact .inr ⟨m.issued, rfl⟩
      · exact .inl hfirst
    · exact .inr htoken

theorem eq_tombstone_of_leftover {tombstone : Bool} {slot : Slot}
    (h : leftover cfg m.now tombstone = some slot) : slot.text = Token.tombstone := by
  cases tombstone with
  | true =>
    cases h
    rfl
  | false => cases h

/-- Whatever is in a slot after a call was there before, or is a token, a value that was stored or a
list that dependents were added to. -/
theorem live?_perform_cases (hr : cfg.rules = Rules.standard) {c : Call} {slot : Slot}
    (h : (m.perform cfg c).memory.live? k = some slot) :
    m.live? k = some slot ∨
    (∃ content : Content, content ≠ .value ∧ content.Spells slot.text) ∨
    (∃ lockKey keys token ttl, c = .setValue lockKey keys slot.text token ttl ∧ k ∈ keys ∧
      m.MayStore lockKey token) ∨
    ∃ lists dependents ttl, c = .addDependency lists dependents ttl ∧ k ∈ lists ∧
      DependencyList.merge k (m.listText k) dependents = .ok slot.text := by
  have hread {n : Nat} (htext : slot.text = Token.issue LockKind.read.name n) :
      ∃ content : Content, content ≠ .value ∧ content.Spells slot.text :=
    ⟨.lock .read, by simp, n, htext⟩
  have hburied (htext : slot.text = Token.tombstone) :
      ∃ content : Content, content ≠ .value ∧ content.Spells slot.text :=
    ⟨.tombstone, by simp, htext⟩
  cases c with
  | getValue key lock =>
    rcases live?_lookups_cases [(key, lock)] h with hsame | ⟨n, htext⟩
    · exact .inl hsame
    · exact .inr (.inl (hread htext))
  | getValues keys locks =>
    change (m.getValues cfg keys locks).memory.live? k = some slot at h
    rw [getValues_memory] at h
    split at h
    · rcases live?_lookups_cases _ h with hsame | ⟨n, htext⟩
      · exact .inl hsame
      · exact .inr (.inl (hread htext))
    · exact .inl h
  | setValue lockKey keys value token ttl =>
    change (m.setValue cfg lockKey keys value token ttl).memory.live? k = some slot at h
    by_cases hs : m.MayStore lockKey token
    · rw [live?_setValue_stored cfg keys value ttl hr hs] at h
      split at h
      · cases h
        exact .inr (.inr (.inl ⟨lockKey, keys, token, ttl, rfl, ‹_›, hs⟩))
      · exact .inl h
    · rw [live?_setValue_refused cfg keys value ttl hr hs] at h
      split at h
      · cases h
      · exact .inl h
  | deleteValue keys tombstone force =>
    change (m.deleteValue cfg keys tombstone force).memory.live? k = some slot at h
    rw [live?_deleteValue] at h
    split at h
    · exact .inr (.inl (hburied (eq_tombstone_of_leftover h)))
    · exact .inl h
  | writeToken kind keys =>
    change (m.writeToken cfg kind keys).memory.live? k = some slot at h
    by_cases hg : m.Grants kind keys
    · rw [live?_writeToken_granted cfg m hr hg] at h
      split at h
      · cases h
        exact .inr (.inl ⟨.lock kind, by simp, m.issued, rfl⟩)
      · exact .inl h
    · obtain ⟨-, -, -, hslot⟩ := writeToken_refused cfg m hr hg
      by_cases hm : m.Marks kind keys k
      · obtain ⟨n, -, -, hlive⟩ := (hslot k).2 hm
        rw [h] at hlive
        cases hlive
        exact .inr (.inl ⟨.conflict, by simp, n, rfl⟩)
      · exact .inl (((hslot k).1 hm).symm.trans h)
  | releaseToken keys token =>
    change (m.releaseToken keys token).memory.live? k = some slot at h
    rw [live?_releaseToken] at h
    split at h
    · cases h
    · exact .inl h
  | addDependency lists dependents ttl =>
    change (m.addDependency lists dependents ttl).memory.live? k = some slot at h
    cases ha : (m.addDependency lists dependents ttl).answer with
    | error fault =>
      rw [addDependency_failed m lists dependents ttl ha] at h
      exact .inl h
    | ok u =>
      obtain ⟨hout, hin⟩ := addDependency_ok m lists dependents ttl ha k
      by_cases hmem : k ∈ lists
      · obtain ⟨-, text, hmerge, hlive⟩ := hin hmem
        rw [h] at hlive
        cases hlive
        exact .inr (.inr (.inr ⟨lists, dependents, ttl, rfl, hmem, hmerge⟩))
      · exact .inl ((hout hmem).symm.trans h)
  | clearDependencies key tombstone =>
    change (m.clearDependencies cfg key tombstone).memory.live? k = some slot at h
    rw [live?_clearDependencies] at h
    split at h
    · exact .inr (.inl (hburied (eq_tombstone_of_leftover h)))
    · exact .inl h
  | flush root tombstones =>
    change (m.flush root tombstones).memory.live? k = some slot at h
    rw [live?_flush, Option.filter_eq_some_iff] at h
    exact .inl h.1
  | registerHandler key handler => exact .inl h

end Written

end Memory
end CacheCoherence
