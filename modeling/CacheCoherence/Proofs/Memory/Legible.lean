import CacheCoherence.Proofs.Memory.Lists
import CacheCoherence.Proofs.RecordedRuns

/-!
# What stands in a slot is what was written there

A store in memory is legible if every text in it is a token, or spells a list under a key that
serves as a list, or was written under its key as a value. A call that adds only to lists and stores
only what is accounted for leaves it so. Nothing that a legible store answers is corrupt as long as
only lists are used as lists, and the values that a reader finds are those that were written.
-/
namespace CacheCoherence

def Call.found : (c : Call) → c.Answer → List (Key × String)
  | .getValue key _, .ok lookup => lookup.value.toList.map fun raw => (key, raw)
  | .getValues keys _, .ok lookups =>
    (keys.zip lookups).flatMap fun slot => slot.2.value.toList.map fun raw => (slot.1, raw)
  | _, _ => []

def Call.written : (c : Call) → c.Answer → List (Key × String)
  | .setValue _ keys value _ _, .ok result =>
    if result.stored then keys.map fun k => (k, value) else []
  | _, _ => []

/-- A call uses as lists only keys that serve as lists. -/
def Call.UsesLists (isList : Key → Prop) : Call → Prop
  | .addDependency lists _ _ => ∀ list ∈ lists, isList list
  | .clearDependencies list _ => isList list
  | _ => True

namespace Memory
variable {cfg : MemorySettings} {m : Memory} {isList : Key → Prop}
  {written written' : Key → String → Prop} {k : Key} {raw : String}

variable (m isList written) in
/-- Every text is a token, or a list under the key of a list, or was written under its key. -/
def Legible : Prop :=
  ∀ k raw, m.content k = some raw →
    (∃ content : Content, content ≠ .value ∧ content.Spells raw) ∨
    (isList k ∧ ∃ members : KeySet, raw = DependencyList.encode members) ∨ written k raw

theorem Legible.mono (h : m.Legible isList written)
    (hwritten : ∀ k raw, written k raw → written' k raw) : m.Legible isList written' := by
  intro k raw hraw
  rcases h k raw hraw with htoken | hlist | hvalue
  · exact .inl htoken
  · exact .inr (.inl hlist)
  · exact .inr (.inr (hwritten k raw hvalue))

theorem Legible.advance (h : m.Legible isList written) (duration : Nat) :
    (m.advance duration).Legible isList written := by
  intro k raw hraw
  rw [content_eq_live?, Option.map_eq_some_iff] at hraw
  obtain ⟨slot, hlive, rfl⟩ := hraw
  refine h k slot.text ?_
  rw [content_eq_live?, live?_of_live?_advance hlive]
  rfl

theorem mem_written_of_mayStore (hr : cfg.rules = Rules.standard) {lockKey : Key}
    {keys : List Key} {value : String} {token : Token} {ttl : Nat} (hs : m.MayStore lockKey token)
    (hk : k ∈ keys) :
    (k, value) ∈ (Call.setValue lockKey keys value token ttl).written
      (m.perform cfg (.setValue lockKey keys value token ttl)).answer := by
  have hanswer : (m.perform cfg (.setValue lockKey keys value token ttl)).answer =
      .ok ⟨true, false⟩ :=
    congrArg Reply.answer (setValue_stored cfg keys value ttl hr hs)
  rw [hanswer]
  exact List.mem_map.2 ⟨k, hk, rfl⟩

/-- A call leaves a store legible if it adds to lists only and what it stores is accounted for. -/
theorem Legible.perform (hr : cfg.rules = Rules.standard) {c : Call}
    (h : m.Legible isList written) (hlists : c.UsesLists isList)
    (hold : ∀ k raw, written k raw → written' k raw)
    (hnew : ∀ entry ∈ c.written (m.perform cfg c).answer, written' entry.1 entry.2) :
    (m.perform cfg c).memory.Legible isList written' := by
  intro k raw hraw
  rw [content_eq_live?, Option.map_eq_some_iff] at hraw
  obtain ⟨slot, hlive, rfl⟩ := hraw
  rcases live?_perform_cases hr hlive with hsame | htoken |
    ⟨lockKey, keys, token, ttl, rfl, hk, hs⟩ | ⟨lists, dependents, ttl, rfl, hk, hmerge⟩
  · refine h.mono hold k slot.text ?_
    rw [content_eq_live?, hsame]
    rfl
  · exact .inl htoken
  · exact .inr (.inr (hnew (k, slot.text) (mem_written_of_mayStore hr hs hk)))
  · exact .inr (.inl ⟨hlists k hk, DependencyList.exists_encode_of_merge hmerge⟩)

theorem Legible.of_value (h : m.Legible isList written) (hraw : m.content k = some raw)
    (hvalue : isToken raw = false) :
    (isList k ∧ ∃ members : KeySet, raw = DependencyList.encode members) ∨ written k raw := by
  rcases h k raw hraw with ⟨content, hne, hspells⟩ | hrest
  · rw [hspells.isToken_iff.2 hne] at hvalue
    cases hvalue
  · exact hrest

section Faults
variable (h : m.Legible isList written) (hapart : ∀ k raw, written k raw → ¬ isList k)
include h hapart

theorem Legible.list (hlist : isList k) (hraw : m.content k = some raw)
    (hvalue : isToken raw = false) : ∃ members : KeySet, raw = DependencyList.encode members := by
  rcases h.of_value hraw hvalue with ⟨-, hmembers⟩ | hwritten
  · exact hmembers
  · exact absurd hlist (hapart k raw hwritten)

theorem Legible.decoded (hlist : isList k) : ∃ members, m.decoded k = .ok members := by
  cases htext : m.listText k with
  | none => exact ⟨.empty, by rw [Memory.decoded, htext]⟩
  | some raw =>
    obtain ⟨hraw, hvalue⟩ := Option.filter_eq_some_iff.1 htext
    rw [Bool.not_eq_true'] at hvalue
    obtain ⟨members, rfl⟩ := h.list hapart hlist hraw hvalue
    exact ⟨members, decoded_of_encode hraw⟩

/-- No call finds a slot corrupt that uses only lists as lists. -/
theorem Legible.not_corrupt {c : Call} (hlists : c.UsesLists isList) (key : Key) :
    c.fault? (m.perform cfg c).answer ≠ some (.corrupt key) := by
  intro hfault
  cases c with
  | getValue key lock => cases hfault
  | getValues keys locks =>
    change (Call.getValues keys locks).fault? (m.getValues cfg keys locks).answer = _ at hfault
    unfold getValues at hfault
    split at hfault <;> cases hfault
  | setValue lockKey keys value token ttl =>
    obtain ⟨result, hanswer⟩ : ∃ result,
        (m.setValue cfg lockKey keys value token ttl).answer = .ok result :=
      setValue_ok cfg keys value ttl
    change (Call.setValue lockKey keys value token ttl).fault? (m.setValue cfg lockKey keys value
      token ttl).answer = _ at hfault
    rw [hanswer] at hfault
    cases hfault
  | deleteValue keys tombstone force => cases hfault
  | writeToken kind keys =>
    change (Call.writeToken kind keys).fault? (m.writeToken cfg kind keys).answer = _ at hfault
    unfold writeToken at hfault
    split at hfault
    · cases hfault
    · simp only at hfault
      split at hfault <;> cases hfault
  | releaseToken keys token => cases hfault
  | addDependency lists dependents ttl =>
    change (Call.addDependency lists dependents ttl).fault? (m.addDependency lists dependents
      ttl).answer = _ at hfault
    cases ha : (m.addDependency lists dependents ttl).answer with
    | ok u =>
      rw [ha] at hfault
      cases hfault
    | error fault =>
      obtain ⟨list, -, rfl, -⟩ := addDependency_fault (fun list hlist =>
        h.decoded hapart (hlists list hlist)) ha
      rw [ha] at hfault
      cases hfault
  | clearDependencies list tombstone =>
    change (Call.clearDependencies list tombstone).fault? (m.clearDependencies cfg list
      tombstone).answer = _ at hfault
    obtain ⟨members, hdecoded⟩ := h.decoded hapart hlists
    rw [answer_clearDependencies, hdecoded] at hfault
    cases hfault
  | flush root tombstones => cases hfault
  | registerHandler key handler => cases hfault

end Faults

section Found

theorem mem_found_lookup {key : Key} {lock : Bool}
    (h : raw ∈ (m.lookup cfg key lock).1.value) :
    m.content key = some raw ∧ isToken raw = false := by
  cases hcontent : m.content key with
  | none =>
    have hvalue : (m.lookup cfg key lock).1.value = none := by
      cases lock <;> simp [lookup, hcontent]
    rw [hvalue] at h
    cases h
  | some found =>
    rw [lookup_of_content cfg m key lock hcontent, Lookup.observed] at h
    split at h
    · cases h
    · rename_i hvalue
      cases h
      exact ⟨rfl, by simpa using hvalue⟩

/-- Reading slots one after another, a reader finds the values that stood there in the beginning. -/
theorem mem_found_lookups {reads : List (Key × Bool)} {slot : Key × Lookup}
    (hslot : slot ∈ (reads.map Prod.fst).zip (lookups cfg reads m).1) (h : raw ∈ slot.2.value) :
    m.content slot.1 = some raw ∧ isToken raw = false := by
  induction reads generalizing m with
  | nil => cases hslot
  | cons read rest ih =>
    obtain ⟨key, lock⟩ := read
    rw [lookups_cons, List.map_cons, List.zip_cons_cons, List.mem_cons] at hslot
    rcases hslot with rfl | hrest
    · exact mem_found_lookup h
    · obtain ⟨hcontent, hvalue⟩ := ih hrest
      refine ⟨?_, hvalue⟩
      -- A read leaves nothing but a token where there was nothing.
      have hlive := live?_lookup cfg m key lock slot.1
      split at hlive
      · rw [content_eq_live?, hlive] at hcontent
        rw [← Option.some.inj hcontent, readLock, Slot.lasting,
          Content.isToken_issue_lock] at hvalue
        cases hvalue
      · rw [← content_of_live? hlive]
        exact hcontent

theorem content_of_found {c : Call} (h : (k, raw) ∈ c.found (m.perform cfg c).answer) :
    m.content k = some raw ∧ isToken raw = false := by
  cases c with
  | getValue key lock =>
    obtain ⟨found, hfound, hsame⟩ := List.mem_map.1 h
    cases hsame
    exact mem_found_lookup (Option.mem_toList.1 hfound)
  | getValues keys locks =>
    change (k, raw) ∈ (Call.getValues keys locks).found (m.getValues cfg keys locks).answer at h
    unfold getValues at h
    split at h
    · rename_i hlength
      obtain ⟨slot, hslot, hvalue⟩ := List.mem_flatMap.1 h
      obtain ⟨found, hfound, hsame⟩ := List.mem_map.1 hvalue
      cases hsame
      have hread : slot ∈ ((keys.zip locks).map Prod.fst).zip
          (lookups cfg (keys.zip locks) m).1 := by
        rwa [List.map_fst_zip (Nat.le_of_eq hlength)]
      exact mem_found_lookups hread (Option.mem_toList.1 hfound)
    · cases h
  | _ => cases h

end Found

end Memory
end CacheCoherence
