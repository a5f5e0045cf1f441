import CacheCoherence.Proofs.Memory.Basic

/-!
# Invalidating slots and keeping dependency lists

What is left in a slot by the calls that empty slots, by the one that adds dependents to lists and
by the flush of a namespace. Clearing a list reaches exactly the keys that the list spells and the
list itself; adding to lists is refused as a whole, and otherwise every list gains the dependents
and lasts no shorter than it would have.
-/
namespace CacheCoherence
namespace Memory
variable (cfg : MemorySettings) (m : Memory)

section DeleteValue
variable (keys : List Key) (tombstone force : Bool)

theorem live?_deleteValue (k : Key) :
    (m.deleteValue cfg keys tombstone force).memory.live? k =
      if k ∈ keys ∧ spared m.now force m.slots k = false then leftover cfg m.now tombstone
      else m.live? k := by
  have hget := get?_invalidateUnlocked cfg m.now tombstone force keys m.slots k
  by_cases hc : k ∈ keys ∧ spared m.now force m.slots k = false
  · rw [if_pos hc] at hget ⊢
    exact live?_of_get?_leftover cfg hget
  · rw [if_neg hc] at hget ⊢
    exact Slots.live?_congr hget

theorem live?_deleteValue_forced (k : Key) :
    (m.deleteValue cfg keys tombstone true).memory.live? k =
      if k ∈ keys then leftover cfg m.now tombstone else m.live? k := by
  rw [live?_deleteValue]
  simp [spared]

end DeleteValue

section ClearDependencies
variable (key : Key) (tombstone : Bool)

/-- What a slot spells as a dependency list; a slot without a list spells the empty one. -/
def decoded : Except Fault KeySet :=
  match m.listText key with
  | some raw => DependencyList.decode key raw
  | none => .ok .empty

/-- The keys that clearing a list reaches. -/
def cleared : List Key :=
  (match m.decoded key with
    | .ok set => set.keys
    | .error _ => []) ++ [key]

theorem live?_clearDependencies (k : Key) :
    (m.clearDependencies cfg key tombstone).memory.live? k =
      if k ∈ m.cleared key then leftover cfg m.now tombstone else m.live? k := by
  have hget := get?_foldl_invalidate cfg m.now tombstone (m.cleared key) m.slots k
  by_cases hc : k ∈ m.cleared key
  · rw [if_pos hc] at hget ⊢
    exact live?_of_get?_leftover cfg hget
  · rw [if_neg hc] at hget ⊢
    exact Slots.live?_congr hget

theorem answer_clearDependencies :
    (m.clearDependencies cfg key tombstone).answer = (m.decoded key).map fun _ => () := rfl

theorem decoded_congr {m m' : Memory} {key : Key} (h : m'.live? key = m.live? key) :
    m'.decoded key = m.decoded key := by
  unfold decoded listText
  rw [content_of_live? h]

theorem mem_cleared_iff (k : Key) :
    k ∈ m.cleared key ↔ (∃ set, m.decoded key = .ok set ∧ set.get? k = some ()) ∨ k = key := by
  unfold cleared
  rw [List.mem_append, List.mem_singleton]
  cases m.decoded key with
  | error fault => simp
  | ok set =>
    rw [Table.mem_keys_iff]
    constructor
    · rintro (⟨u, hu⟩ | rfl)
      · exact .inl ⟨set, rfl, hu⟩
      · exact .inr rfl
    · rintro (⟨set', hset, hu⟩ | rfl)
      · cases hset
        exact .inl ⟨(), hu⟩
      · exact .inr rfl

end ClearDependencies

section AddDependency
variable (lists dependents : List Key) (ttl : Nat)

/-- An expired deadline is no later than any that is wanted, so it does not count. -/
theorem listTtl_eq_live? (key : Key) :
    m.listTtl key ttl = ((m.live? key).bind (·.deadline)).elim ttl fun t =>
      if m.now + ttl < t then t - m.now else ttl := by
  unfold listTtl live? Slots.live?
  cases m.slots.get? key with
  | none => rfl
  | some slot =>
    cases hdeadline : slot.deadline with
    | none => simp [Option.filter, Slot.isLive, hdeadline]
    | some t =>
      by_cases hpast : m.now < t
      · simp [Option.filter, Slot.isLive, hdeadline, hpast]
      · have hwanted : ¬ m.now + ttl < t := by omega
        simp [Option.filter, Slot.isLive, hdeadline, hpast, hwanted]

/-- The slot that a dependency list is written to, for the text it is to have. -/
def extendedSlot (key : Key) (text : String) : Slot :=
  .lasting m.now text (m.listTtl key ttl)

theorem mapM_extended {updates : List (Key × String × Nat)}
    (h : lists.mapM (m.extended dependents ttl) = .ok updates) (s : Slots) (k : Key) :
    (k ∉ lists →
      Table.get? (updates.foldl (fun s u => Slots.put s m.now u.1 u.2.1 u.2.2) s) k =
        s.get? k) ∧
    (k ∈ lists → ∃ text, DependencyList.merge k (m.listText k) dependents = .ok text ∧
      Table.get? (updates.foldl (fun s u => Slots.put s m.now u.1 u.2.1 u.2.2) s) k =
        some (m.extendedSlot ttl k text)) := by
  induction lists generalizing updates s with
  | nil =>
    cases h
    simp
  | cons key rest ih =>
    rw [List.mapM_cons] at h
    cases hm : DependencyList.merge key (m.listText key) dependents with
    | error fault =>
      rw [extended, hm] at h
      cases h
    | ok text =>
      rw [extended, hm] at h
      cases hrest : rest.mapM (m.extended dependents ttl) with
      | error fault =>
        rw [hrest] at h
        cases h
      | ok others =>
        rw [hrest] at h
        cases h
        obtain ⟨hout, hin⟩ := ih hrest (s.put m.now key text (m.listTtl key ttl))
        constructor
        · intro hk
          have hne : k ≠ key := fun he => hk (he ▸ List.mem_cons_self)
          have hks : k ∉ rest := fun hk' => hk (List.mem_cons_of_mem _ hk')
          rw [List.foldl_cons, hout hks, Slots.get?_put, if_neg hne]
        · intro hk
          by_cases hks : k ∈ rest
          · exact hin hks
          · have he : k = key := (List.mem_cons.1 hk).resolve_right hks
            subst he
            refine ⟨text, hm, ?_⟩
            rw [List.foldl_cons, hout hks, Slots.get?_put, if_pos rfl]
            rfl

theorem addDependency_failed {fault : Fault}
    (h : (m.addDependency lists dependents ttl).answer = .error fault) :
    (m.addDependency lists dependents ttl).memory = m := by
  unfold addDependency at h ⊢
  split
  · rfl
  · rename_i hnone
    rw [hnone] at h
    split
    · rfl
    · rename_i updates hok
      rw [hok] at h
      cases h

theorem addDependency_ok (h : (m.addDependency lists dependents ttl).answer = .ok ()) (k : Key) :
    (k ∉ lists → (m.addDependency lists dependents ttl).memory.live? k = m.live? k) ∧
    (k ∈ lists → m.content k ≠ some Token.tombstone ∧
      ∃ text, DependencyList.merge k (m.listText k) dependents = .ok text ∧
        (m.addDependency lists dependents ttl).memory.live? k =
          some (m.extendedSlot ttl k text)) := by
  unfold addDependency at h ⊢
  cases hfind : lists.find? fun k => (m.content k).any isTombstone with
  | some key =>
    rw [hfind] at h
    cases h
  | none =>
    rw [hfind] at h
    cases hmap : lists.mapM (m.extended dependents ttl) with
    | error fault =>
      rw [hmap] at h
      cases h
    | ok updates =>
      obtain ⟨hout, hin⟩ := mapM_extended m lists dependents ttl hmap m.slots k
      constructor
      · intro hk
        exact Slots.live?_congr (hout hk)
      · intro hk
        obtain ⟨text, hm, hget⟩ := hin hk
        refine ⟨?_, text, hm, Slots.live?_of_get?_lasting hget⟩
        intro ht
        have hnot := List.find?_eq_none.1 hfind k hk
        rw [ht] at hnot
        exact hnot (by simp [isTombstone])

theorem addDependency_rest :
    (m.addDependency lists dependents ttl).memory.now = m.now ∧
      (m.addDependency lists dependents ttl).memory.issued = m.issued := by
  unfold addDependency
  split
  · exact ⟨rfl, rfl⟩
  · split <;> exact ⟨rfl, rfl⟩

theorem live?_addDependency_of_not_mem {k : Key} (hk : k ∉ lists) :
    (m.addDependency lists dependents ttl).memory.live? k = m.live? k := by
  cases h : (m.addDependency lists dependents ttl).answer with
  | error fault => rw [addDependency_failed m lists dependents ttl h]
  | ok u => exact (addDependency_ok m lists dependents ttl h k).1 hk

end AddDependency

section Flush
variable (root : String) (tombstones : Bool)

theorem live?_flush (k : Key) :
    (m.flush root tombstones).memory.live? k =
      (m.live? k).filter fun s => !isUnder root k || (!tombstones && isTombstone s.text) := by
  change Slots.live? (Table.filter _ m.slots) m.now k = Option.filter _ (m.slots.live? m.now k)
  unfold Slots.live?
  rw [Table.get?_filter]
  cases m.slots.get? k with
  | none => rfl
  | some s =>
    have hsome (p : Slot → Bool) : Option.filter p (some s) = if p s then some s else none := rfl
    rw [hsome, hsome]
    cases hl : s.isLive m.now with
    | false => simp
    | true =>
      cases hk : (!isUnder root k || (!tombstones && isTombstone s.text)) with
      | false => simp [hsome, hk]
      | true => simp [hsome, hl, hk]

theorem filter_spared (under : Bool) (slot : Option Slot) :
    (slot.filter fun s => !under || (!tombstones && isTombstone s.text)) =
      if under = true ∧ (tombstones = true ∨ slot.map (·.text) ≠ some Token.tombstone) then none
      else slot := by
  cases slot with
  | none => simp
  | some slot =>
    cases under <;> cases tombstones <;> by_cases htombstone : slot.text = Token.tombstone <;>
      simp [Option.filter, isTombstone, htombstone]

end Flush

end Memory
end CacheCoherence
