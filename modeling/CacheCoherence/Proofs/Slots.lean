import CacheCoherence.Memory
import CacheCoherence.Slots

/-!
# Slots after bulk writes

A call to a store writes many slots in one go: a value under every key of a save, a token under
every key of a lock, a tombstone or nothing under every key that is invalidated. For each way of
writing, one equation says what is found under any key afterwards. The equations are about the raw
slot with its deadline; what a reader finds at an instant follows from them.
-/
namespace CacheCoherence

theorem Slot.isLive_lasting (now : Nat) (text : String) (ttl : Nat) :
    (Slot.lasting now text ttl).isLive now = true := by
  by_cases h : ttl = 0
  · simp [Slot.lasting, Slot.isLive, h]
  · have hlt : now < now + ttl := by omega
    simp [Slot.lasting, Slot.isLive, h, hlt]

theorem Slot.isLive_of_le {s : Slot} {now later : Nat} (hle : now ≤ later)
    (h : s.isLive later = true) : s.isLive now = true := by
  unfold Slot.isLive at *
  cases hd : s.deadline with
  | none => rfl
  | some t =>
    have hlt : later < t := by simpa [hd] using h
    have : now < t := by omega
    simpa [hd] using this

namespace Slots
variable {m : Slots} {now : Nat} {k : Key}

theorem live?_congr {m' : Slots} (h : m.get? k = m'.get? k) :
    m.live? now k = m'.live? now k := by
  unfold live?
  rw [h]

theorem live?_of_get?_none (h : m.get? k = none) : m.live? now k = none := by
  unfold live?
  rw [h]
  rfl

theorem live?_of_get?_lasting {text : String} {ttl : Nat}
    (h : m.get? k = some (.lasting now text ttl)) :
    m.live? now k = some (.lasting now text ttl) := by
  unfold live?
  rw [h]
  simp [Option.filter, Slot.isLive_lasting]

theorem content_congr {m' : Slots} (h : m.live? now k = m'.live? now k) :
    m.content now k = m'.content now k := by
  unfold content
  rw [h]

theorem get?_put (m : Slots) (now : Nat) (k k' : Key) (text : String) (ttl : Nat) :
    Table.get? (m.put now k text ttl) k' =
      if k' = k then some (.lasting now text ttl) else m.get? k' :=
  Table.get?_insert m k k' _

theorem get?_putAll (m : Slots) (now : Nat) (ks : List Key) (text : String) (ttl : Nat)
    (k : Key) :
    Table.get? (m.putAll now ks text ttl) k =
      if k ∈ ks then some (.lasting now text ttl) else m.get? k := by
  unfold putAll
  induction ks generalizing m with
  | nil => simp
  | cons k' ks ih =>
    rw [List.foldl_cons, ih, get?_put]
    by_cases h : k = k' <;> simp [h]

theorem live?_putAll (m : Slots) (now : Nat) (ks : List Key) (text : String) (ttl : Nat)
    (k : Key) :
    (m.putAll now ks text ttl).live? now k =
      if k ∈ ks then some (.lasting now text ttl) else m.live? now k := by
  by_cases h : k ∈ ks
  · rw [if_pos h]
    exact live?_of_get?_lasting (by rw [get?_putAll, if_pos h])
  · rw [if_neg h]
    exact live?_congr (by rw [get?_putAll, if_neg h])

theorem live?_erase (m : Slots) (now : Nat) (k k' : Key) :
    Slots.live? (m.erase k) now k' = if k' = k then none else m.live? now k' := by
  have herase := Table.get?_erase m k k'
  split
  · rename_i hk
    rw [if_pos hk] at herase
    exact live?_of_get?_none herase
  · rename_i hk
    rw [if_neg hk] at herase
    exact live?_congr herase

end Slots

namespace Memory
variable (cfg : MemorySettings)

/-- What an invalidated key holds. -/
def leftover (now : Nat) (tombstone : Bool) : Option Slot :=
  if tombstone then some (.lasting now Token.tombstone cfg.tombstoneTtl) else none

theorem get?_invalidate (now : Nat) (tombstone : Bool) (s : Slots) (k k' : Key) :
    Table.get? (invalidate cfg now tombstone s k) k' =
      if k' = k then leftover cfg now tombstone else s.get? k' := by
  cases tombstone with
  | true => exact Slots.get?_put s now k k' _ _
  | false => exact Table.get?_erase s k k'

theorem get?_foldl_invalidate (now : Nat) (tombstone : Bool) (ks : List Key) (s : Slots)
    (k : Key) :
    Table.get? (ks.foldl (invalidate cfg now tombstone) s) k =
      if k ∈ ks then leftover cfg now tombstone else s.get? k := by
  induction ks generalizing s with
  | nil => simp
  | cons k' ks ih =>
    rw [List.foldl_cons, ih, get?_invalidate]
    by_cases h : k = k' <;> simp [h]

theorem live?_of_get?_leftover {now : Nat} {tombstone : Bool} {s : Slots} {k : Key}
    (h : s.get? k = leftover cfg now tombstone) :
    s.live? now k = leftover cfg now tombstone := by
  cases tombstone with
  | true => exact Slots.live?_of_get?_lasting h
  | false => exact Slots.live?_of_get?_none h

/-- Whether an invalidation passes over a slot. -/
def spared (now : Nat) (force : Bool) (s : Slots) (k : Key) : Bool :=
  !force && (s.content now k).any isToken

/-- A key that is listed twice is treated as the first time, also when the tombstone left there
makes the second time pass over it. -/
theorem get?_invalidateUnlocked (now : Nat) (tombstone force : Bool) (ks : List Key) (s : Slots)
    (k : Key) :
    Table.get? (invalidateUnlocked cfg now tombstone force ks s).1 k =
      if k ∈ ks ∧ spared now force s k = false then leftover cfg now tombstone
      else s.get? k := by
  induction ks generalizing s with
  | nil => simp [invalidateUnlocked]
  | cons k' ks ih =>
    have hc : (!force && (s.content now k').any isToken) = spared now force s k' := rfl
    rw [invalidateUnlocked, hc]
    by_cases hs : spared now force s k' = true
    · rw [if_pos hs, ih]
      by_cases h : k = k'
      · subst h
        simp [hs]
      · simp [h]
    · have hget := get?_invalidate cfg now tombstone s k' k
      rw [if_neg hs]
      simp only [ih]
      by_cases h : k = k'
      · subst h
        rw [if_pos rfl] at hget
        simp [hs, hget]
      · rw [if_neg h] at hget
        have hsame : spared now force (invalidate cfg now tombstone s k') k =
            spared now force s k := by
          unfold spared
          rw [Slots.content_congr (Slots.live?_congr hget)]
        simp [h, hget, hsame]

/-- Invalidating keys in order comes to invalidating those that are not passed over at the start. -/
theorem invalidateUnlocked_eq_foldl (now : Nat) (tombstone force : Bool) (ks : List Key)
    (s : Slots) :
    (invalidateUnlocked cfg now tombstone force ks s).1 =
      (ks.filter fun k => !spared now force s k).foldl (invalidate cfg now tombstone) s := by
  refine Table.ext_get? fun k => ?_
  rw [get?_invalidateUnlocked, get?_foldl_invalidate]
  simp [List.mem_filter]

/-- Marker numbers run on from `n`; of a repeated key the last marker stays. -/
theorem get?_placeMarkers (now n : Nat) (ks : List Key) (s : Slots) (k : Key) :
    (k ∉ ks → Table.get? (placeMarkers cfg now n ks s) k = s.get? k) ∧
      (k ∈ ks → ∃ i, n ≤ i ∧ i < n + ks.length ∧
        Table.get? (placeMarkers cfg now n ks s) k =
          some (.lasting now (Token.issue Token.conflictTag i) cfg.lockTtl)) := by
  induction ks generalizing n s with
  | nil => simp [placeMarkers]
  | cons k' ks ih =>
    obtain ⟨hout, hin⟩ := ih (n + 1)
      (s.put now k' (Token.issue Token.conflictTag n) cfg.lockTtl)
    constructor
    · intro h
      have hne : k ≠ k' := fun he => h (he ▸ List.mem_cons_self)
      have hks : k ∉ ks := fun hk => h (List.mem_cons_of_mem _ hk)
      rw [placeMarkers, hout hks, Slots.get?_put, if_neg hne]
    · intro h
      by_cases hks : k ∈ ks
      · obtain ⟨i, hlo, hhi, hget⟩ := hin hks
        exact ⟨i, by omega, by simp only [List.length_cons]; omega, hget⟩
      · have he : k = k' := (List.mem_cons.1 h).resolve_right hks
        refine ⟨n, Nat.le_refl n, by simp only [List.length_cons]; omega, ?_⟩
        rw [placeMarkers, hout hks, Slots.get?_put, if_pos he]

theorem get?_release (now : Nat) (token : Token) (s : Slots) (k k' : Key) :
    Table.get? (release now token s k) k' =
      if k' = k ∧ s.content now k' = some token then none else s.get? k' := by
  unfold release
  by_cases hc : s.content now k = some token
  · rw [if_pos hc, Table.get?_erase]
    by_cases h : k' = k
    · subst h
      simp [hc]
    · simp [h]
  · rw [if_neg hc]
    by_cases h : k' = k
    · subst h
      simp [hc]
    · simp [h]

theorem get?_foldl_release (now : Nat) (token : Token) (ks : List Key) (s : Slots) (k : Key) :
    Table.get? (ks.foldl (release now token) s) k =
      if k ∈ ks ∧ s.content now k = some token then none else s.get? k := by
  induction ks generalizing s with
  | nil => simp
  | cons k' ks ih =>
    rw [List.foldl_cons, ih]
    have hget := get?_release now token s k' k
    by_cases hc : k = k' ∧ s.content now k = some token
    · obtain ⟨rfl, hc⟩ := hc
      rw [if_pos ⟨rfl, hc⟩] at hget
      simp [hget, hc]
    · rw [if_neg hc] at hget
      rw [hget, Slots.content_congr (Slots.live?_congr hget)]
      by_cases hk : s.content now k = some token
      · have hne : k ≠ k' := fun he => hc ⟨he, hk⟩
        simp [hne]
      · simp [hk]

theorem get?_foldl_erase (ks : List Key) (s : Slots) (k : Key) :
    Table.get? (ks.foldl Table.erase s) k = if k ∈ ks then none else s.get? k := by
  induction ks generalizing s with
  | nil => simp
  | cons k' ks ih =>
    rw [List.foldl_cons, ih, Table.get?_erase]
    by_cases h : k = k' <;> simp [h]

/-- Releasing a token on keys in order comes to emptying those that hold it at the start. -/
theorem foldl_release_eq_foldl_erase (now : Nat) (token : Token) (ks : List Key) (s : Slots) :
    ks.foldl (release now token) s =
      (ks.filter fun k => s.content now k = some token).foldl Table.erase s := by
  refine Table.ext_get? fun k => ?_
  rw [get?_foldl_release, get?_foldl_erase]
  simp [List.mem_filter]

end Memory
end CacheCoherence
