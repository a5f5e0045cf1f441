import CacheCoherence.Proofs.Slots
import CacheCoherence.Proofs.Tokens

/-!
# The live slots of a store in memory

A client sees the live slots of a store, each with its text and deadline. For every call there is
one equation for what it answers and one for the live slot of an arbitrary key afterwards, so that
no later argument opens a call again. This module has the view and the reads.
-/
namespace CacheCoherence

namespace Memory
variable (cfg : MemorySettings) (m : Memory)

/-- The slot of a key, unless it has expired. -/
def live? (k : Key) : Option Slot := m.slots.live? m.now k

theorem content_eq_live? (k : Key) : m.content k = (m.live? k).map (·.text) := rfl

theorem content_of_live? {m m' : Memory} {k k' : Key} (h : m'.live? k' = m.live? k) :
    m'.content k' = m.content k := by
  rw [content_eq_live?, content_eq_live?, h]

theorem content_of_live?_lasting {m : Memory} {k : Key} {now ttl : Nat} {text : String}
    (h : m.live? k = some (.lasting now text ttl)) : m.content k = some text := by
  rw [content_eq_live?, h]
  rfl

theorem live?_eq_none_iff (k : Key) : m.live? k = none ↔ m.content k = none := by
  rw [content_eq_live?]
  cases m.live? k <;> simp

theorem isLive_of_live? {m : Memory} {k : Key} {s : Slot} (h : m.live? k = some s) :
    s.isLive m.now = true := by
  unfold live? Slots.live? at h
  cases hg : m.slots.get? k with
  | none => simp [hg] at h
  | some s' =>
    rw [hg] at h
    simp only [Option.filter] at h
    split at h
    · cases h
      assumption
    · cases h

theorem live?_leftover {k : Key} {tombstone : Bool} {m : Memory}
    (h : m.live? k = leftover cfg m.now tombstone) :
    m.content k = if tombstone then some Token.tombstone else none := by
  cases tombstone with
  | true => exact content_of_live?_lasting h
  | false => exact (live?_eq_none_iff m k).1 h

section Lookup
variable (key : Key) (lock : Bool)

/-- The slot that a read lock on a key fills. -/
def readLock : Slot :=
  .lasting m.now (Token.issue LockKind.read.name m.issued) cfg.lockTtl

theorem lookup_of_content {raw : String} (h : m.content key = some raw) :
    m.lookup cfg key lock = (.observed (some raw), m) := by
  rw [lookup, h]

theorem lookup_of_empty (h : m.content key = none) :
    m.lookup cfg key lock =
      if lock then
        ({ token := Token.issue LockKind.read.name m.issued },
          { m with
            slots := m.slots.put m.now key (Token.issue LockKind.read.name m.issued) cfg.lockTtl
            issued := m.issued + 1 })
      else ({}, m) := by
  rw [lookup, h]

theorem now_lookup : (m.lookup cfg key lock).2.now = m.now := by
  cases h : m.content key with
  | some raw => rw [lookup_of_content cfg m key lock h]
  | none =>
    rw [lookup_of_empty cfg m key lock h]
    cases lock <;> rfl

theorem handlers_lookup : (m.lookup cfg key lock).2.handlers = m.handlers := by
  cases h : m.content key with
  | some raw => rw [lookup_of_content cfg m key lock h]
  | none =>
    rw [lookup_of_empty cfg m key lock h]
    cases lock <;> rfl

theorem live?_lookup (k : Key) :
    (m.lookup cfg key lock).2.live? k =
      if k = key ∧ lock = true ∧ m.content key = none then some (readLock cfg m)
      else m.live? k := by
  cases h : m.content key with
  | some raw =>
    rw [lookup_of_content cfg m key lock h]
    simp
  | none =>
    rw [lookup_of_empty cfg m key lock h]
    cases lock with
    | false => simp
    | true =>
      have hput := Slots.get?_put m.slots m.now key k
        (Token.issue LockKind.read.name m.issued) cfg.lockTtl
      rw [if_pos rfl]
      by_cases hk : k = key
      · rw [if_pos hk] at hput
        rw [if_pos ⟨hk, rfl, rfl⟩]
        exact Slots.live?_of_get?_lasting hput
      · rw [if_neg hk] at hput
        rw [if_neg (fun hc => hk hc.1)]
        exact Slots.live?_congr hput

theorem issued_lookup :
    (m.lookup cfg key lock).2.issued =
      if lock = true ∧ m.content key = none then m.issued + 1 else m.issued := by
  cases h : m.content key with
  | some raw =>
    rw [lookup_of_content cfg m key lock h]
    simp
  | none =>
    rw [lookup_of_empty cfg m key lock h]
    cases lock <;> simp

end Lookup

end Memory
end CacheCoherence
