import CacheCoherence.Duration
import CacheCoherence.Token
/-!
# Slots

A slot holds a text and the instant at which it expires. An expired slot may still be listed,
but every reading goes through `Slots.content`, for which it is empty.
-/
namespace CacheCoherence

/-- A text and the instant from which on it is gone; without one it stays. -/
structure Slot where
  text : String
  deadline : Option Nat
deriving DecidableEq, Repr

def Slot.isLive (s : Slot) (now : Nat) : Bool :=
  match s.deadline with
  | none => true
  | some t => now < t

/-- The slot that holds a text from now on; a lifetime of zero never ends. -/
def Slot.lasting (now : Nat) (text : String) (ttl : Nat) : Slot :=
  ⟨text, if ttl = 0 then none else some (now + ttl)⟩

abbrev Slots := Table Slot

/-- Whether a key starts as another text does. -/
def isUnder (root : String) (key : Key) : Bool := root.toList.isPrefixOf key.toList

namespace Slots

/-- The slot of a key, unless it has expired. -/
def live? (m : Slots) (now : Nat) (k : Key) : Option Slot := (m.get? k).filter (·.isLive now)

def content (m : Slots) (now : Nat) (k : Key) : Option String := (m.live? now k).map (·.text)

/-- Writes a text; a lifetime of zero never ends. -/
def put (m : Slots) (now : Nat) (k : Key) (text : String) (ttl : Nat) : Slots :=
  m.insert k (.lasting now text ttl)

def putAll (m : Slots) (now : Nat) (ks : List Key) (text : String) (ttl : Nat) : Slots :=
  ks.foldl (fun m k => m.put now k text ttl) m

/-- The slots without those that have expired. -/
def sweep (m : Slots) (now : Nat) : Slots := m.filter fun _ s => s.isLive now

def contents (m : Slots) (now : Nat) : Table String := (m.sweep now).map (·.text)

/-- The keys whose text differs between two states, each with its text in the second. -/
def changes (before after : Table String) : List (Key × Option String) :=
  let all := (before.keys ++ after.keys).foldl (fun s k => s.insert k ()) (.empty : Table Unit)
  (all.keys.filter fun k => before.get? k ≠ after.get? k).map fun k => (k, after.get? k)

theorem content_put (m : Slots) (now : Nat) (k k' : Key) (text : String) (ttl : Nat) :
    (m.put now k text ttl).content now k' = if k' = k then some text else m.content now k' := by
  unfold put content live?
  rw [Table.get?_insert]
  by_cases h : k' = k
  · subst h
    by_cases ht : ttl = 0
    · simp [Slot.lasting, Slot.isLive, ht, Option.filter]
    · have hlt : now < now + ttl := by
        have : 0 < ttl := Nat.pos_of_ne_zero ht
        omega
      simp [Slot.lasting, Slot.isLive, ht, hlt, Option.filter]
  · simp [h]

theorem content_erase (m : Slots) (now : Nat) (k k' : Key) :
    Slots.content (m.erase k) now k' = if k' = k then none else m.content now k' := by
  unfold content live?
  rw [Table.get?_erase]
  by_cases h : k' = k <;> simp [h]

end Slots
end CacheCoherence
