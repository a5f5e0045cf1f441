import CacheCoherence.Proofs.Memory.Runs
import CacheCoherence.Proofs.Registration

/-!
# Expiry is invisible

An expired slot stays listed until something is written over it or the store is flushed. Nobody can
tell: a store and the same store without its expired slots answer every call alike, call the same
handlers, log the same events and go on with the same live slots. Two stores are followed side by
side that hold the same live slots, whatever else they list; each way of writing slots keeps them
so, and with it each call.
-/
namespace CacheCoherence

namespace Slots

def SameLive (now : Nat) (s s' : Slots) : Prop := ∀ k, s.live? now k = s'.live? now k

theorem get?_sweep (s : Slots) (now : Nat) (k : Key) :
    Table.get? (s.sweep now) k = s.live? now k :=
  Table.get?_filter _ _ _

theorem live?_put (s : Slots) (now : Nat) (k k' : Key) (text : String) (ttl : Nat) :
    (s.put now k text ttl).live? now k' =
      if k' = k then some (.lasting now text ttl) else s.live? now k' := by
  have hget := get?_put s now k k' text ttl
  by_cases hk : k' = k
  · rw [if_pos hk] at hget ⊢
    exact live?_of_get?_lasting hget
  · rw [if_neg hk] at hget ⊢
    exact live?_congr hget

theorem sameLive_sweep (s : Slots) (now : Nat) : SameLive now (s.sweep now) s := by
  intro k
  unfold live?
  rw [get?_sweep, live?]
  cases s.get? k with
  | none => rfl
  | some slot => cases hlive : slot.isLive now <;> simp [Option.filter, hlive]

namespace SameLive
variable {now : Nat} {s s' : Slots} (h : SameLive now s s')
include h

theorem content (k : Key) : s.content now k = s'.content now k := content_congr (h k)

theorem sweep : s.sweep now = s'.sweep now :=
  Table.ext_get? fun k => by rw [get?_sweep, get?_sweep, h k]

theorem later (elapsed : Nat) : SameLive (now + elapsed) s s' := fun k => by
  rw [live?_later, live?_later, h k]

theorem put (k : Key) (text : String) (ttl : Nat) :
    SameLive now (s.put now k text ttl) (s'.put now k text ttl) := fun k' => by
  rw [live?_put, live?_put, h k']

theorem erase (k : Key) : SameLive now (Table.erase s k) (Table.erase s' k) := fun k' => by
  rw [live?_erase, live?_erase, h k']

theorem putAll (ks : List Key) (text : String) (ttl : Nat) :
    SameLive now (s.putAll now ks text ttl) (s'.putAll now ks text ttl) :=
  List.foldl_rel h fun k _ _ _ h => h.put k text ttl

theorem filter (p : Key → Slot → Bool) :
    SameLive now (Table.filter (fun k slot => slot.isLive now && p k slot) s)
      (Table.filter (fun k slot => slot.isLive now && p k slot) s') := by
  intro k
  -- What a filter keeps of the live slots can be told from them alone.
  have hfilter (s : Slots) :
      Slots.live? (Table.filter (fun k slot => slot.isLive now && p k slot) s) now k =
        (s.live? now k).filter (p k) := by
    unfold live?
    rw [Table.get?_filter]
    cases s.get? k with
    | none => rfl
    | some slot =>
      cases hlive : slot.isLive now <;> cases hp : p k slot <;>
        simp [Option.filter, hlive, hp]
  rw [hfilter, hfilter, h k]

end SameLive
end Slots

namespace Memory
variable (cfg : MemorySettings)

section Writes
variable {now : Nat} {s s' : Slots} (h : Slots.SameLive now s s')
include h

theorem sameLive_invalidate (tombstone : Bool) (k : Key) :
    Slots.SameLive now (invalidate cfg now tombstone s k) (invalidate cfg now tombstone s' k) := by
  cases tombstone with
  | true => exact h.put k _ _
  | false => exact h.erase k

theorem sameLive_invalidateUnlocked (tombstone force : Bool) (ks : List Key) :
    Slots.SameLive now (invalidateUnlocked cfg now tombstone force ks s).1
        (invalidateUnlocked cfg now tombstone force ks s').1 ∧
      (invalidateUnlocked cfg now tombstone force ks s).2 =
        (invalidateUnlocked cfg now tombstone force ks s').2 := by
  induction ks generalizing s s' with
  | nil => exact ⟨h, rfl⟩
  | cons k rest ih =>
    rw [invalidateUnlocked, invalidateUnlocked, h.content k]
    split
    · exact ih h
    · obtain ⟨hslots, hkeys⟩ := ih (sameLive_invalidate cfg h tombstone k)
      exact ⟨hslots, congrArg (k :: ·) hkeys⟩

theorem sameLive_placeMarkers (n : Nat) (ks : List Key) :
    Slots.SameLive now (placeMarkers cfg now n ks s) (placeMarkers cfg now n ks s') := by
  induction ks generalizing n s s' with
  | nil => exact h
  | cons k rest ih => exact ih (h.put k _ _) (n + 1)

theorem sameLive_release (token : Token) (k : Key) :
    Slots.SameLive now (release now token s k) (release now token s' k) := by
  unfold release
  rw [h.content k]
  split
  · exact h.erase k
  · exact h

end Writes

/-- Stores that differ in expired slots at most. -/
structure Agrees (m m' : Memory) : Prop where
  slots : Slots.SameLive m.now m.slots m'.slots
  now : m.now = m'.now
  issued : m.issued = m'.issued
  handlers : m.handlers = m'.handlers

/-- Replies between which only expired slots differ. -/
structure Reply.Agrees {α : Type} (r r' : Reply α) : Prop where
  answer : r.answer = r'.answer
  memory : r.memory.Agrees r'.memory
  events : r.events = r'.events
  notified : r.notified = r'.notified

theorem agrees_swept (m : Memory) : Agrees { m with slots := m.slots.sweep m.now } m :=
  ⟨Slots.sameLive_sweep m.slots m.now, rfl, rfl, rfl⟩

namespace Agrees
variable {m m' : Memory} (h : m.Agrees m')
include h

theorem content : m.content = m'.content := by
  funext k
  unfold Memory.content
  rw [h.slots.content k, h.now]

theorem listTtl (key : Key) (ttl : Nat) : m.listTtl key ttl = m'.listTtl key ttl := by
  rw [listTtl_eq_live?, listTtl_eq_live?, Memory.live?, Memory.live?, h.slots key, h.now]

theorem handlersOf (keys : List Key) : m.handlersOf keys = m'.handlersOf keys := by
  unfold Memory.handlersOf
  rw [h.handlers]

theorem withSlots {s s' : Slots} (hs : Slots.SameLive m.now s s') :
    Agrees { m with slots := s } { m' with slots := s', now := m.now } :=
  ⟨hs, rfl, h.issued, h.handlers⟩

theorem lookup (key : Key) (lock : Bool) :
    (m.lookup cfg key lock).1 = (m'.lookup cfg key lock).1 ∧
      (m.lookup cfg key lock).2.Agrees (m'.lookup cfg key lock).2 := by
  unfold Memory.lookup
  rw [← h.content, ← h.issued, ← h.now]
  cases m.content key with
  | some raw => exact ⟨rfl, h⟩
  | none =>
    cases lock with
    | false => exact ⟨rfl, h⟩
    | true => exact ⟨rfl, h.slots.put key _ _, rfl, rfl, h.handlers⟩

theorem lookups (reads : List (Key × Bool)) :
    (Memory.lookups cfg reads m).1 = (Memory.lookups cfg reads m').1 ∧
      (Memory.lookups cfg reads m).2.Agrees (Memory.lookups cfg reads m').2 := by
  induction reads generalizing m m' with
  | nil => exact ⟨rfl, h⟩
  | cons read rest ih =>
    obtain ⟨key, lock⟩ := read
    obtain ⟨hfound, hmemory⟩ := h.lookup cfg key lock
    obtain ⟨hothers, hrest⟩ := ih hmemory
    rw [lookups_cons, lookups_cons, hfound, hothers]
    exact ⟨rfl, hrest⟩

theorem getValues (keys : List Key) (locks : List Bool) :
    (m.getValues cfg keys locks).Agrees (m'.getValues cfg keys locks) := by
  obtain ⟨hfound, hmemory⟩ := h.lookups cfg (keys.zip locks)
  unfold Memory.getValues
  split
  · exact ⟨congrArg Except.ok hfound, hmemory, rfl, rfl⟩
  · exact ⟨rfl, h, rfl, rfl⟩

theorem setValue (lockKey : Key) (keys : List Key) (value : String) (token : Token) (ttl : Nat) :
    (m.setValue cfg lockKey keys value token ttl).Agrees
      (m'.setValue cfg lockKey keys value token ttl) := by
  unfold Memory.setValue
  rw [← h.content, ← h.now]
  split
  · exact ⟨rfl, h, rfl, rfl⟩
  · refine ⟨rfl, ?_, rfl, rfl⟩
    dsimp only
    split
    · exact h.withSlots (h.slots.putAll keys value ttl)
    · split
      · exact h.withSlots (h.slots.erase lockKey)
      · exact h

theorem deleteValue (keys : List Key) (tombstone force : Bool) :
    (m.deleteValue cfg keys tombstone force).Agrees (m'.deleteValue cfg keys tombstone force) := by
  obtain ⟨hslots, hkeys⟩ := sameLive_invalidateUnlocked cfg h.slots tombstone force keys
  unfold Memory.deleteValue
  rw [← h.now]
  refine ⟨rfl, h.withSlots hslots, rfl, ?_⟩
  dsimp only
  rw [hkeys, h.handlersOf]

theorem writeToken (kind : LockKind) (keys : List Key) :
    (m.writeToken cfg kind keys).Agrees (m'.writeToken cfg kind keys) := by
  unfold Memory.writeToken refusing
  rw [← h.content, ← h.issued, ← h.now]
  split
  · exact ⟨rfl, h, rfl, rfl⟩
  · dsimp only
    split
    · exact ⟨rfl, ⟨h.slots.putAll keys _ _, rfl, rfl, h.handlers⟩, rfl, rfl⟩
    · exact ⟨rfl, ⟨sameLive_placeMarkers cfg h.slots _ _, rfl, rfl, h.handlers⟩, rfl, rfl⟩

theorem releaseToken (keys : List Key) (token : Token) :
    (m.releaseToken keys token).Agrees (m'.releaseToken keys token) := by
  unfold Memory.releaseToken
  rw [← h.now]
  split
  · exact ⟨rfl, h, rfl, rfl⟩
  · exact ⟨rfl, h.withSlots (List.foldl_rel h.slots fun k _ _ _ hs =>
      sameLive_release hs token k), rfl, rfl⟩

theorem addDependency (lists dependents : List Key) (ttl : Nat) :
    (m.addDependency lists dependents ttl).Agrees (m'.addDependency lists dependents ttl) := by
  rw [m.addDependency_eq, m'.addDependency_eq, ← h.content, ← h.now]
  cases DependencyList.refusal m.content lists with
  | some fault => exact ⟨rfl, h, rfl, rfl⟩
  | none =>
    refine ⟨rfl, h.withSlots (List.foldl_rel h.slots fun k _ _ _ hs => ?_), rfl, rfl⟩
    rw [h.listTtl]
    exact hs.put k _ _

theorem clearDependencies (key : Key) (tombstone : Bool) :
    (m.clearDependencies cfg key tombstone).Agrees (m'.clearDependencies cfg key tombstone) := by
  unfold Memory.clearDependencies listText
  rw [← h.content, ← h.now]
  exact ⟨rfl, h.withSlots (List.foldl_rel h.slots fun k _ _ _ hs =>
    sameLive_invalidate cfg hs tombstone k), rfl, h.handlersOf _⟩

theorem flush (root : String) (tombstones : Bool) :
    (m.flush root tombstones).Agrees (m'.flush root tombstones) := by
  unfold Memory.flush
  rw [← h.now]
  exact ⟨rfl, h.withSlots (h.slots.filter fun k slot =>
    !isUnder root k || (!tombstones && isTombstone slot.text)), rfl, rfl⟩

/-- **Step.** A call ends alike on stores that differ in expired slots at most, and leaves such
stores behind. -/
theorem perform (c : Call) : (m.perform cfg c).Agrees (m'.perform cfg c) := by
  cases c with
  | getValue key lock =>
    obtain ⟨hfound, hmemory⟩ := h.lookup cfg key lock
    exact ⟨congrArg Except.ok hfound, hmemory, rfl, rfl⟩
  | getValues keys locks => exact h.getValues cfg keys locks
  | setValue lockKey keys value token ttl => exact h.setValue cfg lockKey keys value token ttl
  | deleteValue keys tombstone force => exact h.deleteValue cfg keys tombstone force
  | writeToken kind keys => exact h.writeToken cfg kind keys
  | releaseToken keys token => exact h.releaseToken keys token
  | addDependency lists dependents ttl => exact h.addDependency lists dependents ttl
  | clearDependencies key tombstone => exact h.clearDependencies cfg key tombstone
  | flush root tombstones => exact h.flush root tombstones
  | registerHandler key handler =>
    exact ⟨rfl, ⟨h.slots, h.now, h.issued, congrArg (· ++ [(key, handler)]) h.handlers⟩, rfl, rfl⟩

theorem advance (elapsed : Nat) : (m.advance elapsed).Agrees (m'.advance elapsed) :=
  ⟨h.slots.later elapsed, congrArg (· + elapsed) h.now, h.issued, h.handlers⟩

/-- **Run.** Whatever happens to both, the stores never come to differ in more. -/
theorem after (steps : List Step) : (m.after cfg steps).Agrees (m'.after cfg steps) := by
  induction steps generalizing m m' with
  | nil => exact h
  | cons e rest ih =>
    cases e with
    | call c => exact ih (h.perform cfg c).memory
    | elapse duration => exact ih (h.advance duration)

theorem live? (k : Key) : m.live? k = m'.live? k := by
  unfold Memory.live?
  rw [h.slots k, h.now]

theorem sweep : m.slots.sweep m.now = m'.slots.sweep m'.now := by
  rw [h.slots.sweep, h.now]

end Agrees

/-- What is logged of the slots under a root is one entry for each of their keys. -/
theorem keysUnder_eq (m : Memory) (root : String) :
    m.keysUnder root = (m.textsUnder root).map Prod.fst := by
  unfold keysUnder textsUnder Slots.contents Table.keys Table.map
  simp only [List.filter_map, List.map_map]
  rfl

/-- **Expiry is invisible.** Every call ends alike on a store and on the store from which all
expired slots were removed first: it gives the same answer, calls the same handlers and logs the
same events, and at every later instant the same slots are live with the same deadlines. Looking at
a slot, counting the slots and listing those under a root give the same as well. -/
theorem expiry_invisible (m : Memory) :
    let swept : Memory := { m with slots := m.slots.sweep m.now }
    (∀ c, (swept.perform cfg c).answer = (m.perform cfg c).answer ∧
      (swept.perform cfg c).notified = (m.perform cfg c).notified ∧
      (swept.perform cfg c).events = (m.perform cfg c).events ∧
      ∀ elapsed k, ((swept.perform cfg c).memory.advance elapsed).live? k =
        ((m.perform cfg c).memory.advance elapsed).live? k) ∧
    (∀ k, swept.content k = m.content k) ∧ swept.size = m.size ∧
    ∀ root, swept.textsUnder root = m.textsUnder root := by
  have h := m.agrees_swept
  refine ⟨fun c => ?_, fun k => congrFun h.content k, ?_, fun root => ?_⟩
  · obtain ⟨hanswer, hmemory, hevents, hnotified⟩ := h.perform cfg c
    exact ⟨hanswer, hnotified, hevents, fun elapsed k => (hmemory.advance elapsed).live? k⟩
  · unfold size
    rw [h.sweep]
  · unfold textsUnder Slots.contents
    rw [h.sweep]

end Memory
end CacheCoherence
