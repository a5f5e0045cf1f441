import CacheCoherence.Call
import CacheCoherence.DependencyList
import CacheCoherence.Event
import CacheCoherence.Rules
import CacheCoherence.Slots
/-!
# The store in memory

A store whose slots live in the process. Every call runs whole on the slots as they are at one
instant: nothing happens between its check and its writes. Expired slots read as empty and are
only dropped when something is written over them or the store is flushed.
-/
namespace CacheCoherence

structure MemorySettings where
  /-- The name of the cache in log events. -/
  name : String := "in-memory"
  /-- How long a lock lasts whose holder never releases it. -/
  lockTtl : Nat := Duration.ofSeconds 30
  tombstoneTtl : Nat := Duration.ofSeconds 5
  rules : Rules := Rules.standard

structure Memory where
  slots : Slots := .empty
  /-- The present instant. -/
  now : Nat := 0
  /-- How many tokens were issued; the next one takes this number. -/
  issued : Nat := 0
  /-- The invalidation handlers in the order in which they were registered. -/
  handlers : List (Key × String) := []

/-- What a call to a store in memory leaves behind: the answer, the store, the events that it
logged and the handlers that it called, each with the key that was invalidated. -/
structure Memory.Reply (α : Type) where
  answer : α
  memory : Memory
  events : List Event := []
  notified : List (String × Key) := []

namespace Memory
variable (cfg : MemorySettings)

/-- The live text of a slot. -/
def content (m : Memory) (k : Key) : Option String := m.slots.content m.now k

/-- The number of live slots. -/
def size (m : Memory) : Nat := (m.slots.sweep m.now).entries.length

/-- The keys of the live slots under a root, in ascending order. -/
def keysUnder (m : Memory) (root : String) : List Key :=
  (m.slots.sweep m.now).keys.filter (isUnder root)

/-- The live slots under a root with their texts, as they are logged one by one. -/
def textsUnder (m : Memory) (root : String) : List (Key × String) :=
  (m.slots.contents m.now).entries.filter fun slot => isUnder root slot.1

def advance (m : Memory) (elapsed : Nat) : Memory := { m with now := m.now + elapsed }

/-- The handlers of these keys, for each key in the order of registration. -/
def handlersOf (m : Memory) (keys : List Key) : List (String × Key) :=
  keys.flatMap fun k => (m.handlers.filter fun h => h.1 = k).map fun h => (h.2, k)

/-- Reads one slot and takes a read lock on it if it is empty and one is wanted. -/
def lookup (m : Memory) (key : Key) (lock : Bool) : Lookup × Memory :=
  match m.content key with
  | some raw => (.observed (some raw), m)
  | none =>
    if lock then
      let token := Token.issue LockKind.read.name m.issued
      ({ token },
        { m with slots := m.slots.put m.now key token cfg.lockTtl, issued := m.issued + 1 })
    else ({}, m)

def lookups : List (Key × Bool) → Memory → List Lookup × Memory
  | [], m => ([], m)
  | (key, lock) :: rest, m =>
    let (found, m) := m.lookup cfg key lock
    let (others, m) := lookups rest m
    (found :: others, m)

def getValue (m : Memory) (key : Key) (lock : Bool) : Reply (Except Fault Lookup) :=
  let (found, m) := m.lookup cfg key lock
  { answer := .ok found, memory := m }

def getValues (m : Memory) (keys : List Key) (locks : List Bool) :
    Reply (Except Fault (List Lookup)) :=
  if keys.length = locks.length then
    let (found, m) := lookups cfg (keys.zip locks) m
    { answer := .ok found, memory := m }
  else { answer := .error (flagsFault keys.length locks.length), memory := m }

def setValue (m : Memory) (lockKey : Key) (keys : List Key) (value : String) (token : Token)
    (ttl : Nat) : Reply (Except Fault SetResult) :=
  if token = Token.noLock then { answer := .ok {}, memory := m }
  else
    let decision := cfg.rules.decide (m.content lockKey) value token
    { answer := .ok ⟨decision.set, decision.conflict⟩
      memory :=
        if decision.set then { m with slots := m.slots.putAll m.now keys value ttl }
        else if decision.clear then { m with slots := m.slots.erase lockKey }
        else m
      events := if decision.conflict then [.setConflict lockKey token decision.refresh] else [] }

/-- Leaves a tombstone in a slot, or nothing. -/
def invalidate (now : Nat) (tombstone : Bool) (slots : Slots) (key : Key) : Slots :=
  if tombstone then slots.put now key Token.tombstone cfg.tombstoneTtl else slots.erase key

/-- Invalidates keys in order, passing over those that hold a token unless forced. Also lists the
keys that were not passed over. -/
def invalidateUnlocked (now : Nat) (tombstone force : Bool) :
    List Key → Slots → Slots × List Key
  | [], slots => (slots, [])
  | key :: rest, slots =>
    if !force && (slots.content now key).any isToken then
      invalidateUnlocked now tombstone force rest slots
    else
      let (after, deleted) :=
        invalidateUnlocked now tombstone force rest (invalidate cfg now tombstone slots key)
      (after, key :: deleted)

def deleteValue (m : Memory) (keys : List Key) (tombstone force : Bool) :
    Reply (Except Fault Unit) :=
  let (slots, deleted) := invalidateUnlocked cfg m.now tombstone force keys m.slots
  { answer := .ok (), memory := { m with slots }, notified := m.handlersOf deleted }

/-- Writes a conflict marker of its own under each key, numbered from `n` on. -/
def placeMarkers (now : Nat) : Nat → List Key → Slots → Slots
  | _, [], slots => slots
  | n, key :: rest, slots =>
    placeMarkers now (n + 1) rest (slots.put now key (Token.issue Token.conflictTag n) cfg.lockTtl)

/-- The keys that do not admit a token. -/
def refusing (m : Memory) (token : Token) (keys : List Key) : List Key :=
  keys.filter fun k => !(cfg.rules.always token || cfg.rules.admits (m.content k) token)

def writeToken (m : Memory) (kind : LockKind) (keys : List Key) : Reply (Except Fault Token) :=
  if keys.isEmpty then { answer := .ok Token.noLock, memory := m }
  else
    let token := Token.issue kind.name m.issued
    let refused := m.refusing cfg token keys
    if refused.isEmpty then
      { answer := .ok token
        memory :=
          { m with slots := m.slots.putAll m.now keys token cfg.lockTtl, issued := m.issued + 1 } }
    else
      let rivals := refused.filter fun k => collides (m.content k) token
      { answer := .ok Token.noLock
        memory :=
          { m with
            slots := placeMarkers cfg m.now (m.issued + 1) rivals m.slots
            issued := m.issued + 1 + rivals.length }
        events := [.claimContended kind keys] }

/-- Empties a slot if it holds the token. -/
def release (now : Nat) (token : Token) (slots : Slots) (key : Key) : Slots :=
  if slots.content now key = some token then slots.erase key else slots

def releaseToken (m : Memory) (keys : List Key) (token : Token) : Reply Unit :=
  if token = Token.noLock then { answer := (), memory := m }
  else
    { answer := ()
      memory := { m with slots := keys.foldl (release m.now token) m.slots } }

/-- The text that a dependency list lives in: tokens are no lists. -/
def listText (m : Memory) (key : Key) : Option String :=
  (m.content key).filter fun raw => !isToken raw

/-- How long a dependency list is to last: at least `ttl`, and no less than the deadline found in
its slot allows. -/
def listTtl (m : Memory) (key : Key) (ttl : Nat) : Nat :=
  match (m.slots.get? key).bind (·.deadline) with
  | some t => if m.now + ttl < t then t - m.now else ttl
  | none => ttl

/-- What is to be written for one dependency list: its key, text and lifetime. -/
def extended (m : Memory) (dependents : List Key) (ttl : Nat) (key : Key) :
    Except Fault (Key × String × Nat) :=
  (DependencyList.merge key (m.listText key) dependents).map fun text =>
    (key, text, m.listTtl key ttl)

def addDependency (m : Memory) (lists dependents : List Key) (ttl : Nat) :
    Reply (Except Fault Unit) :=
  match lists.find? fun k => (m.content k).any isTombstone with
  | some key => { answer := .error (.tombstoned key), memory := m }
  | none =>
    match lists.mapM (m.extended dependents ttl) with
    | .error fault => { answer := .error fault, memory := m }
    | .ok updates =>
      { answer := .ok ()
        memory :=
          { m with slots := updates.foldl (fun s u => s.put m.now u.1 u.2.1 u.2.2) m.slots } }

def clearDependencies (m : Memory) (key : Key) (tombstone : Bool) : Reply (Except Fault Unit) :=
  let decoded := match m.listText key with
    | some raw => DependencyList.decode key raw
    | none => .ok .empty
  let listed := match decoded with
    | .ok set => set.keys
    | .error _ => []
  let gone := listed ++ [key]
  { answer := decoded.map fun _ => ()
    memory := { m with slots := gone.foldl (invalidate cfg m.now tombstone) m.slots }
    events := match decoded with
      | .ok _ => []
      | .error _ => [.dependenciesCorrupt key]
    notified := m.handlersOf gone }

def flush (m : Memory) (root : String) (tombstones : Bool) : Reply (Except Fault Unit) :=
  { answer := .ok ()
    memory :=
      { m with
        slots := m.slots.filter fun k s =>
          s.isLive m.now && (!isUnder root k || (!tombstones && isTombstone s.text)) } }

def registerHandler (m : Memory) (key : Key) (handler : String) : Reply (Except Fault Unit) :=
  { answer := .ok (), memory := { m with handlers := m.handlers ++ [(key, handler)] } }

def perform (m : Memory) : (c : Call) → Reply c.Answer
  | .getValue key lock => m.getValue cfg key lock
  | .getValues keys locks => m.getValues cfg keys locks
  | .setValue lockKey keys value token ttl => m.setValue cfg lockKey keys value token ttl
  | .deleteValue keys tombstone force => m.deleteValue cfg keys tombstone force
  | .writeToken kind keys => m.writeToken cfg kind keys
  | .releaseToken keys token => m.releaseToken keys token
  | .addDependency lists dependents ttl => m.addDependency lists dependents ttl
  | .clearDependencies key tombstone => m.clearDependencies cfg key tombstone
  | .flush root tombstones => m.flush root tombstones
  | .registerHandler key handler => m.registerHandler key handler

end Memory
end CacheCoherence
