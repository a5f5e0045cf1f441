import CacheCoherence.Fault
/-!
# The contract of a store

A store of slots answers the calls below. Two of its promises carry the consistency of the cache:
`setValue` writes only while the lock key still holds the caller's token, in one step with that
check, and `writeToken` claims all keys or none of them. Lists of keys name the primary key first.
-/
namespace CacheCoherence

/-- What a store found under one key. -/
structure Lookup where
  /-- The cached value, if the slot holds one. -/
  value : Option String := none
  /-- The token found in the slot, if it holds one. -/
  conflict : Option String := none
  /-- The read lock taken on a miss, or no lock. -/
  token : Token := Token.noLock
deriving DecidableEq, Repr, Inhabited

structure SetResult where
  /-- The value was written under every key. -/
  stored : Bool := false
  /-- The lock key no longer held the caller's token. -/
  conflict : Bool := false
deriving DecidableEq, Repr, Inhabited

inductive Call where
  /-- Reads one slot, taking a read lock when it is empty and `lock` is set. -/
  | getValue (key : Key) (lock : Bool)
  /-- Reads several slots; the flags go with the keys one by one. -/
  | getValues (keys : List Key) (locks : List Bool)
  /-- Writes a value under every key if `lockKey` still holds the token. -/
  | setValue (lockKey : Key) (keys : List Key) (value : String) (token : Token) (ttl : Nat)
  /-- Empties slots or leaves tombstones in them. Without `force`, slots that hold a token are
  left alone. -/
  | deleteValue (keys : List Key) (tombstone force : Bool)
  /-- Claims every key with a fresh token, or none. -/
  | writeToken (kind : LockKind) (keys : List Key)
  /-- Empties every slot that still holds the token. -/
  | releaseToken (keys : List Key) (token : Token)
  /-- Adds dependents to every list, or to none if one of the lists holds a tombstone. -/
  | addDependency (lists dependents : List Key) (ttl : Nat)
  /-- Invalidates every key on a list, then the list itself. -/
  | clearDependencies (key : Key) (tombstone : Bool)
  /-- Removes every key under a root, tombstones only if asked. -/
  | flush (root : String) (tombstones : Bool)
  /-- Has a handler called at every invalidation of a key. -/
  | registerHandler (key : Key) (handler : String)
deriving DecidableEq, Repr

/-- The answer to a call. Releasing a token never fails for the caller. -/
abbrev Call.Answer : Call → Type
  | getValue .. => Except Fault Lookup
  | getValues .. => Except Fault (List Lookup)
  | setValue .. => Except Fault SetResult
  | writeToken .. => Except Fault Token
  | releaseToken .. => Unit
  | deleteValue .. | addDependency .. | clearDependencies .. | flush .. | registerHandler .. =>
    Except Fault Unit

def Call.failed (fault : Fault) : (c : Call) → c.Answer
  | getValue .. => .error fault
  | getValues .. => .error fault
  | setValue .. => .error fault
  | deleteValue .. => .error fault
  | writeToken .. => .error fault
  | releaseToken .. => ()
  | addDependency .. => .error fault
  | clearDependencies .. => .error fault
  | flush .. => .error fault
  | registerHandler .. => .error fault

/-- The fault of a batch whose flags do not go with its keys. -/
def flagsFault (keys flags : Nat) : Fault :=
  .invalidArgument (toString keys ++ " keys but " ++ toString flags ++ " lock-on-miss flags")

/-- What a reading of a slot reports without taking a lock. -/
def Lookup.observed : Option String → Lookup
  | none => {}
  | some raw => if isToken raw then { conflict := some raw } else { value := some raw }

end CacheCoherence
