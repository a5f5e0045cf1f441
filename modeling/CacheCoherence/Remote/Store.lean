import CacheCoherence.Call
import CacheCoherence.DependencyList
import CacheCoherence.Event
import CacheCoherence.Program
import CacheCoherence.Remote.Settings
import CacheCoherence.Rules
import CacheCoherence.Server.Request
/-!
# A store on a server

Each call is a program of requests. Every call whose correctness hangs on what a slot holds is an
optimistic transaction: watch the keys, read them, decide, and write in one step that the server
refuses if another client wrote to a watched key in the meantime. Plain reads take no transaction;
a read lock is taken by a command that sets the key only if it does not exist.
-/
namespace CacheCoherence

/-- One action of a call: a request, a fresh token, or a log event. -/
inductive RemoteAction where
  | request (q : Request)
  | issue (tag : String)
  | log (e : Event)

abbrev RemoteAction.Answer : RemoteAction → Type
  | .request q => q.Answer
  | .issue _ => Token
  | .log _ => Unit

abbrev RemoteProgram := Program RemoteAction RemoteAction.Answer

/-- A program of actions that may end with a fault. -/
abbrev RemoteCall := ExceptT Fault RemoteProgram

namespace RemoteCall
variable {α : Type}

def request (q : Request) : RemoteProgram q.Answer :=
  Program.question (RemoteAction.request q)

def connect : RemoteCall Unit := ExceptT.lift (request .connect)

def get (key : Key) : RemoteCall (Option String) := ExceptT.mk (request (.get key))

def getMany (keys : List Key) : RemoteCall (List (Option String)) :=
  ExceptT.mk (request (.getMany keys))

def setIfAbsent (key : Key) (text : String) (px : Nat) : RemoteCall Bool :=
  ExceptT.mk (request (.setIfAbsent key text px))

def watch (keys : List Key) : RemoteCall Unit := ExceptT.mk (request (.watch keys))

def unwatch : RemoteCall Unit := ExceptT.mk (request .unwatch)

def transaction (writes : List Write) : RemoteCall Bool := ExceptT.mk (request (.commit writes))

def lifetimes (keys : List Key) : RemoteCall (List Int) :=
  ExceptT.mk (request (.lifetimes keys))

def scan (cursor : Nat) (pattern : String) (count : Nat) : RemoteCall (Nat × List Key) :=
  ExceptT.mk (request (.scan cursor pattern count))

def delete (keys : List Key) : RemoteCall Unit := ExceptT.mk (request (.delete keys))

def issue (tag : String) : RemoteCall Token :=
  ExceptT.lift (Program.question (RemoteAction.issue tag))

def log (e : Event) : RemoteCall Unit :=
  ExceptT.lift (Program.question (RemoteAction.log e))

def watchAndRead (keys : List Key) : RemoteCall (List (Option String)) := do
  watch keys
  getMany keys

/-- Writes in one transaction, unless there is nothing to write. Reports whether nobody came
between. -/
def commit (writes : List Write) : RemoteCall Bool := do
  if writes.isEmpty then
    unwatch
    return true
  else transaction writes

/-- Makes an attempt that may come to nothing, so many times at most. -/
def attempts (operation : String) (attempt : RemoteCall (Option α)) : Nat → RemoteCall α
  | 0 => throw (.backend (.contended operation))
  | n + 1 => do
    match ← attempt with
    | some a => return a
    | none => attempts operation attempt n

/-- Repeats an attempt until it comes to something, but not too often. -/
def retrying (operation : String) (attempt : RemoteCall (Option α)) : RemoteCall α :=
  attempts operation attempt transactionAttempts

end RemoteCall

/-- The lifetime of a slot as a write carries it: none for a lifetime of zero. -/
def Write.lasting (key : Key) (text : String) (ttl : Nat) : Write :=
  .set key text (if ttl = 0 then none else some (Duration.serverMillis ttl))

namespace RemoteStore
open RemoteCall
variable (cfg : RemoteSettings) (rules : Rules)

/-- How many keys a batch of a scan covers. -/
def scanBatch : Nat := 100

/-- Leaves a tombstone in a slot, or nothing. -/
def invalidation (tombstone : Bool) (target : Key) : Write :=
  if tombstone then .lasting target Token.tombstone cfg.tombstoneTtl else .delete target

/-- What a reading found; an empty slot is locked if a lock is wanted and nobody is faster. -/
def resolve (target : Key) (raw : Option String) (lock : Bool) : RemoteCall Lookup := do
  if raw.isSome || !lock then return .observed raw
  else
    let token ← issue LockKind.read.name
    if ← setIfAbsent target token (Duration.serverMillis cfg.lockTtl) then return { token }
    else return .observed (← get target)

def getValue (key : Key) (lock : Bool) : RemoteCall Lookup := do
  let target := cfg.serverKey key
  let raw ← get target
  resolve cfg target raw lock

def resolveAll : List (Key × Option String × Bool) → RemoteCall (List Lookup)
  | [] => return []
  | (target, raw, lock) :: rest => do
    let found ← resolve cfg target raw lock
    let others ← resolveAll rest
    return found :: others

def getValues (keys : List Key) (locks : List Bool) : RemoteCall (List Lookup) := do
  if keys.length ≠ locks.length then throw (flagsFault keys.length locks.length)
  else if keys.isEmpty then return []
  else
    let targets := keys.map cfg.serverKey
    let current ← getMany targets
    resolveAll cfg (targets.zip (current.zip locks))

def setValue (lockKey : Key) (keys : List Key) (value : String) (token : Token) (ttl : Nat) :
    RemoteCall SetResult := do
  if token = Token.noLock then return {}
  else
    let target := cfg.serverKey lockKey
    connect
    let current ← watchAndRead [target]
    let decision := rules.decide current.getLast?.join value token
    let writes :=
      if decision.set then keys.map fun k => .lasting (cfg.serverKey k) value ttl
      else if decision.clear then [.delete target]
      else []
    if ← commit writes then
      if decision.conflict then
        log (.setConflict lockKey token decision.refresh)
      return ⟨decision.set, decision.conflict⟩
    else
      log (.setAborted lockKey)
      return { conflict := true }

/-- One attempt to invalidate keys that hold no token, or all of them if forced. -/
def tryDelete (targets : List Key) (tombstone force : Bool) : RemoteCall (Option Unit) := do
  let current ← if force then pure (targets.map fun _ => none) else watchAndRead targets
  let free := (targets.zip current).filter fun slot => !slot.2.any isToken
  let done ← commit (free.map fun slot => invalidation cfg tombstone slot.1)
  return if done then some () else none

def deleteValue (keys : List Key) (tombstone force : Bool) : RemoteCall Unit := do
  if keys.isEmpty then return ()
  else
    connect
    retrying "delete_value" (tryDelete cfg (keys.map cfg.serverKey) tombstone force)

def markers : List Key → RemoteCall (List Write)
  | [] => return []
  | target :: rest => do
    let marker ← issue Token.conflictTag
    let others ← markers rest
    return .lasting target marker cfg.lockTtl :: others

def writeToken (kind : LockKind) (keys : List Key) : RemoteCall Token := do
  if keys.isEmpty then return Token.noLock
  else
    let token ← issue kind.name
    let targets := keys.map cfg.serverKey
    connect
    let current ← watchAndRead targets
    let refused := (targets.zip current).filter fun slot =>
      !(rules.always token || rules.admits slot.2 token)
    let rivals := refused.filter fun slot => collides slot.2 token
    let marked ← markers cfg (rivals.map (·.1))
    let claimed :=
      if refused.isEmpty then targets.map fun k => .lasting k token cfg.lockTtl else []
    let done ← commit (marked ++ claimed)
    if done && refused.isEmpty then return token
    else
      log (.claimContended kind keys)
      return Token.noLock

/-- One attempt to empty every slot that holds the token. -/
def tryRelease (targets : List Key) (token : Token) : RemoteCall (Option Unit) := do
  let current ← watchAndRead targets
  let held := (targets.zip current).filter fun slot => slot.2 = some token
  let done ← commit (held.map fun slot => .delete slot.1)
  return if done then some () else none

/-- Empties every slot that holds the token. A fault is logged and goes no further. -/
def releaseToken (keys : List Key) (token : Token) : RemoteProgram Unit := do
  if token = Token.noLock ∨ keys.isEmpty then return ()
  else
    let release : RemoteCall Unit := do
      connect
      retrying "release_sentinel" (tryRelease (keys.map cfg.serverKey) token)
    match ← release.run with
    | .ok _ => return ()
    | .error _ => Program.question (RemoteAction.log (.releaseFailed keys))

/-- The text that a dependency list lives in: tokens are no lists. -/
def listText (raw : Option String) : Option String := raw.filter fun raw => !isToken raw

/-- How long a dependency list is to last: at least `ttl`, and no less than what it has left. -/
def listTtl (left : Int) (ttl : Nat) : Nat :=
  if 0 ≤ left ∧ ttl < Duration.ofMillis left.toNat then Duration.ofMillis left.toNat else ttl

def extension (dependents : List Key) (ttl : Nat) (slot : (Key × Key) × Option String × Int) :
    Except Fault Write :=
  (DependencyList.merge slot.1.1 (listText slot.2.1) dependents).map fun text =>
    .lasting slot.1.2 text (listTtl slot.2.2 ttl)

def tryAddDependency (lists dependents : List Key) (ttl : Nat) : RemoteCall (Option Unit) := do
  let targets := lists.map cfg.serverKey
  let current ← watchAndRead targets
  match (lists.zip current).find? fun slot => slot.2.any isTombstone with
  | some slot => throw (.tombstoned slot.1)
  | none =>
    let left ← lifetimes targets
    match ((lists.zip targets).zip (current.zip left)).mapM (extension dependents ttl) with
    | .error fault => throw fault
    | .ok writes =>
      let done ← commit writes
      return if done then some () else none

def addDependency (lists dependents : List Key) (ttl : Nat) : RemoteCall Unit := do
  if lists.isEmpty then return ()
  else
    connect
    retrying "add_dependency" (tryAddDependency cfg lists dependents ttl)

/-- One attempt to invalidate a list and everything on it. The outcome is a fault if the slot
holds no list, in which case only the slot itself is invalidated. -/
def tryClearDependencies (key : Key) (tombstone : Bool) :
    RemoteCall (Option (Except Fault Unit)) := do
  let target := cfg.serverKey key
  let current ← watchAndRead [target]
  let decoded := match listText current.getLast?.join with
    | some raw => DependencyList.decode key raw
    | none => .ok .empty
  let listed := match decoded with
    | .ok set => set.keys.map cfg.serverKey
    | .error _ => []
  let done ← commit ((listed ++ [target]).map (invalidation cfg tombstone))
  return if done then some (decoded.map fun _ => ()) else none

def clearDependencies (key : Key) (tombstone : Bool) : RemoteCall Unit := do
  connect
  match ← retrying "clear_dependencies" (tryClearDependencies cfg key tombstone) with
  | .ok _ => return ()
  | .error fault =>
    log (.dependenciesCorrupt key)
    throw fault

/-- The keys of a batch that are to be removed. -/
def victims (batch : List Key) (tombstones : Bool) : RemoteCall (List Key) := do
  if tombstones || batch.isEmpty then return batch
  else
    let current ← getMany batch
    return ((batch.zip current).filter fun slot => !slot.2.any isTombstone).map (·.1)

/-- Removes the keys of one batch after another from a cursor on. The last argument bounds the
number of batches. -/
def flushFrom (pattern : String) (tombstones : Bool) (cursor : Nat) : Nat → RemoteCall Unit
  | 0 => throw (.backend .unendingScan)
  | rounds + 1 => do
    let (next, batch) ← scan cursor pattern scanBatch
    let gone ← victims batch tombstones
    if !gone.isEmpty then
      delete gone
    if next = 0 then return ()
    else flushFrom pattern tombstones next rounds

def flush (rounds : Nat) (root : String) (tombstones : Bool) : RemoteCall Unit :=
  flushFrom (cfg.scanPattern root) tombstones 0 rounds

/-- The program of a call. Handlers cannot be registered: the server tells nobody about
invalidations. The first argument bounds the batches of a scan. -/
def perform (rounds : Nat) : (c : Call) → RemoteProgram c.Answer
  | .getValue key lock => (getValue cfg key lock).run
  | .getValues keys locks => (getValues cfg keys locks).run
  | .setValue lockKey keys value token ttl => (setValue cfg rules lockKey keys value token ttl).run
  | .deleteValue keys tombstone force => (deleteValue cfg keys tombstone force).run
  | .writeToken kind keys => (writeToken cfg rules kind keys).run
  | .releaseToken keys token => releaseToken cfg keys token
  | .addDependency lists dependents ttl => (addDependency cfg lists dependents ttl).run
  | .clearDependencies key tombstone => (clearDependencies cfg key tombstone).run
  | .flush root tombstones => (flush cfg rounds root tombstones).run
  | .registerHandler _ _ => return .error (.unsupported "register_invalidation_handler")

end RemoteStore
end CacheCoherence
