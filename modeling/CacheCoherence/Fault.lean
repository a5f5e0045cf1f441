import CacheCoherence.Text.Quoted
import CacheCoherence.Token
/-!
# What can go wrong

A `Fault` is the failure of one call to a store. Contention is none: stores report it in their
answers. A `CacheError` is what lock, delete and metrics operations fail with; reads and saves
never fail. Each is a cause, and its wording is in one function.
-/
namespace CacheCoherence

/-- How often a transaction is tried before its operation gives up. -/
def transactionAttempts : Nat := 8

/-- Why the backend of a store failed. -/
inductive Breakdown where
  /-- The server or the connection to it failed; the wording is not ours. -/
  | server
  /-- Other clients wrote between each reading and its transaction. -/
  | contended (operation : String)
  /-- The failure was asked for. -/
  | injected
  /-- A walk over the server's keys did not come to its end. -/
  | unendingScan
  /-- Any other cause, in its own words. -/
  | reported (text : String)
deriving DecidableEq, Repr

/-- The failure of one call to a store. -/
inductive Fault where
  /-- A dependent could not be registered because the key holds a tombstone. -/
  | tombstoned (key : Key)
  | invalidArgument (reason : String)
  | unsupported (operation : String)
  /-- The slot of the key holds something that cannot be decoded. -/
  | corrupt (key : Key)
  | backend (cause : Breakdown)
deriving DecidableEq, Repr

/-- The words of a breakdown, if they are ours. -/
def Breakdown.message? : Breakdown → Option String
  | server => none
  | contended operation =>
    some (operation ++ ": transaction aborted " ++ toString transactionAttempts
      ++ " times by concurrent writers")
  | injected => some "mock: injected failure"
  | unendingScan => some "scan did not end"
  | reported text => some text

def Fault.message? : Fault → Option String
  | tombstoned key => some ("key " ++ key ++ " holds a tombstone")
  | invalidArgument reason => some ("invalid argument: " ++ reason)
  | unsupported operation => some (operation ++ " is not supported by this provider")
  | corrupt key => some ("value at " ++ key ++ " is corrupt")
  | backend cause => cause.message?

/-- What an operation on the cache fails with. -/
inductive CacheError where
  /-- A lock on these keys could not be established. -/
  | lockConflict (keys : List Key) (source : Option Fault)
  /-- Collections take no locks of this kind. -/
  | invalidLockKind (kind : LockKind)
  /-- The context never had metrics attached. -/
  | metricsNotInitialized
  | store (fault : Fault)
deriving DecidableEq, Repr

namespace CacheError

def message? : CacheError → Option String
  | lockConflict keys _ =>
    some ("conflicting cache operation on " ++ Text.shownKeys keys ++ ", please retry the call")
  | invalidLockKind kind => some (kind.name ++ " locks cannot be taken on per-item collections")
  | metricsNotInitialized => some "cache metrics are not initialized on this context"
  | store fault => fault.message?

/-- Whether the same call may succeed later. -/
def isRetryable : CacheError → Bool
  | lockConflict _ _ => true
  | _ => false

end CacheError
end CacheCoherence
