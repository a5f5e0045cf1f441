import CacheCoherence.Duration
import CacheCoherence.Fault
import CacheCoherence.Glob
import CacheCoherence.Json.Parser
import CacheCoherence.Json.Reader
import CacheCoherence.Slots
/-!
# Settings of a store on a server

Settings may be read from a JSON document, where whatever is missing takes its default. Several
namespaces can share one server: with a key root, every key that the store touches starts with the
root and a colon.
-/
namespace CacheCoherence

structure RemoteSettings where
  url : String := "redis://127.0.0.1:6379"
  /-- Put in front of every key, with a colon. -/
  keyRoot : Option String := none
  /-- The name of the cache in log events. -/
  name : Option String := none
  /-- How long a lock lasts whose holder never releases it. -/
  lockTtl : Nat := Duration.ofSeconds 30
  tombstoneTtl : Nat := Duration.ofSeconds 5
deriving DecidableEq, Repr

namespace RemoteSettings

def serverKey (cfg : RemoteSettings) (key : Key) : Key :=
  match cfg.keyRoot with
  | some root => root ++ ":" ++ key
  | none => key

/-- The pattern that selects every key of the store that starts with a given text. -/
def scanPattern (cfg : RemoteSettings) (root : String) : String :=
  Glob.startingWith (cfg.serverKey root)

def cacheName (cfg : RemoteSettings) : String := cfg.name.getD "redis"

/-- A length of time as seconds and nanoseconds, in an object of nothing else or in an array. A
second's worth of nanoseconds and more is carried over, unless the seconds overflow. -/
def toDuration? (j : Json) : Option Nat := do
  let layout : Json.Layout := { names := ["secs", "nanos"], unknownFields := false }
  match ← j.toRecord? layout with
  | [some secs, some nanos] =>
    let secs ← secs.toWord? UInt64.size
    let nanos ← nanos.toWord? UInt32.size
    if secs + nanos / Duration.perSecond < UInt64.size then
      some (Duration.ofSeconds secs + nanos)
    else none
  | _ => none

def ofJson? (j : Json) : Option RemoteSettings := do
  let layout : Json.Layout :=
    { names := ["url", "key_prefix", "name", "lock_ttl", "tombstone_ttl"], shortArrays := true }
  let default : RemoteSettings := {}
  match ← j.toRecord? layout with
  | [url, keyRoot, name, lockTtl, tombstoneTtl] =>
    return {
      url := ← Json.orDefault? default.url Json.toText? url
      keyRoot := ← Json.orDefault? default.keyRoot (Json.toOptional? Json.toText?) keyRoot
      name := ← Json.orDefault? default.name (Json.toOptional? Json.toText?) name
      lockTtl := ← Json.orDefault? default.lockTtl toDuration? lockTtl
      tombstoneTtl := ← Json.orDefault? default.tombstoneTtl toDuration? tombstoneTtl }
  | _ => none

/-- What connecting to a server ends with when its URL cannot be read. -/
def unreachable : Fault := .backend .server

def parse? (s : String) : Option RemoteSettings := Json.parse? s >>= ofJson?

end RemoteSettings
end CacheCoherence
