import CacheCoherence.Fault
import CacheCoherence.Server.Basic
/-!
# Requests to a server

A request is what a client sends in one piece: one command, or the commands of a transaction or of
a list of questions. The answer is what the client makes of the server's replies, or a fault.
-/
namespace CacheCoherence

inductive Request where
  /-- A connection of its own for the requests that follow, without any watches. -/
  | connect
  | get (key : Key)
  | getMany (keys : List Key)
  | setIfAbsent (key : Key) (text : String) (px : Nat)
  | watch (keys : List Key)
  | unwatch
  /-- All the writes in one transaction; the answer says whether it ran. -/
  | commit (writes : List Write)
  | lifetimes (keys : List Key)
  /-- The next batch of a scan; the answer is the cursor behind it and the keys that match. -/
  | scan (cursor : Nat) (pattern : String) (count : Nat)
  | delete (keys : List Key)
deriving DecidableEq, Repr

abbrev Request.Answer : Request → Type
  | connect => Unit
  | get _ => Except Fault (Option String)
  | getMany _ => Except Fault (List (Option String))
  | setIfAbsent .. | commit _ => Except Fault Bool
  | watch _ | unwatch | delete _ => Except Fault Unit
  | lifetimes _ => Except Fault (List Int)
  | scan .. => Except Fault (Nat × List Key)

end CacheCoherence
