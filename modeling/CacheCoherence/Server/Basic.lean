import CacheCoherence.Glob
import CacheCoherence.Slots
/-!
# A server of text slots

The server runs commands one at a time on slots that expire. A connection may watch keys: its
next transaction then runs only if nobody wrote to a watched key since. A write is any setting of
a key and any removal of a key that exists; that a slot expires is none. A scan walks the keys in
ascending order, a batch at a time, and stands at a cursor in between.
-/
namespace CacheCoherence

/-- The state of a server, together with the watches of the one connection in use. -/
structure Server where
  slots : Slots := .empty
  /-- The present instant. -/
  now : Nat := 0
  /-- The keys that the connection watches. -/
  watched : List Key := []
  /-- Whether a watched key was written to since it is watched. -/
  touched : Bool := false
  /-- The last key of the batch that each cursor stands behind; the first cursor is 1. -/
  cursors : List Key := []

/-- A write as part of a transaction. -/
inductive Write where
  /-- Sets a key; the lifetime is in milliseconds. -/
  | set (key : Key) (text : String) (px : Option Nat)
  | delete (key : Key)
deriving DecidableEq, Repr

namespace Server

def advance (s : Server) (elapsed : Nat) : Server := { s with now := s.now + elapsed }

/-- The live text of a key. -/
def content (s : Server) (key : Key) : Option String := s.slots.content s.now key

/-- Remembers that a key was written to, if it is watched. -/
def touch (s : Server) (key : Key) : Server :=
  { s with touched := s.touched || s.watched.contains key }

/-- Sets a key in place of its text and deadline. -/
def set (s : Server) (key : Key) (text : String) (px : Option Nat) : Server :=
  { s.touch key with
    slots := s.slots.insert key ⟨text, px.map fun ms => s.now + Duration.ofMillis ms⟩ }

/-- Removes a key; one that does not exist is not written to. -/
def delete (s : Server) (key : Key) : Server :=
  if (s.content key).isSome then { s.touch key with slots := s.slots.erase key } else s

def write (s : Server) : Write → Server
  | .set key text px => s.set key text px
  | .delete key => s.delete key

/-- Sets a key that does not exist; reports whether it did. -/
def setIfAbsent (s : Server) (key : Key) (text : String) (px : Nat) : Bool × Server :=
  if (s.content key).isSome then (false, s) else (true, s.set key text (some px))

/-- Puts the keys under watch for the connection's next transaction. -/
def watch (s : Server) (keys : List Key) : Server := { s with watched := s.watched ++ keys }

def unwatch (s : Server) : Server := { s with watched := [], touched := false }

/-- Runs a transaction unless a watched key was written to, and ends all watches; reports whether
it ran. -/
def commit (s : Server) (writes : List Write) : Bool × Server :=
  if s.touched then (false, s.unwatch) else (true, (writes.foldl write s).unwatch)

/-- The milliseconds that a key has left, rounded down: -1 without a deadline and -2 when the key
does not exist. -/
def lifetime (s : Server) (key : Key) : Int :=
  match s.slots.live? s.now key with
  | none => -2
  | some slot =>
    match slot.deadline with
    | none => -1
    | some t => (min ((t - s.now) / Duration.perMilli) Int64.maxValue.toInt.toNat : Nat)

/-- The next keys of a scan that match a pattern, and the cursor behind the batch: zero at the
end. The batch counts keys before they are matched. -/
def scan (s : Server) (cursor : Nat) (pattern : String) (count : Nat) :
    (Nat × List Key) × Server :=
  let keys := (s.slots.sweep s.now).keys
  let ahead := match cursor with
    | 0 => keys
    | n + 1 => match s.cursors[n]? with
      | some last => keys.filter fun k => last < k
      | none => []
  let batch := ahead.take count
  let found := batch.filter (Glob.matchesText pattern)
  match batch.getLast?, ahead.drop count with
  | some last, _ :: _ =>
    ((s.cursors.length + 1, found), { s with cursors := s.cursors ++ [last] })
  | _, _ => ((0, found), s)

end Server
end CacheCoherence
