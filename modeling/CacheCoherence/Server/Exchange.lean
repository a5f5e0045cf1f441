import CacheCoherence.Server.Request
/-!
# A server among other clients

Requests reach the server as commands. Each command received is kept in the record; a command may
be told to fail, and other clients may write right after a command was answered. The commands
that a transaction queues are received, but they neither fail nor give way to other clients: that
is left to the commands around them.
-/
namespace CacheCoherence

/-- A write of another client: a text with its lifetime in milliseconds, or a removal. -/
structure ForeignWrite where
  key : Key
  text : Option String
  px : Option Nat := none
deriving DecidableEq, Repr

/-- Writes of another client that follow a command of a given name. -/
structure Race where
  command : String
  writes : List ForeignWrite
  /-- How often the race is still to be run. -/
  times : Nat
deriving DecidableEq, Repr

/-- A server, what is to go wrong with it, and what it has received. -/
structure Exchange where
  server : Server := {}
  /-- The commands that are to fail and how often each, in the order of use. -/
  failures : List (String × Nat) := []
  /-- The races in the order of use. -/
  races : List Race := []
  /-- Every command received, word by word, in order. -/
  received : List (List String) := []

def ForeignWrite.toWrite (w : ForeignWrite) : Write :=
  match w.text with
  | some text => .set w.key text w.px
  | none => .delete w.key

def Write.words : Write → List String
  | .set key text none => ["SET", key, text]
  | .set key text (some px) => ["SET", key, text, "PX", toString px]
  | .delete key => ["DEL", key]

/-- Takes the first failure of a command that is still to happen. -/
def takeFailure (command : String) : List (String × Nat) → Option (List (String × Nat))
  | [] => none
  | (name, times) :: rest =>
    if name = command ∧ 0 < times then some ((name, times - 1) :: rest)
    else (takeFailure command rest).map ((name, times) :: ·)

/-- Takes the first race behind a command that is still to be run. -/
def takeRace (command : String) : List Race → Option (List ForeignWrite × List Race)
  | [] => none
  | race :: rest =>
    if race.command = command ∧ 0 < race.times then
      some (race.writes, { race with times := race.times - 1 } :: rest)
    else (takeRace command rest).map fun (writes, rest) => (writes, race :: rest)

namespace Exchange

/-- Lets other clients write behind a command. -/
def race (x : Exchange) (command : String) : Exchange :=
  match takeRace command x.races with
  | none => x
  | some (writes, races) =>
    { x with races, server := writes.foldl (fun s w => s.write w.toWrite) x.server }

/-- Receives a command of these words, runs it unless it is to fail, and lets other clients write
behind it. -/
def command {α : Type} (x : Exchange) (name : String) (arguments : List String)
    (run : Server → α × Server) : Except Fault α × Exchange :=
  let x := { x with received := x.received ++ [name :: arguments] }
  match takeFailure name x.failures with
  | some failures => (.error (.backend .server), { x with failures }.race name)
  | none =>
    let (answer, server) := run x.server
    (.ok answer, { x with server }.race name)

/-- Receives a write outside a transaction. -/
def writeAlone (x : Exchange) (w : Write) : Exchange :=
  match w.words with
  | [] => x
  | name :: arguments => (x.command name arguments fun s => ((), s.write w)).2

/-- Runs a transaction. If it cannot be opened its writes are received as commands of their own
and there is nothing to run at the end. -/
def transaction (x : Exchange) (writes : List Write) : Except Fault Bool × Exchange :=
  match x.command "MULTI" [] fun s => ((), s) with
  | (.ok (), x) =>
    let x := { x with received := x.received ++ writes.map Write.words }
    x.command "EXEC" [] fun s => s.commit writes
  | (.error fault, x) =>
    let x := writes.foldl writeAlone x
    (.error fault, (x.command "EXEC" [] fun s => ((), s)).2)

/-- Asks for the lifetimes of keys one by one. All are asked for, even behind a failure. -/
def lifetimes : List Key → Exchange → Except Fault (List Int) × Exchange
  | [], x => (.ok [], x)
  | key :: rest, x =>
    let (first, x) := x.command "PTTL" [key] fun s => (s.lifetime key, s)
    let (others, x) := lifetimes rest x
    (do return (← first) :: (← others), x)

def answer : (q : Request) → Exchange → q.Answer × Exchange
  | .connect, x => ((), { x with server := x.server.unwatch })
  | .get key, x => x.command "GET" [key] fun s => (s.content key, s)
  | .getMany keys, x => x.command "MGET" keys fun s => (keys.map s.content, s)
  | .setIfAbsent key text px, x =>
    x.command "SET" [key, text, "NX", "PX", toString px] fun s => s.setIfAbsent key text px
  | .watch keys, x => x.command "WATCH" keys fun s => ((), s.watch keys)
  | .unwatch, x => x.command "UNWATCH" [] fun s => ((), s.unwatch)
  | .commit writes, x => x.transaction writes
  | .lifetimes keys, x => lifetimes keys x
  | .scan cursor pattern count, x =>
    x.command "SCAN" [toString cursor, "MATCH", pattern, "COUNT", toString count] fun s =>
      s.scan cursor pattern count
  | .delete keys, x => x.command "DEL" keys fun s => ((), keys.foldl Server.delete s)

/-- Lets another client write at once. -/
def writeDirectly (x : Exchange) (w : ForeignWrite) : Exchange :=
  { x with server := x.server.write w.toWrite }

/-- Arms a race behind those armed before. -/
def addRace (x : Exchange) (race : Race) : Exchange := { x with races := x.races ++ [race] }

def addFailure (x : Exchange) (command : String) (times : Nat) : Exchange :=
  { x with failures := x.failures ++ [(command, times)] }

/-- How many batches a scan can have: each moves past a key that there is or that another client
may still write. -/
def scanRounds (x : Exchange) : Nat :=
  x.races.foldl (fun n race => n + race.writes.length * race.times)
    (x.server.slots.entries.length + 1)

end Exchange
end CacheCoherence
