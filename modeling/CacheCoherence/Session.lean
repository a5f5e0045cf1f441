import CacheCoherence.Cache.Operation
import CacheCoherence.Item
import CacheCoherence.Memory
import CacheCoherence.Recorder
import CacheCoherence.Remote.Store
import CacheCoherence.Server.Exchange
/-!
# Sessions

A session is a cache in use: the policies of one namespace, a store behind a recorder, and the
contexts of the callers with their metrics. Calls and operations run one after another; what they
logged and which handlers they called is collected until it is taken.
-/
namespace CacheCoherence

structure Remote where
  exchange : Exchange := {}
  /-- How many tokens were issued. -/
  issued : Nat := 0
  events : List Event := []

def Remote.answer : (q : RemoteAction) → Remote → q.Answer × Remote
  | .request q, r =>
    let (answer, exchange) := r.exchange.answer q
    (answer, { r with exchange })
  | .issue tag, r => (Token.issue tag r.issued, { r with issued := r.issued + 1 })
  | .log e, r => ((), { r with events := r.events ++ [e] })

inductive Store where
  | memory (cfg : MemorySettings) (state : Memory)
  | remote (cfg : RemoteSettings) (rules : Rules) (state : Remote)

namespace Store

def cacheName : Store → String
  | memory cfg _ => cfg.name
  | remote cfg _ _ => cfg.cacheName

/-- The texts of the live slots, under their keys on the server where there is one. -/
def contents : Store → Table String
  | memory _ m => m.slots.contents m.now
  | remote _ _ r => r.exchange.server.slots.contents r.exchange.server.now

def advance (elapsed : Nat) : Store → Store
  | memory cfg m => memory cfg (m.advance elapsed)
  | remote cfg rules r =>
    let server := r.exchange.server.advance elapsed
    remote cfg rules { r with exchange := { r.exchange with server } }

def memory? : Store → Option Memory
  | memory _ m => some m
  | remote .. => none

def mapExchange (f : Exchange → Exchange) : Store → Store
  | remote cfg rules r => remote cfg rules { r with exchange := f r.exchange }
  | s => s

end Store

/-- What calls left behind besides their answers. -/
structure Journal where
  events : List Event := []
  /-- The handlers called, each with the key that was invalidated. -/
  notified : List (String × Key) := []
  /-- The commands that a server received. -/
  commands : List (List String) := []

/-- The answer to a call, the store after it and what it left behind. The journal of a store on a
server is emptied by taking it. -/
def Store.perform (s : Store) (c : Call) : c.Answer × Store × Journal :=
  match s with
  | memory cfg m =>
    let reply := m.perform cfg c
    (reply.answer, memory cfg reply.memory,
      { events := reply.events, notified := reply.notified })
  | remote cfg rules r =>
    let call := RemoteStore.perform cfg rules r.exchange.scanRounds c
    let (answer, r) := call.run Remote.answer r
    (answer,
      remote cfg rules { r with events := [], exchange := { r.exchange with received := [] } },
      { events := r.events, commands := r.exchange.received })

def Journal.append (a b : Journal) : Journal :=
  ⟨a.events ++ b.events, a.notified ++ b.notified, a.commands ++ b.commands⟩

/-- A cache in use. -/
structure Session where
  policy : Policy
  store : Store
  recorder : Recorder := {}
  metrics : MetricsCells := {}
  /-- The contexts by name. Any other name stands for a context without metrics. -/
  contexts : Table Context := .empty
  journal : Journal := {}

namespace Session
variable {α : Type}

/-- Calls the store through the recorder. -/
def perform (s : Session) (c : Call) : c.Answer × Session :=
  let (fails, recorder) := s.recorder.record c
  if fails then (c.failed (.backend .injected), { s with recorder })
  else
    let (answer, store, journal) := s.store.perform c
    (Recorder.cut recorder.keep c answer,
      { s with recorder, store, journal := s.journal.append journal })

def context (s : Session) (name : String) : Context := (s.contexts.get? name).join

/-- Takes one action of an operation in a context. Time stands still during operations. -/
def answer (ctx : Context) : (q : Action) → Session → q.Answer × Session
  | .call c, s => s.perform c
  | .note n, s => ((), { s with metrics := s.metrics.record ctx 0 n })
  | .log e, s => ((), { s with journal := { s.journal with events := s.journal.events ++ [e] } })

def run (s : Session) (ctx : String) (operation : Operation α) : α × Session :=
  operation.run (answer (s.context ctx)) s

/-- Names a new context, with metrics of its own or without any. -/
def newContext (s : Session) (name : String) (withMetrics : Bool) : Session :=
  if withMetrics then
    let (ctx, metrics) := s.metrics.fresh
    { s with metrics, contexts := s.contexts.insert name ctx }
  else { s with contexts := s.contexts.insert name none }

/-- Names a clone of a context, which shares its metrics. -/
def cloneContext (s : Session) (name clone : String) : Session :=
  { s with contexts := s.contexts.insert clone (s.context name) }

def initContext (s : Session) (name : String) : Session :=
  let (ctx, metrics) := s.metrics.attach (s.context name)
  { s with metrics, contexts := s.contexts.insert name ctx }

/-- Attaches fresh metrics to a context in place of any it had. -/
def resetContext (s : Session) (name : String) : Session := s.newContext name true

def metricsOf (s : Session) (name : String) : Except CacheError Metrics :=
  s.metrics.read (s.context name)

/-- What was collected since it was last taken. -/
def takeJournal (s : Session) : Journal × Session := (s.journal, { s with journal := {} })

end Session
end CacheCoherence
