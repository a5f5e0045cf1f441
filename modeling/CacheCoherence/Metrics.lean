import CacheCoherence.Fault
/-!
# Metrics of a request

Counters and latencies are collected per request. A context refers to a cell of metrics or to
none; clones of a context refer to the same cell, and a context without a cell records nothing.
-/
namespace CacheCoherence

/-- Counters and latencies collected over one request. -/
structure Metrics where
  /-- Operations that reached the store. -/
  calls : Nat := 0
  /-- Lookups that returned an item. -/
  hits : Nat := 0
  misses : Nat := 0
  /-- Values written. -/
  stores : Nat := 0
  deletions : Nat := 0
  /-- How long each read, write and delete took. -/
  getLatencies : List Nat := []
  storeLatencies : List Nat := []
  deletionLatencies : List Nat := []
deriving DecidableEq, Repr, Inhabited

/-- What an operation tells the metrics of its context. -/
inductive Note where
  | call
  | lookup (hit : Bool)
  | read
  | store (stored : Bool)
  | deletion (deleted : Bool)
deriving DecidableEq, Repr

namespace Metrics

def fresh : Metrics := {}

/-- The metrics after a note; `elapsed` is how long the call took that the note is about. -/
def record (m : Metrics) (elapsed : Nat) : Note → Metrics
  | .call => { m with calls := m.calls + 1 }
  | .lookup true => { m with hits := m.hits + 1 }
  | .lookup false => { m with misses := m.misses + 1 }
  | .read => { m with getLatencies := m.getLatencies ++ [elapsed] }
  | .store stored =>
    { m with
      storeLatencies := m.storeLatencies ++ [elapsed]
      stores := m.stores + stored.toNat }
  | .deletion deleted =>
    { m with
      deletionLatencies := m.deletionLatencies ++ [elapsed]
      deletions := m.deletions + deleted.toNat }

/-- The fraction of lookups that hit, once there was one. Counters are words of 64 bits and are
rounded to the nearest float one by one. -/
def hitRate (m : Metrics) : Option Float :=
  if m.hits + m.misses = 0 then none
  else some (m.hits.toUInt64.toFloat / (m.hits + m.misses).toUInt64.toFloat)

def totalLatency (m : Metrics) : Nat :=
  (m.getLatencies ++ m.storeLatencies ++ m.deletionLatencies).foldl (· + ·) 0

end Metrics

/-- The cell of metrics that a context refers to. -/
abbrev Context := Option Nat

/-- The cells of metrics made so far; a context refers to one by its position. -/
structure MetricsCells where
  cells : List Metrics := []
deriving Inhabited

namespace MetricsCells

def fresh (m : MetricsCells) : Context × MetricsCells :=
  (some m.cells.length, ⟨m.cells ++ [.fresh]⟩)

def record (m : MetricsCells) (ctx : Context) (elapsed : Nat) (note : Note) : MetricsCells :=
  match ctx with
  | none => m
  | some i => ⟨m.cells.modify i fun cell => cell.record elapsed note⟩

/-- Attaches fresh metrics to a context unless it has some. -/
def attach (m : MetricsCells) (ctx : Context) : Context × MetricsCells :=
  if ctx.isSome then (ctx, m) else m.fresh

def read (m : MetricsCells) (ctx : Context) : Except CacheError Metrics :=
  match ctx with
  | none => .error .metricsNotInitialized
  | some i => .ok (m.cells.getD i .fresh)

end MetricsCells
end CacheCoherence
