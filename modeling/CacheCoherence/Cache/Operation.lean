import CacheCoherence.Call
import CacheCoherence.Event
import CacheCoherence.Metrics
import CacheCoherence.Program
/-!
# Operations on the cache

An operation is a program whose questions are calls to a store, notes to the metrics of its
context and events for the log. It holds no state of its own: between two calls of one operation
any other client may call the store.
-/
namespace CacheCoherence

inductive Action where
  | call (c : Call)
  | note (n : Note)
  | log (e : Event)

abbrev Action.Answer : Action → Type
  | .call c => c.Answer
  | .note _ => Unit
  | .log _ => Unit

abbrev Operation := Program Action Action.Answer

namespace Operation

def call (c : Call) : Operation c.Answer := Program.question (Action.call c)

def note (n : Note) : Operation Unit := Program.question (Action.note n)

def log (e : Event) : Operation Unit := Program.question (Action.log e)

end Operation
end CacheCoherence
