import CacheCoherence.Proofs.Operations

/-!
# Recorded runs

Whoever runs an operation on a store in memory may decide of each call, in view of the calls before
it, that it fails. Such a call does not reach the store. The record of a run has every call with the
fault that it was answered with, if any, and every event, in order. If no call is made to fail the
run comes out as that of the operation on the store alone, and a session whose recorder has rules is
the run in which the calls fail that the rules select.
-/
namespace CacheCoherence

def Call.fault? : (c : Call) → c.Answer → Option Fault
  | .getValue .., .error fault | .getValues .., .error fault | .setValue .., .error fault
  | .deleteValue .., .error fault | .writeToken .., .error fault | .addDependency .., .error fault
  | .clearDependencies .., .error fault | .flush .., .error fault
  | .registerHandler .., .error fault => some fault
  | _, _ => none

/-- Which calls fail, in view of the calls before. -/
abbrev Failures := List Call → Call → Bool

def Failures.never : Failures := fun _ _ => false

def Failures.ofRules (rules : List FailureRule) : Failures := fun _ c => rules.any (·.selects c)

/-- A store in memory with the record of what it was called for. -/
structure Recorded where
  memory : Memory
  calls : List (Call × Option Fault) := []
  events : List Event := []

namespace Recorded
variable (cfg : MemorySettings) (fails : Failures)

def ask (r : Recorded) (c : Call) : c.Answer × Recorded :=
  if fails (r.calls.map (·.1)) c then
    (c.failed (.backend .injected),
      { r with calls := r.calls ++ [(c, some (.backend .injected))] })
  else
    ((r.memory.perform cfg c).answer,
      { memory := (r.memory.perform cfg c).memory
        calls := r.calls ++ [(c, c.fault? (r.memory.perform cfg c).answer)]
        events := r.events ++ (r.memory.perform cfg c).events })

def answer : (q : Action) → Recorded → q.Answer × Recorded
  | .call c, r => r.ask cfg fails c
  | .note _, r => ((), r)
  | .log e, r => ((), { r with events := r.events ++ [e] })

end Recorded

namespace Operation
variable (cfg : MemorySettings) (fails : Failures) {α β : Type}

/-- The result of an operation whose calls may fail, and the record that it leaves. -/
def recorded (op : Operation α) (r : Recorded) : α × Recorded :=
  Program.run (Recorded.answer cfg fails) op r

section Recorded
variable (r : Recorded)

@[simp] theorem recorded_pure (a : α) : recorded cfg fails (pure a) r = (a, r) := rfl

@[simp] theorem recorded_bind (op : Operation α) (next : α → Operation β) :
    recorded cfg fails (op >>= next) r =
      (next (op.recorded cfg fails r).1).recorded cfg fails (op.recorded cfg fails r).2 :=
  Program.run_bind _ op next r

@[simp] theorem recorded_call (c : Call) :
    (call c).recorded cfg fails r = r.ask cfg fails c := rfl

@[simp] theorem recorded_setValue (lockKey : Key) (keys : List Key) (value : String) (token : Token)
    (ttl : Nat) :
    recorded (α := Except Fault SetResult) cfg fails
        (call (.setValue lockKey keys value token ttl)) r =
      r.ask cfg fails (.setValue lockKey keys value token ttl) := rfl

@[simp] theorem recorded_deleteValue (keys : List Key) (tombstone force : Bool) :
    recorded (α := Except Fault Unit) cfg fails (call (.deleteValue keys tombstone force)) r =
      r.ask cfg fails (.deleteValue keys tombstone force) := rfl

@[simp] theorem recorded_addDependency (lists dependents : List Key) (ttl : Nat) :
    recorded (α := Except Fault Unit) cfg fails (call (.addDependency lists dependents ttl)) r =
      r.ask cfg fails (.addDependency lists dependents ttl) := rfl

@[simp] theorem recorded_clearDependencies (key : Key) (tombstone : Bool) :
    recorded (α := Except Fault Unit) cfg fails (call (.clearDependencies key tombstone)) r =
      r.ask cfg fails (.clearDependencies key tombstone) := rfl

@[simp] theorem recorded_note (n : Note) : (note n).recorded cfg fails r = ((), r) := rfl

@[simp] theorem recorded_log (e : Event) :
    (log e).recorded cfg fails r = ((), { r with events := r.events ++ [e] }) := rfl

end Recorded

variable {cfg fails} {S : Call → Prop} {op : Operation α} {r : Recorded}

variable (cfg fails) in
/-- What every call of a kind preserves, an operation preserves that makes no other calls, whichever
of them fail. -/
theorem Calls.preserves_recorded (h : Calls S op) {P : Memory → Prop}
    (hcall : ∀ c m, S c → P m → P (m.perform cfg c).memory) (hm : P r.memory) :
    P (op.recorded cfg fails r).2.memory := by
  induction op generalizing r with
  | done a => exact hm
  | ask q rest ih =>
    cases q with
    | call c =>
      refine ih _ (h.2 _) ?_
      change P (r.ask cfg fails c).2.memory
      unfold Recorded.ask
      split
      · exact hm
      · exact hcall c r.memory (h.1 c rfl) hm
    | note n => exact ih _ (h.2 _) hm
    | log e => exact ih _ (h.2 _) hm

variable (cfg fails) in
theorem calls_recorded_grow (op : Operation α) (r : Recorded) :
    r.calls <+: (op.recorded cfg fails r).2.calls := by
  induction op generalizing r with
  | done a => exact List.prefix_rfl
  | ask q rest ih =>
    refine List.IsPrefix.trans ?_ (ih _ _)
    cases q with
    | call c =>
      change r.calls <+: (r.ask cfg fails c).2.calls
      unfold Recorded.ask
      split <;> exact List.prefix_append _ _
    | note n => exact List.prefix_rfl
    | log e => exact List.prefix_rfl

/-- If no call is made to fail, the record is kept on the side. -/
theorem recorded_never (op : Operation α) (r : Recorded) :
    (op.recorded cfg .never r).1 = (op.on cfg r.memory).1 ∧
      (op.recorded cfg .never r).2.memory = (op.on cfg r.memory).2 := by
  induction op generalizing r with
  | done a => exact ⟨rfl, rfl⟩
  | ask q rest ih =>
    cases q with
    | call c => exact ih _ _
    | note n => exact ih _ r
    | log e => exact ih _ _

end Operation

namespace Session
variable {cfg : MemorySettings} {α : Type}

theorem perform_recorded {s : Session} {r : Recorded} (hstore : s.store = .memory cfg r.memory)
    (hkeep : s.recorder.keep = none) (c : Call) :
    (s.perform c).1 = (r.ask cfg (.ofRules s.recorder.rules) c).1 ∧
      (s.perform c).2.store =
        .memory cfg (r.ask cfg (.ofRules s.recorder.rules) c).2.memory ∧
      (s.perform c).2.recorder.keep = none ∧
      (s.perform c).2.recorder.rules = s.recorder.rules := by
  have hcut (answer : c.Answer) : Recorder.cut none c answer = answer := by cases c <;> rfl
  cases hfails : s.recorder.rules.any (·.selects c) with
  | true =>
    simp only [Session.perform, Recorder.record, Recorded.ask, Failures.ofRules, hfails, if_true]
    exact ⟨trivial, hstore, hkeep, trivial⟩
  | false =>
    simp only [Session.perform, Recorder.record, Recorded.ask, Failures.ofRules, hfails,
      Bool.false_eq_true, if_false, hstore, hkeep, Store.perform, hcut, and_self]

/-- A session on a store in memory runs an operation as recorded, with failures by the rules of its
recorder. -/
theorem run_recorded {s : Session} {r : Recorded} (hstore : s.store = .memory cfg r.memory)
    (hkeep : s.recorder.keep = none) (ctx : String) (op : Operation α) :
    (s.run ctx op).1 = (op.recorded cfg (.ofRules s.recorder.rules) r).1 ∧
      (s.run ctx op).2.store =
        .memory cfg (op.recorded cfg (.ofRules s.recorder.rules) r).2.memory := by
  unfold Session.run Operation.recorded
  generalize s.context ctx = context
  generalize hrules : s.recorder.rules = rules
  induction op generalizing s r with
  | done a => exact ⟨rfl, hstore⟩
  | ask q next ih =>
    cases q with
    | note n => exact ih _ hstore hkeep hrules
    | log e => exact ih (r := { r with events := r.events ++ [e] }) _ hstore hkeep hrules
    | call c =>
      obtain ⟨hanswer, hstore', hkeep', hrules'⟩ := perform_recorded hstore hkeep c
      rw [hrules] at hanswer hstore' hrules'
      have hnext := ih (s.perform c).1 hstore' hkeep' hrules'
      simp only [Program.run, Session.answer, Recorded.answer]
      rw [← hanswer]
      exact hnext

end Session
end CacheCoherence
