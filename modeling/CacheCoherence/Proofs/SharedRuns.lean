import CacheCoherence.Proofs.RecordedRuns
import CacheCoherence.Proofs.Memory.Confinement

/-!
# Operations on a shared store

An operation seldom has a store to itself. Before each of its calls the other clients may call the
store and time may go by, and a call may fail, which then does not reach the store. What the others
do and which calls fail may depend on all calls that the operation has made. The calls that reached
the store are remembered, each with the store as it was and the answer.
-/
namespace CacheCoherence

/-- What goes on around an operation, in view of the calls that it has made. -/
structure Surroundings where
  /-- What happens to the store before the next call. -/
  meanwhile : List Call → List Memory.Step
  json : ∀ made, Memory.StoreJson (meanwhile made)
  fails : Failures

def Surroundings.SparesReleases (env : Surroundings) : Prop :=
  ∀ made keys token, env.fails made (.releaseToken keys token) = false

/-- A call that reached the store, what it found there and what it was answered. -/
structure Answered where
  store : Memory
  call : Call
  answer : call.Answer

/-- A shared store with what an operation has called it for. -/
structure Course where
  memory : Memory
  made : List Call := []
  answered : List Answered := []

namespace Course
variable (cfg : MemorySettings) (env : Surroundings)

/-- Makes a call once the others have done what they do before it. -/
def ask (s : Course) (c : Call) : c.Answer × Course :=
  let m := s.memory.after cfg (env.meanwhile s.made)
  if env.fails s.made c then
    (c.failed (.backend .injected), { s with memory := m, made := s.made ++ [c] })
  else
    ((m.perform cfg c).answer,
      { memory := (m.perform cfg c).memory
        made := s.made ++ [c]
        answered := s.answered ++ [⟨m, c, (m.perform cfg c).answer⟩] })

def answer : (q : Action) → Course → q.Answer × Course
  | .call c, s => s.ask cfg env c
  | .note _, s => ((), s)
  | .log _, s => ((), s)

theorem ask_reached {s : Course} {c : Call} (h : env.fails s.made c = false) :
    ∃ m, m = s.memory.after cfg (env.meanwhile s.made) ∧
      (s.ask cfg env c).1 = (m.perform cfg c).answer ∧
      (s.ask cfg env c).2.memory = (m.perform cfg c).memory ∧
      (s.ask cfg env c).2.answered = s.answered ++ [⟨m, c, (m.perform cfg c).answer⟩] := by
  refine ⟨_, rfl, ?_⟩
  unfold ask
  rw [h]
  exact ⟨rfl, rfl, rfl⟩

theorem ask_cases (s : Course) (c : Call) :
    ((s.ask cfg env c).1 = c.failed (.backend .injected) ∧
      (s.ask cfg env c).2.memory = s.memory.after cfg (env.meanwhile s.made) ∧
      (s.ask cfg env c).2.answered = s.answered) ∨
    ∃ m, m = s.memory.after cfg (env.meanwhile s.made) ∧
      (s.ask cfg env c).1 = (m.perform cfg c).answer ∧
      (s.ask cfg env c).2.memory = (m.perform cfg c).memory ∧
      (s.ask cfg env c).2.answered = s.answered ++ [⟨m, c, (m.perform cfg c).answer⟩] := by
  cases h : env.fails s.made c with
  | true =>
    left
    unfold ask
    rw [h]
    exact ⟨rfl, rfl, rfl⟩
  | false => exact .inr (ask_reached cfg env h)

end Course

namespace Operation
variable (cfg : MemorySettings) (env : Surroundings) {α β : Type}

/-- The result of an operation amid what others do, and the store with what it was called for. -/
def amid (op : Operation α) (s : Course) : α × Course := Program.run (Course.answer cfg env) op s

section Amid
variable (s : Course)

@[simp] theorem amid_pure (a : α) : amid cfg env (pure a) s = (a, s) := rfl

@[simp] theorem amid_bind (op : Operation α) (next : α → Operation β) :
    amid cfg env (op >>= next) s =
      (next (op.amid cfg env s).1).amid cfg env (op.amid cfg env s).2 :=
  Program.run_bind _ op next s

@[simp] theorem amid_writeToken (kind : LockKind) (keys : List Key) :
    amid (α := Except Fault Token) cfg env (call (.writeToken kind keys)) s =
      s.ask cfg env (.writeToken kind keys) := rfl

@[simp] theorem amid_releaseToken (keys : List Key) (token : Token) :
    amid (α := Unit) cfg env (call (.releaseToken keys token)) s =
      s.ask cfg env (.releaseToken keys token) := rfl

@[simp] theorem amid_clearDependencies (key : Key) (tombstone : Bool) :
    amid (α := Except Fault Unit) cfg env (call (.clearDependencies key tombstone)) s =
      s.ask cfg env (.clearDependencies key tombstone) := rfl

@[simp] theorem amid_note (n : Note) : (note n).amid cfg env s = ((), s) := rfl

@[simp] theorem amid_log (e : Event) : (log e).amid cfg env s = ((), s) := rfl

end Amid

/-- What every call of a kind preserves, an operation preserves that makes no other calls, whatever
goes on around it. -/
theorem Calls.preserves_amid {S : Call → Prop} {op : Operation α} (h : Calls S op)
    {P : Course → Prop} (hask : ∀ c s, S c → P s → P (s.ask cfg env c).2) {s : Course} (hs : P s) :
    P (op.amid cfg env s).2 := by
  induction op generalizing s with
  | done a => exact hs
  | ask q rest ih =>
    cases q with
    | call c => exact ih _ (h.2 _) (hask c s (h.1 c rfl) hs)
    | note n => exact ih _ (h.2 _) hs
    | log e => exact ih _ (h.2 _) hs

end Operation
end CacheCoherence
