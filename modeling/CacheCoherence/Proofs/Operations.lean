import CacheCoherence.Proofs.Memory.Runs
import CacheCoherence.Session

/-!
# Operations on a store in memory

An operation that runs whole against a store in memory is a function of that store: notes and
events go elsewhere, and every call is answered by the store as the calls before left it. This is
what a session does with an operation unless its recorder was told to interfere. What an operation
may call at all, whatever it is answered, is a predicate on its program, from which an invariant of
the single calls carries over to the whole.
-/
namespace CacheCoherence
variable (cfg : MemorySettings) {α β : Type}

theorem Program.run_bind_eq {Q : Type} {R : Q → Type} {σ : Type}
    (answer : (q : Q) → σ → R q × σ) (p : Program Q R α) (f : α → Program Q R β) (s : σ) :
    (p >>= f).run answer s = (f (p.run answer s).1).run answer (p.run answer s).2 :=
  run_bind answer p f s

def Memory.answer : (q : Action) → Memory → q.Answer × Memory
  | .call c, m => ((m.perform cfg c).answer, (m.perform cfg c).memory)
  | .note _, m => ((), m)
  | .log _, m => ((), m)

namespace Operation

/-- The result of an operation on a store and the store that it leaves. -/
def on (op : Operation α) (m : Memory) : α × Memory := Program.run (Memory.answer cfg) op m

section On
variable (m : Memory)

@[simp] theorem on_pure (a : α) : on cfg (pure a) m = (a, m) := rfl

@[simp] theorem on_bind (op : Operation α) (next : α → Operation β) :
    on cfg (op >>= next) m = (next (op.on cfg m).1).on cfg (op.on cfg m).2 :=
  Program.run_bind _ op next m

@[simp] theorem on_getValue (key : Key) (lock : Bool) :
    on (α := Except Fault Lookup) cfg (call (.getValue key lock)) m =
      ((m.getValue cfg key lock).answer, (m.getValue cfg key lock).memory) := rfl

@[simp] theorem on_getValues (keys : List Key) (locks : List Bool) :
    on (α := Except Fault (List Lookup)) cfg (call (.getValues keys locks)) m =
      ((m.getValues cfg keys locks).answer, (m.getValues cfg keys locks).memory) := rfl

@[simp] theorem on_setValue (lockKey : Key) (keys : List Key) (value : String) (token : Token)
    (ttl : Nat) :
    on (α := Except Fault SetResult) cfg (call (.setValue lockKey keys value token ttl)) m =
      ((m.setValue cfg lockKey keys value token ttl).answer,
        (m.setValue cfg lockKey keys value token ttl).memory) := rfl

@[simp] theorem on_deleteValue (keys : List Key) (tombstone force : Bool) :
    on (α := Except Fault Unit) cfg (call (.deleteValue keys tombstone force)) m =
      (.ok (), (m.deleteValue cfg keys tombstone force).memory) := rfl

@[simp] theorem on_writeToken (kind : LockKind) (keys : List Key) :
    on (α := Except Fault Token) cfg (call (.writeToken kind keys)) m =
      ((m.writeToken cfg kind keys).answer, (m.writeToken cfg kind keys).memory) := rfl

@[simp] theorem on_releaseToken (keys : List Key) (token : Token) :
    on (α := Unit) cfg (call (.releaseToken keys token)) m =
      ((), (m.releaseToken keys token).memory) := rfl

@[simp] theorem on_addDependency (lists dependents : List Key) (ttl : Nat) :
    on (α := Except Fault Unit) cfg (call (.addDependency lists dependents ttl)) m =
      ((m.addDependency lists dependents ttl).answer,
        (m.addDependency lists dependents ttl).memory) := rfl

@[simp] theorem on_clearDependencies (key : Key) (tombstone : Bool) :
    on (α := Except Fault Unit) cfg (call (.clearDependencies key tombstone)) m =
      ((m.clearDependencies cfg key tombstone).answer,
        (m.clearDependencies cfg key tombstone).memory) := rfl

@[simp] theorem on_flush (root : String) (tombstones : Bool) :
    on (α := Except Fault Unit) cfg (call (.flush root tombstones)) m =
      (.ok (), (m.flush root tombstones).memory) := rfl

@[simp] theorem on_map (f : α → β) (op : Operation α) :
    on cfg (f <$> op) m = (f (op.on cfg m).1, (op.on cfg m).2) :=
  Program.run_bind _ op _ m

@[simp] theorem on_note (n : Note) : (note n).on cfg m = ((), m) := rfl

@[simp] theorem on_log (e : Event) : (log e).on cfg m = ((), m) := rfl

end On

/-- Every call that an operation may make, whatever it is answered, is of a kind. -/
def Calls (S : Call → Prop) : Operation α → Prop
  | .done _ => True
  | .ask q next => (∀ c, q = .call c → S c) ∧ ∀ answer, Calls S (next answer)

section Calls
variable {S T : Call → Prop}

@[simp] theorem calls_pure (a : α) : Calls S (pure a) := trivial

theorem Calls.bind {op : Operation α} {next : α → Operation β} (h : Calls S op)
    (hnext : ∀ a, Calls S (next a)) : Calls S (op >>= next) := by
  induction op with
  | done a => exact hnext a
  | ask q rest ih => exact ⟨h.1, fun answer => ih answer (h.2 answer)⟩

@[simp] theorem calls_call (c : Call) : Calls S (call c) ↔ S c := by
  constructor
  · intro h
    exact h.1 c rfl
  · intro h
    refine ⟨?_, fun answer => trivial⟩
    rintro c' hc
    cases hc
    exact h

@[simp] theorem calls_note (n : Note) : Calls S (note n) :=
  ⟨fun _ h => (by cases h), fun _ => trivial⟩

@[simp] theorem calls_log (e : Event) : Calls S (log e) :=
  ⟨fun _ h => (by cases h), fun _ => trivial⟩

theorem calls_logged (e : Event) (a : α) : Calls S (do log e; return a) :=
  Calls.bind (calls_log e) fun _ => calls_pure a

theorem calls_reported (n : Note) (e : Event) (a : α) : Calls S (do note n; log e; return a) :=
  Calls.bind (calls_note n) fun _ => calls_logged e a

theorem Calls.mono {op : Operation α} (h : Calls S op) (hST : ∀ c, S c → T c) : Calls T op := by
  induction op with
  | done a => trivial
  | ask q rest ih => exact ⟨fun c hc => hST c (h.1 c hc), fun answer => ih answer (h.2 answer)⟩

theorem Calls.and {op : Operation α} (h : Calls S op) (h' : Calls T op) :
    Calls (fun c => S c ∧ T c) op := by
  induction op with
  | done a => trivial
  | ask q rest ih =>
    exact ⟨fun c hc => ⟨h.1 c hc, h'.1 c hc⟩, fun answer => ih answer (h.2 answer) (h'.2 answer)⟩

/-- What every call of a kind preserves, an operation preserves that makes no other calls. -/
theorem Calls.preserves {op : Operation α} (h : Calls S op) {P : Memory → Prop}
    (hcall : ∀ c m, S c → P m → P (m.perform cfg c).memory) {m : Memory} (hm : P m) :
    P (op.on cfg m).2 := by
  induction op generalizing m with
  | done a => exact hm
  | ask q rest ih =>
    cases q with
    | call c => exact ih _ (h.2 _) (hcall c m (h.1 c rfl) hm)
    | note n => exact ih _ (h.2 _) hm
    | log e => exact ih _ (h.2 _) hm

theorem calls_all (op : Operation α) : Calls (fun _ => True) op := by
  induction op with
  | done a => trivial
  | ask q rest ih => exact ⟨fun _ _ => trivial, fun answer => ih answer⟩

/-- Time stands still during an operation, and numbers of tokens only grow. -/
theorem on_rest (hr : cfg.rules = Rules.standard) (op : Operation α) (m : Memory) :
    (op.on cfg m).2.now = m.now ∧ m.issued ≤ (op.on cfg m).2.issued := by
  refine (calls_all op).preserves cfg
    (P := fun m' => m'.now = m.now ∧ m.issued ≤ m'.issued) ?_ ⟨rfl, Nat.le_refl _⟩
  rintro c m' - ⟨hnow, hissued⟩
  obtain ⟨hnow', hissued'⟩ := Memory.perform_rest cfg m' hr c
  exact ⟨hnow'.trans hnow, Nat.le_trans hissued hissued'⟩

end Calls
end Operation

namespace Session
variable {cfg} {s : Session} {m : Memory}

/-- A session works on a store in memory and lets every call through untouched. -/
structure Plain (cfg : MemorySettings) (m : Memory) (s : Session) : Prop where
  store : s.store = .memory cfg m
  rules : s.recorder.rules = []
  keep : s.recorder.keep = none

theorem Plain.perform (h : s.Plain cfg m) (c : Call) :
    s.perform c = ((m.perform cfg c).answer,
      { s with
        recorder := { s.recorder with calls := s.recorder.calls ++ [c] }
        store := .memory cfg (m.perform cfg c).memory
        journal := s.journal.append
          { events := (m.perform cfg c).events
            notified := (m.perform cfg c).notified } }) := by
  have hrecord : s.recorder.record c =
      (false, { s.recorder with calls := s.recorder.calls ++ [c] }) := by
    simp [Recorder.record, h.rules]
  have hcut : Recorder.cut none c (m.perform cfg c).answer = (m.perform cfg c).answer := by
    cases c <;> rfl
  simp [Session.perform, hrecord, h.store, h.keep, Store.perform, hcut]

theorem Plain.answer (h : s.Plain cfg m) (ctx : Context) (q : Action) :
    (Session.answer ctx q s).1 = (m.answer cfg q).1 ∧
      (Session.answer ctx q s).2.Plain cfg (m.answer cfg q).2 := by
  cases q with
  | note n => exact ⟨rfl, h.store, h.rules, h.keep⟩
  | log e => exact ⟨rfl, h.store, h.rules, h.keep⟩
  | call c =>
    change (s.perform c).1 = (m.perform cfg c).answer ∧
      (s.perform c).2.Plain cfg (m.perform cfg c).memory
    rw [h.perform c]
    exact ⟨rfl, rfl, h.rules, h.keep⟩

theorem Plain.run (h : s.Plain cfg m) (ctx : String) (op : Operation α) :
    (s.run ctx op).1 = (op.on cfg m).1 ∧ (s.run ctx op).2.Plain cfg (op.on cfg m).2 := by
  unfold Session.run Operation.on
  generalize s.context ctx = context
  induction op generalizing s m with
  | done a => exact ⟨rfl, h⟩
  | ask q next ih =>
    obtain ⟨hanswer, hplain⟩ := h.answer context q
    have hnext := ih (m.answer cfg q).1 hplain
    rw [← hanswer] at hnext
    simpa only [Program.run, hanswer] using hnext

end Session
end CacheCoherence
