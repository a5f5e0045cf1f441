import CacheCoherence.Proofs.Operations
import CacheCoherence.Proofs.ReadLocks

/-!
# Operations of a session

A session calls its store through a recorder, which may fail calls and cut the answers to batches
short. What the store preserves, a session preserves, and what a reading tells of its locks holds of
its lookups as the recorder passes them on, as far as the answer is whole. Metrics decide nothing.
-/
namespace CacheCoherence
open Operation

/-- The lookups that a call for slots is answered with; a fault brings none. -/
def Call.lookups : (c : Call) → c.Answer → List Lookup
  | .getValue .., .ok found => [found]
  | .getValues .., .ok found => found
  | _, _ => []

/-- What a cut takes off behind the last key says nothing of the keys. -/
theorem Lookup.locks_take {keys : List Key} {found : List Lookup} {n : Nat}
    (h : (found.take n).length = keys.length) : locks keys (found.take n) = locks keys found := by
  rw [locks, locks, List.map_take]
  have hlength : keys.length = ((found.map (·.token)).take n).length := by
    rw [← List.map_take, List.length_map, h]
  generalize found.map (·.token) = tokens at hlength
  have hsplit : (keys ++ []).zip (tokens.take n ++ tokens.drop n) = _ := List.zip_append hlength
  rwa [List.append_nil, List.take_append_drop, List.zip_nil_left, List.append_nil,
    eq_comm] at hsplit

namespace Session
variable {s : Session} {key : Key} {text : String}

section Perform
variable (s) (c : Call)

theorem perform_cases :
    (s.recorder.rules.any (·.selects c) = true ∧
      s.perform c = (c.failed (.backend .injected),
        { s with recorder := (s.recorder.record c).2 })) ∨
    (s.recorder.rules.any (·.selects c) = false ∧
      s.perform c = (Recorder.cut s.recorder.keep c (s.store.perform c).1,
        { s with
          recorder := (s.recorder.record c).2
          store := (s.store.perform c).2.1
          journal := s.journal.append (s.store.perform c).2.2 })) := by
  cases h : s.recorder.rules.any (·.selects c) with
  | true =>
    refine .inl ⟨rfl, ?_⟩
    simp [perform, Recorder.record, h]
  | false =>
    refine .inr ⟨rfl, ?_⟩
    simp [perform, Recorder.record, h]

theorem recorder_perform :
    (s.perform c).2.recorder = { s.recorder with calls := s.recorder.calls ++ [c] } := by
  rcases s.perform_cases c with ⟨-, heq⟩ | ⟨-, heq⟩ <;> rw [heq] <;> rfl

theorem store_perform {P : Store → Prop} (h : P s.store) (hc : P (s.store.perform c).2.1) :
    P (s.perform c).2.store := by
  rcases s.perform_cases c with ⟨-, heq⟩ | ⟨-, heq⟩ <;> rw [heq]
  · exact h
  · exact hc

theorem events_perform : s.journal.events <+: (s.perform c).2.journal.events := by
  rcases s.perform_cases c with ⟨-, heq⟩ | ⟨-, heq⟩ <;> simp only [heq]
  · exact List.prefix_rfl
  · exact List.prefix_append _ _

/-- What a call comes to does not depend on the metrics, which it leaves alone. -/
theorem perform_metrics (metrics : MetricsCells) :
    perform { s with metrics } c = ((s.perform c).1, { (s.perform c).2 with metrics }) := by
  unfold perform
  dsimp only
  split <;> rfl

end Perform

section Readings
variable {k : Key} {lock : Bool} {keys : List Key} {locks : List Bool}

theorem fits_getValue {found : Lookup} (h : (s.perform (.getValue k lock)).1 = .ok found) :
    found.Fits lock := by
  rcases s.perform_cases (.getValue k lock) with ⟨-, heq⟩ | ⟨-, heq⟩
  · rw [heq] at h
    cases h
  · rw [heq] at h
    exact Store.fits_getValue h

/-- What a batch is answered with, if it is answered at all, is what the store found, up to where
the recorder cuts it. -/
theorem getValues_cut {found : List Lookup}
    (h : (s.perform (.getValues keys locks)).1 = .ok found) :
    ∃ all, (s.store.perform (.getValues keys locks)).1 = .ok all ∧
      found = all.take (s.recorder.keep.getD all.length) ∧
      (s.perform (.getValues keys locks)).2.store =
        (s.store.perform (.getValues keys locks)).2.1 := by
  rcases s.perform_cases (.getValues keys locks) with ⟨-, heq⟩ | ⟨-, heq⟩
  · rw [heq] at h
    cases h
  rw [heq] at h ⊢
  -- A cut takes from an answer and leaves a fault alone.
  cases hall : (s.store.perform (.getValues keys locks)).1 with
  | error fault =>
    rw [hall] at h
    cases hkeep : s.recorder.keep <;> rw [hkeep] at h <;> cases h
  | ok all =>
    rw [hall] at h
    cases hkeep : s.recorder.keep with
    | none =>
      rw [hkeep] at h
      cases h
      exact ⟨_, rfl, List.take_length.symm, rfl⟩
    | some n =>
      rw [hkeep] at h
      cases h
      exact ⟨_, rfl, rfl, rfl⟩

theorem getValues_ok {found : List Lookup} (h : (s.perform (.getValues keys locks)).1 = .ok found) :
    ∃ all n, (s.store.perform (.getValues keys locks)).1 = .ok all ∧ found = all.take n ∧
      (s.perform (.getValues keys locks)).2.store =
        (s.store.perform (.getValues keys locks)).2.1 :=
  let ⟨all, hall, hfound, hstore⟩ := getValues_cut h
  ⟨all, _, hall, hfound, hstore⟩

theorem fits_getValues {found : List Lookup}
    (h : (s.perform (.getValues keys locks)).1 = .ok found) :
    ∃ n, List.Forall₂ (fun lock lookup => lookup.Fits lock) (locks.take n) found := by
  obtain ⟨all, n, hall, rfl, -⟩ := getValues_ok h
  exact ⟨n, List.forall₂_take n (Store.fits_getValues hall)⟩

theorem getValue_took (h : s.store.Lacks key text) :
    (s.perform (.getValue k lock)).2.store.Lacks key text ∨
      (key, text) ∈
        Lookup.locks [k] (Call.lookups (.getValue k lock) (s.perform (.getValue k lock)).1) := by
  rcases s.perform_cases (.getValue k lock) with ⟨-, heq⟩ | ⟨-, heq⟩
  · rw [heq]
    exact .inl h
  · rw [heq]
    refine (Store.getValue_took h).imp_right ?_
    rintro ⟨found, hok, rfl, rfl⟩
    change _ ∈ Lookup.locks [k] (Call.lookups (.getValue k lock)
      (s.store.perform (.getValue k lock)).1)
    rw [hok]
    exact List.mem_cons_self

/-- An answer with a lookup for every slot tells of every lock that was taken. -/
theorem getValues_took (h : s.store.Lacks key text)
    (hfull : (Call.lookups (.getValues keys locks)
      (s.perform (.getValues keys locks)).1).length = keys.length) :
    (s.perform (.getValues keys locks)).2.store.Lacks key text ∨
      (key, text) ∈ Lookup.locks keys
        (Call.lookups (.getValues keys locks) (s.perform (.getValues keys locks)).1) := by
  cases hanswer : (s.perform (.getValues keys locks)).1 with
  | error fault =>
    rw [hanswer] at hfull
    obtain rfl : keys = [] := List.length_eq_zero_iff.1 hfull.symm
    exact .inl (s.store_perform _ h (Store.getValues_nil h))
  | ok found =>
    rw [hanswer] at hfull
    obtain ⟨all, n, hall, rfl, hstore⟩ := getValues_ok hanswer
    rw [hstore]
    refine (Store.getValues_took h hall).imp_right fun hmem => ?_
    exact (Lookup.locks_take hfull).symm ▸ hmem

end Readings

variable {keys : List Key}

/-- A release that passes and is not logged as failed leaves its token in none of its slots. -/
theorem released (hkey : key ∈ keys) (htext : text ≠ Token.noLock)
    (hspared : s.store.Spared key text)
    (hpassed : s.recorder.rules.any (·.selects (.releaseToken keys text)) = false)
    (hunlogged : ∀ more, (s.perform (.releaseToken keys text)).2.journal.events =
      s.journal.events ++ more → .releaseFailed keys ∉ more) :
    (s.perform (.releaseToken keys text)).2.store.Lacks key text := by
  rcases s.perform_cases (.releaseToken keys text) with ⟨hfails, -⟩ | ⟨-, heq⟩
  · rw [hpassed] at hfails
    cases hfails
  · rw [heq] at hunlogged ⊢
    exact Store.releaseToken_released hkey htext hspared (hunlogged _ rfl)

/-- Between two states of a session no release failed: the recorder let every one of them pass, and
none was logged as failed. -/
structure ReleasesDone (s s' : Session) : Prop where
  passed : ∀ keys token, .releaseToken keys token ∈ s'.recorder.calls.drop s.recorder.calls.length →
    s.recorder.rules.any (·.selects (.releaseToken keys token)) = false
  unlogged : ∀ keys, .releaseFailed keys ∉ s'.journal.events.drop s.journal.events.length

end Session

namespace Operation
variable {α β : Type} (ctx : Context)

/-- The result of an operation that a session runs in a context, and the session after it. -/
def through (op : Operation α) (s : Session) : α × Session :=
  Program.run (Session.answer ctx) op s

section Through
variable (s : Session)

theorem through_ask (q : Action) (next : q.Answer → Operation α) :
    through ctx (.ask q next) s =
      (next (Session.answer ctx q s).1).through ctx (Session.answer ctx q s).2 := rfl

@[simp] theorem through_pure (a : α) : through ctx (pure a) s = (a, s) := rfl

@[simp] theorem through_bind (op : Operation α) (next : α → Operation β) :
    through ctx (op >>= next) s = (next (op.through ctx s).1).through ctx (op.through ctx s).2 :=
  Program.run_bind_eq _ op next s

@[simp] theorem through_note (n : Note) :
    (note n).through ctx s = ((), { s with metrics := s.metrics.record ctx 0 n }) := rfl

@[simp] theorem through_log (e : Event) :
    (log e).through ctx s =
      ((), { s with journal := { s.journal with events := s.journal.events ++ [e] } }) := rfl

theorem through_call (c : Call) : (call c).through ctx s = s.perform c := rfl

theorem through_noted (c : Call) (next : c.Answer → Operation β) :
    (do note .call; let answer ← call c; note .read; next answer : Operation β).through ctx s =
      (next (s.perform c).1).through ctx { (s.perform c).2 with
        metrics := (s.metrics.record ctx 0 .call).record ctx 0 .read } := by
  simp only [through_bind, through_note]
  rw [through_call, Session.perform_metrics]

theorem through_asking (c : Call) (next : c.Answer → Operation β) :
    ∃ s' : Session, s'.store = (s.perform c).2.store ∧ s'.recorder = (s.perform c).2.recorder ∧
      s'.journal = (s.perform c).2.journal ∧
      (do note .call; let answer ← call c; note .read; next answer : Operation β).through ctx s =
        (next (s.perform c).1).through ctx s' :=
  ⟨{ (s.perform c).2 with metrics := (s.metrics.record ctx 0 .call).record ctx 0 .read },
    rfl, rfl, rfl, through_noted ctx s c next⟩

end Through

/-- What every call of a kind preserves in the store, an operation preserves that makes no other
calls. -/
theorem Calls.preserves_through {S : Call → Prop} {op : Operation α} (h : Calls S op)
    {P : Store → Prop} (hcall : ∀ c store, S c → P store → P (store.perform c).2.1) {s : Session}
    (hs : P s.store) : P (op.through ctx s).2.store := by
  induction op generalizing s with
  | done a => exact hs
  | ask q next ih =>
    refine ih _ (h.2 _) ?_
    cases q with
    | call c => exact s.store_perform c hs (hcall c s.store (h.1 c rfl) hs)
    | note n => exact hs
    | log e => exact hs

end Operation

end CacheCoherence
