import CacheCoherence.Cache.Delete
import CacheCoherence.Proofs.Catalogue
import CacheCoherence.Proofs.SessionRuns
import CacheCoherence.Proofs.SlotEffects

/-!
# Flushing a namespace

Every key of a namespace starts with its root and a colon, but a flush goes by the root alone. So it
reaches beyond its own namespace, into every other one whose root begins as its own does. No other
key is touched.
-/
namespace CacheCoherence
open Operation

/-- Where a separator stands that a text does not have, the text ends before it or does not start
there at all. -/
theorem prefix_append_cons_iff {α : Type} {a : α} {start before : List α} (h : a ∉ start)
    (rest : List α) : start <+: before ++ a :: rest ↔ start <+: before := by
  constructor
  · intro hstart
    by_cases hlength : start.length ≤ before.length
    · exact List.prefix_of_prefix_length_le hstart (List.prefix_append _ _) hlength
    · -- A longer text would have the separator.
      have hbefore : before ++ [a] <+: start := by
        refine List.prefix_of_prefix_length_le ⟨rest, ?_⟩ hstart ?_
        · rw [List.append_assoc, List.singleton_append]
        · rw [List.length_append, List.length_singleton]
          omega
      exact absurd (hbefore.subset (List.mem_append_right _ List.mem_cons_self)) h
  · intro hstart
    exact hstart.trans (List.prefix_append _ _)

theorem KeyNames.isUnder_key_iff {root : String} (h : ':' ∉ root.toList) (names : KeyNames)
    (id : String) (components : List String) :
    isUnder root (names.key id components) = true ↔ root.toList <+: names.root.toList := by
  rw [isUnder, List.isPrefixOf_iff_prefix, KeyNames.key, String.toList_ofList]
  exact prefix_append_cons_iff h _

namespace Session
variable (s : Session) (ctx : String) (tombstones : Bool)

theorem run_flushNamespace
    (hpassed : s.recorder.rules.any (·.selects (.flush s.policy.names.root tombstones)) = false) :
    let flushed := s.store.perform (.flush s.policy.names.root tombstones)
    let ran := s.run ctx (flushNamespace s.policy tombstones)
    (flushed.1 = .ok () → ran.1 = .ok ()) ∧ ran.2.store = flushed.2.1 := by
  intro flushed ran
  -- The session whose log says that the flush begins makes the call.
  let logged : Session := { s with journal := { s.journal with
    events := s.journal.events ++ [.flush s.policy.names.root] } }
  rcases logged.perform_cases (.flush s.policy.names.root tombstones) with ⟨hfails, -⟩ | ⟨-, heq⟩
  · exact absurd (hpassed.symm.trans hfails) Bool.false_ne_true
  have hran : ran = (match (logged.perform (.flush s.policy.names.root tombstones)).1 with
      | .ok _ => .ok ()
      | .error fault => .error (.store fault),
      (logged.perform (.flush s.policy.names.root tombstones)).2) := by
    change (flushNamespace s.policy tombstones).through (s.context ctx) s = _
    unfold flushNamespace
    rw [through_bind, through_log, through_bind, through_call]
    cases (logged.perform (.flush s.policy.names.root tombstones)).1 <;> rfl
  rw [hran, heq]
  refine ⟨fun hok => ?_, rfl⟩
  have hcut : Recorder.cut logged.recorder.keep (.flush s.policy.names.root tombstones)
      (logged.store.perform (.flush s.policy.names.root tombstones)).1 = .ok () := hok
  simp only [hcut]

/-- **Reach of a flush.** Let the root of a namespace have no colon. A flush of this namespace
empties the slots of its keys, those with a tombstone only if asked. To the slots of any other
namespace it does the same if the other root begins with this one, and else it leaves them as they
are. -/
theorem flush_takes_roots_that_begin_alike (hroot : ':' ∉ s.policy.names.root.toList)
    (halone : s.store.Alone)
    (hpassed : s.recorder.rules.any (·.selects (.flush s.policy.names.root tombstones)) = false) :
    let ran := s.run ctx (flushNamespace s.policy tombstones)
    ran.1 = .ok () ∧ ∀ (names : KeyNames) id components,
      let key := names.key id components
      ran.2.store.live? (s.store.slotName key) =
        if s.policy.names.root.toList <+: names.root.toList ∧
            (tombstones = true ∨ s.store.held key ≠ some Token.tombstone) then none
        else s.store.live? (s.store.slotName key) := by
  intro ran
  obtain ⟨hok, hlive⟩ := halone.flushed s.policy.names.root tombstones
  obtain ⟨hanswer, hstore⟩ := s.run_flushNamespace ctx tombstones hpassed
  refine ⟨hanswer hok, fun names id components => ?_⟩
  intro key
  rw [hstore, hlive]
  simp only [key, KeyNames.isUnder_key_iff hroot]

/-- A store that the namespaces `test`, `test2` and `other` share. -/
def sharedStore : Memory where
  slots := ((Slots.put .empty 0 "test:PLAIN:1" Token.tombstone 60).put 0
    "test2:PLAIN:1" "v" 60).put 0 "other:PLAIN:1" "v" 60

/-- A flush of the namespace `test` spares its tombstone, and takes the value of `test2`. -/
theorem flush_of_test_takes_test2 :
    let s : Session := { policy := Catalogue.lasting, store := .memory {} sharedStore }
    let found (names : KeyNames) (s' : Session) :=
      (s'.store.live? (s.store.slotName (names.key "PLAIN" ["1"]))).map (·.text)
    let flushed := (s.run "" (flushNamespace s.policy false)).2
    s.policy.names.root = "test" ∧ found (.ofRoot "test2") s = some "v" ∧
      found (.ofRoot "test2") flushed = none ∧
      found (.ofRoot "test") flushed = some Token.tombstone ∧
      found (.ofRoot "other") flushed = some "v" := by
  intro s found flushed
  obtain ⟨-, hlive⟩ := s.flush_takes_roots_that_begin_alike "" false (by decide) trivial (by decide)
  refine ⟨rfl, by decide +kernel, ?_, ?_, ?_⟩ <;>
    simp only [found, flushed, hlive] <;> decide +kernel

end Session
end CacheCoherence
