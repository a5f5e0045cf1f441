import CacheCoherence.Proofs.Memory.Invalidation
import CacheCoherence.Proofs.Memory.Locks

/-!
# Runs of a store in memory

A store is used by any number of clients, whose calls run whole one after another, while time goes
by between two calls. A run is the list of what happened; who called is not part of it, since the
store does not know. No call moves the clock, and numbers of tokens only ever grow.
-/
namespace CacheCoherence
namespace Memory
variable (cfg : MemorySettings)

inductive Step where
  | call (c : Call)
  | elapse (duration : Nat)
deriving DecidableEq, Repr

def step (m : Memory) : Step → Memory
  | .call c => (m.perform cfg c).memory
  | .elapse duration => m.advance duration

def after (m : Memory) (steps : List Step) : Memory := steps.foldl (step cfg) m

@[simp] theorem after_nil (m : Memory) : m.after cfg [] = m := rfl

@[simp] theorem after_cons (m : Memory) (e : Step) (steps : List Step) :
    m.after cfg (e :: steps) = (m.step cfg e).after cfg steps := rfl

@[simp] theorem after_append (m : Memory) (first second : List Step) :
    m.after cfg (first ++ second) = (m.after cfg first).after cfg second :=
  List.foldl_append

/-- Time going by takes slots away and never changes one. -/
theorem live?_of_live?_advance {m : Memory} {elapsed : Nat} {k : Key} {s : Slot}
    (h : (m.advance elapsed).live? k = some s) : m.live? k = some s := by
  have hlive : s.isLive (m.now + elapsed) = true := isLive_of_live? h
  have hnow : s.isLive m.now = true := Slot.isLive_of_le (Nat.le_add_right _ _) hlive
  unfold live? Slots.live? at h ⊢
  change Option.filter _ (m.slots.get? k) = some s at h
  cases hg : m.slots.get? k with
  | none => simp [hg] at h
  | some s' =>
    have hs : s' = s := by
      rw [hg] at h
      simp only [Option.filter] at h
      split at h
      · exact Option.some.inj h
      · cases h
    subst hs
    simp [Option.filter, hnow]

section Rest
variable (m : Memory)

theorem lookups_cons (key : Key) (lock : Bool) (rest : List (Key × Bool)) :
    lookups cfg ((key, lock) :: rest) m =
      ((m.lookup cfg key lock).1 :: (lookups cfg rest (m.lookup cfg key lock).2).1,
        (lookups cfg rest (m.lookup cfg key lock).2).2) := rfl

theorem lookups_rest (reads : List (Key × Bool)) :
    (lookups cfg reads m).2.now = m.now ∧ m.issued ≤ (lookups cfg reads m).2.issued := by
  induction reads generalizing m with
  | nil => exact ⟨rfl, Nat.le_refl _⟩
  | cons read rest ih =>
    obtain ⟨key, lock⟩ := read
    obtain ⟨hnow, hissued⟩ := ih (m.lookup cfg key lock).2
    have hfirst := issued_lookup cfg m key lock
    rw [lookups_cons]
    refine ⟨hnow.trans (now_lookup cfg m key lock), Nat.le_trans ?_ hissued⟩
    rw [hfirst]
    split <;> omega

theorem handlers_lookups (reads : List (Key × Bool)) :
    (lookups cfg reads m).2.handlers = m.handlers := by
  induction reads generalizing m with
  | nil => rfl
  | cons read rest ih => exact (ih _).trans (handlers_lookup cfg m read.1 read.2)

theorem getValues_memory (keys : List Key) (locks : List Bool) :
    (m.getValues cfg keys locks).memory =
      if keys.length = locks.length then (lookups cfg (keys.zip locks) m).2 else m := by
  unfold getValues
  split <;> rfl

theorem writeToken_rest (hr : cfg.rules = Rules.standard) (kind : LockKind) (keys : List Key) :
    (m.writeToken cfg kind keys).memory.now = m.now ∧
      m.issued ≤ (m.writeToken cfg kind keys).memory.issued := by
  by_cases h : m.Grants kind keys
  · rw [writeToken_granted cfg m hr h]
    exact ⟨rfl, Nat.le_succ _⟩
  · obtain ⟨-, hnow, hissued, -⟩ := writeToken_refused cfg m hr h
    exact ⟨hnow, hissued⟩

theorem perform_rest (hr : cfg.rules = Rules.standard) (c : Call) :
    (m.perform cfg c).memory.now = m.now ∧ m.issued ≤ (m.perform cfg c).memory.issued := by
  cases c with
  | getValue key lock =>
    have hissued := issued_lookup cfg m key lock
    refine ⟨now_lookup cfg m key lock, ?_⟩
    change m.issued ≤ (m.lookup cfg key lock).2.issued
    rw [hissued]
    split <;> omega
  | getValues keys locks =>
    change (m.getValues cfg keys locks).memory.now = m.now ∧
      m.issued ≤ (m.getValues cfg keys locks).memory.issued
    rw [getValues_memory]
    split
    · exact lookups_rest cfg m _
    · exact ⟨rfl, Nat.le_refl _⟩
  | setValue lockKey keys value token ttl =>
    obtain ⟨hnow, hissued⟩ := setValue_rest cfg m lockKey keys value token ttl hr
    exact ⟨hnow, Nat.le_of_eq hissued.symm⟩
  | writeToken kind keys => exact writeToken_rest cfg m hr kind keys
  | releaseToken keys token =>
    obtain ⟨hnow, hissued⟩ := releaseToken_rest m keys token
    exact ⟨hnow, Nat.le_of_eq hissued.symm⟩
  | addDependency lists dependents ttl =>
    obtain ⟨hnow, hissued⟩ := addDependency_rest m lists dependents ttl
    exact ⟨hnow, Nat.le_of_eq hissued.symm⟩
  | deleteValue keys tombstone force => exact ⟨rfl, Nat.le_refl _⟩
  | clearDependencies key tombstone => exact ⟨rfl, Nat.le_refl _⟩
  | flush root tombstones => exact ⟨rfl, Nat.le_refl _⟩
  | registerHandler key handler => exact ⟨rfl, Nat.le_refl _⟩

theorem issued_step (hr : cfg.rules = Rules.standard) (e : Step) :
    m.issued ≤ (m.step cfg e).issued := by
  cases e with
  | call c => exact (perform_rest cfg m hr c).2
  | elapse duration => exact Nat.le_refl _

theorem issued_after (hr : cfg.rules = Rules.standard) (steps : List Step) :
    m.issued ≤ (m.after cfg steps).issued := by
  induction steps generalizing m with
  | nil => exact Nat.le_refl _
  | cons e rest ih => exact Nat.le_trans (issued_step cfg m hr e) (ih (m.step cfg e))

end Rest

end Memory
end CacheCoherence
