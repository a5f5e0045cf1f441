import CacheCoherence.Proofs.DependencyLists
import CacheCoherence.Proofs.Memory.Runs

/-!
# What invalidation handlers are told

Two calls invalidate keys, the deletion of values and the clearing of a dependency list, and they
report every invalidation to the handlers of its key. A deletion reports one key at a time, so a key
that it passes over is not reported, and a repeated key is reported again unless the first time left
a tombstone. No other call reports anything, and no slot changes through one of the two without a
report, so whoever listens for a key never keeps a copy that was invalidated.
-/
namespace CacheCoherence

def Call.Invalidates : Call → Prop
  | .deleteValue .. | .clearDependencies .. => True
  | _ => False

def Call.registers : Call → List (Key × String)
  | .registerHandler key handler => [(key, handler)]
  | _ => []

namespace Memory
variable (cfg : MemorySettings) (m : Memory)

section Deletion
variable (tombstone force : Bool) (earlier keys : List Key) (k : Key)

/-- Whether a deletion invalidates a key after it has dealt with earlier ones: if it is forced, or
if the slot held no token before and none of the earlier keys left a tombstone there. -/
def invalidatesAfter : Bool :=
  force || !((m.content k).any isToken || (tombstone && earlier.contains k))

/-- The keys that a deletion invalidates, as often as it does. -/
def deleted : List Key :=
  (keys.zipIdx.filter fun e => m.invalidatesAfter tombstone force (keys.take e.2) e.1).map (·.1)

theorem invalidateUnlocked_cons (now : Nat) (rest : List Key) (s : Slots) :
    invalidateUnlocked cfg now tombstone force (k :: rest) s =
      if spared now force s k then invalidateUnlocked cfg now tombstone force rest s
      else
        ((invalidateUnlocked cfg now tombstone force rest (invalidate cfg now tombstone s k)).1,
          k :: (invalidateUnlocked cfg now tombstone force rest
            (invalidate cfg now tombstone s k)).2) := rfl

theorem invalidateUnlocked_append (now : Nat) (rest : List Key) (s : Slots) :
    (invalidateUnlocked cfg now tombstone force (earlier ++ rest) s).1 =
      (invalidateUnlocked cfg now tombstone force rest
        (invalidateUnlocked cfg now tombstone force earlier s).1).1 := by
  induction earlier generalizing s with
  | nil => rfl
  | cons key earlier ih =>
    rw [List.cons_append, invalidateUnlocked_cons, invalidateUnlocked_cons]
    split
    · exact ih s
    · exact ih (invalidate cfg now tombstone s key)

/-- Midway through a deletion that is not forced, a slot holds a token if it held one before or if a
tombstone was left there since. -/
theorem isToken_midway :
    ((m.deleteValue cfg earlier tombstone false).memory.content k).any isToken =
      ((m.content k).any isToken || (tombstone && earlier.contains k)) := by
  have hlive := live?_deleteValue cfg m earlier tombstone false k
  by_cases hgone : k ∈ earlier ∧ spared m.now false m.slots k = false
  · obtain ⟨hmem, hfree⟩ := hgone
    rw [if_pos ⟨hmem, hfree⟩] at hlive
    have hcontent : (m.deleteValue cfg earlier tombstone false).memory.content k =
        if tombstone then some Token.tombstone else none := live?_leftover cfg hlive
    have hheld : (m.content k).any isToken = false := hfree
    rw [hcontent, hheld]
    cases tombstone with
    | true => simp [hmem, Content.isToken_tombstone]
    | false => rfl
  · rw [if_neg hgone] at hlive
    rw [content_of_live? hlive]
    by_cases hmem : k ∈ earlier
    · have hheld : (m.content k).any isToken = true := by
        cases hfree : (m.content k).any isToken with
        | true => rfl
        | false => exact absurd ⟨hmem, hfree⟩ hgone
      rw [hheld, Bool.true_or]
    · simp [hmem]

/-- A key is passed over exactly if its slot holds a token when its turn comes. -/
theorem spared_midway :
    spared m.now force (m.deleteValue cfg earlier tombstone force).memory.slots k =
      !m.invalidatesAfter tombstone force earlier k := by
  cases force with
  | true => rfl
  | false =>
    have htoken := m.isToken_midway cfg tombstone earlier k
    rw [invalidatesAfter, Bool.false_or, Bool.not_not]
    exact htoken

theorem deleted_midway (rest : List Key) :
    (invalidateUnlocked cfg m.now tombstone force rest
        (m.deleteValue cfg earlier tombstone force).memory.slots).2 =
      ((rest.zipIdx earlier.length).filter fun e =>
        m.invalidatesAfter tombstone force ((earlier ++ rest).take e.2) e.1).map (·.1) := by
  induction rest generalizing earlier with
  | nil => rfl
  | cons key rest ih =>
    have hnext := ih (earlier ++ [key])
    have hslots : (m.deleteValue cfg (earlier ++ [key]) tombstone force).memory.slots =
        (invalidateUnlocked cfg m.now tombstone force [key]
          (m.deleteValue cfg earlier tombstone force).memory.slots).1 :=
      invalidateUnlocked_append cfg tombstone force earlier m.now [key] m.slots
    rw [hslots, List.append_assoc, List.singleton_append, List.length_append,
      List.length_singleton, invalidateUnlocked_cons, spared_midway] at hnext
    rw [invalidateUnlocked_cons, spared_midway, List.zipIdx_cons, List.filter_cons,
      List.take_left]
    cases hkey : m.invalidatesAfter tombstone force earlier key with
    | false =>
      rw [hkey] at hnext
      exact hnext
    | true =>
      rw [hkey] at hnext
      exact congrArg (key :: ·) hnext

theorem notified_deleteValue :
    (m.deleteValue cfg keys tombstone force).notified =
      m.handlersOf (m.deleted tombstone force keys) := by
  have hdeleted := m.deleted_midway cfg tombstone force [] keys
  exact congrArg m.handlersOf hdeleted

/-- A key that is invalidated at all is invalidated where it comes first. -/
theorem mem_deleted (hmem : k ∈ keys) (hfree : spared m.now force m.slots k = false) :
    k ∈ m.deleted tombstone force keys := by
  obtain ⟨earlier, later, rfl, hfirst⟩ := List.eq_append_cons_of_mem hmem
  apply List.mem_map.2
  refine ⟨(k, earlier.length), ?_, rfl⟩
  apply List.mem_filter.2
  constructor
  · rw [List.mem_zipIdx_iff_getElem?]
    simp
  · rw [List.take_left]
    cases force with
    | true => rfl
    | false =>
      have hheld : (m.content k).any isToken = false := hfree
      simp [invalidatesAfter, hheld, hfirst]

end Deletion

section Report

/-- The keys that a call reports as invalidated, in the order of the reports. -/
def reported : Call → List Key
  | .deleteValue keys tombstone force => m.deleted tombstone force keys
  | .clearDependencies key _ => (DependencyList.members (m.content key)).keys ++ [key]
  | _ => []

theorem cleared_eq (key : Key) :
    m.cleared key = (DependencyList.members (m.content key)).keys ++ [key] := by
  unfold cleared decoded listText DependencyList.members
  cases m.content key with
  | none => rfl
  | some raw =>
    cases htoken : isToken raw with
    | true => simp [Option.filter, htoken]
    | false =>
      simp only [Option.filter, htoken, Bool.not_false, if_true, Option.bind_some,
        DependencyList.decode_eq]
      cases DependencyList.spelled? raw <;> rfl

theorem perform_of_not_invalidates {c : Call} (hc : ¬ c.Invalidates) :
    (m.perform cfg c).notified = [] ∧
      (m.perform cfg c).memory.handlers = m.handlers ++ c.registers := by
  cases c with
  | deleteValue keys tombstone force => exact absurd trivial hc
  | clearDependencies key tombstone => exact absurd trivial hc
  | registerHandler key handler => exact ⟨rfl, rfl⟩
  | flush root tombstones => exact ⟨rfl, (List.append_nil _).symm⟩
  | getValue key lock =>
    exact ⟨rfl, (handlers_lookup cfg m key lock).trans (List.append_nil _).symm⟩
  | getValues keys locks =>
    change (m.getValues cfg keys locks).notified = [] ∧
      (m.getValues cfg keys locks).memory.handlers = m.handlers ++ []
    rw [getValues_memory, List.append_nil]
    unfold getValues
    split
    · exact ⟨rfl, handlers_lookups cfg m _⟩
    · exact ⟨rfl, rfl⟩
  | setValue lockKey keys value token ttl =>
    change (m.setValue cfg lockKey keys value token ttl).notified = [] ∧
      (m.setValue cfg lockKey keys value token ttl).memory.handlers = m.handlers ++ []
    rw [List.append_nil]
    unfold setValue
    split
    · exact ⟨rfl, rfl⟩
    · refine ⟨rfl, ?_⟩
      simp only
      split
      · rfl
      · split <;> rfl
  | writeToken kind keys =>
    change (m.writeToken cfg kind keys).notified = [] ∧
      (m.writeToken cfg kind keys).memory.handlers = m.handlers ++ []
    rw [List.append_nil]
    unfold writeToken
    split
    · exact ⟨rfl, rfl⟩
    · simp only
      split <;> exact ⟨rfl, rfl⟩
  | releaseToken keys token =>
    change (m.releaseToken keys token).notified = [] ∧
      (m.releaseToken keys token).memory.handlers = m.handlers ++ []
    rw [List.append_nil]
    unfold releaseToken
    split <;> exact ⟨rfl, rfl⟩
  | addDependency lists dependents ttl =>
    change (m.addDependency lists dependents ttl).notified = [] ∧
      (m.addDependency lists dependents ttl).memory.handlers = m.handlers ++ []
    rw [List.append_nil]
    unfold addDependency
    split
    · exact ⟨rfl, rfl⟩
    · split <;> exact ⟨rfl, rfl⟩

theorem notified_perform (c : Call) :
    (m.perform cfg c).notified = m.handlersOf (m.reported c) := by
  cases c with
  | deleteValue keys tombstone force => exact m.notified_deleteValue cfg tombstone force keys
  | clearDependencies key tombstone => exact congrArg m.handlersOf (m.cleared_eq key)
  | _ => exact (perform_of_not_invalidates cfg m id).1

theorem handlers_perform (c : Call) :
    (m.perform cfg c).memory.handlers = m.handlers ++ c.registers := by
  cases c with
  | deleteValue keys tombstone force => exact (List.append_nil _).symm
  | clearDependencies key tombstone => exact (List.append_nil _).symm
  | _ => exact (perform_of_not_invalidates cfg m id).2

theorem mem_reported_of_changed {c : Call} (hc : c.Invalidates) {k : Key}
    (hchanged : (m.perform cfg c).memory.content k ≠ m.content k) : k ∈ m.reported c := by
  cases c with
  | deleteValue keys tombstone force =>
    by_cases hgone : k ∈ keys ∧ spared m.now force m.slots k = false
    · exact m.mem_deleted tombstone force keys k hgone.1 hgone.2
    · have hlive := live?_deleteValue cfg m keys tombstone force k
      rw [if_neg hgone] at hlive
      exact absurd (content_of_live? hlive) hchanged
  | clearDependencies key tombstone =>
    change k ∈ (DependencyList.members (m.content key)).keys ++ [key]
    rw [← cleared_eq]
    by_cases hgone : k ∈ m.cleared key
    · exact hgone
    · have hlive := live?_clearDependencies cfg m key tombstone k
      rw [if_neg hgone] at hlive
      exact absurd (content_of_live? hlive) hchanged
  | _ => exact hc.elim

end Report

section Registration

def registrations (steps : List Step) : List (Key × String) :=
  steps.flatMap fun
    | .call c => c.registers
    | .elapse _ => []

/-- The handlers that are to hear of a key after a run, in the order of registration. -/
def listeners (steps : List Step) (k : Key) : List String :=
  ((registrations steps).filter fun r => r.1 = k).map (·.2)

theorem handlers_after (steps : List Step) :
    (m.after cfg steps).handlers = m.handlers ++ registrations steps := by
  induction steps generalizing m with
  | nil => exact (List.append_nil _).symm
  | cons e rest ih =>
    rw [after_cons, ih]
    cases e with
    | elapse duration => rfl
    | call c =>
      have hstep : (m.step cfg (.call c)).handlers = m.handlers ++ c.registers :=
        handlers_perform cfg m c
      rw [hstep, List.append_assoc]
      rfl

theorem handlersOf_after (steps : List Step) (keys : List Key) :
    (Memory.after cfg {} steps).handlersOf keys =
      keys.flatMap fun k => (listeners steps k).map fun handler => (handler, k) := by
  unfold handlersOf listeners
  rw [handlers_after]
  simp only [List.nil_append, List.map_map, Function.comp_def]

end Registration

/-- **Every invalidation is heard.** After any run of calls, registrations among them, each call
tells the handlers of each key that it reports, and nobody else: for each report the handlers in the
order in which they were registered. A deletion reports, in the order of its keys, every occurrence
if it is forced, and otherwise those whose slots hold no token when their turn comes, which a
tombstone that was left at an earlier occurrence is. The clearing of a list reports the keys on the
list in ascending order and then the list itself, which alone is reported if the slot is empty or
holds a token or anything else that is no list. No other call reports a key. Whatever slot one of
the two calls changes, its key is reported. -/
theorem invalidations_heard (steps : List Step) (c : Call) :
    let m := Memory.after cfg {} steps
    (m.perform cfg c).notified =
      (m.reported c).flatMap (fun k => (listeners steps k).map fun handler => (handler, k)) ∧
    (∀ tombstone force earlier k, m.invalidatesAfter tombstone force earlier k =
      (force || !((m.deleteValue cfg earlier tombstone force).memory.content k).any isToken)) ∧
    (c.Invalidates → ∀ k, (m.perform cfg c).memory.content k ≠ m.content k →
      k ∈ m.reported c) := by
  intro m
  refine ⟨?_, ?_, ?_⟩
  · rw [notified_perform]
    exact handlersOf_after cfg steps _
  · intro tombstone force earlier k
    cases force with
    | true => rfl
    | false =>
      rw [isToken_midway]
      rfl
  · intro hc k hchanged
    exact m.mem_reported_of_changed cfg hc hchanged

/-- Two handlers for one key and one for a list of it, a value and a lock. -/
def listening : List Step :=
  [.call (.registerHandler "a" "first"), .call (.registerHandler "d" "third"),
    .call (.registerHandler "a" "second"), .call (.writeToken .create ["a"]),
    .call (.setValue "a" ["a"] "v" (Token.issue LockKind.create.name 0) 0),
    .call (.writeToken .update ["b"]), .call (.addDependency ["d"] ["b", "a"] 0)]

/-- The deletion of the value, named twice, is heard once by both handlers, and the locked key is
passed over. The clearing of the list is heard by all three. -/
theorem invalidations_heard_by_listening :
    let m := Memory.after {} {} listening
    (m.perform {} (.deleteValue ["a", "b", "a"] true false)).notified =
      [("first", "a"), ("second", "a")] ∧
    (m.perform {} (.clearDependencies "d" false)).notified =
      [("first", "a"), ("second", "a"), ("third", "d")] ∧
    "b" ∈ m.reported (.clearDependencies "d" false) := by
  obtain ⟨hdelete, -, -⟩ :=
    invalidations_heard {} listening (.deleteValue ["a", "b", "a"] true false)
  obtain ⟨hclear, -, hchanged⟩ := invalidations_heard {} listening (.clearDependencies "d" false)
  refine ⟨hdelete.trans ?_, hclear.trans ?_, hchanged trivial "b" ?_⟩
  · decide +kernel
  · decide +kernel
  · decide +kernel

end Memory
end CacheCoherence
