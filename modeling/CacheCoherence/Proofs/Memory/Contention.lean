import CacheCoherence.Proofs.Memory.Locks
import CacheCoherence.Proofs.Tokens

/-!
# Contention for a lock

A lock is claimed on all of its keys or on none, by what the slots hold before the call. An update
that is refused marks its rivals, and a marked slot admits no update. So of clients that take one
lock in a row exactly the first one gets it, and as soon as there is a second one the first can
store nothing under its lock any more.
-/
namespace CacheCoherence

/-- The contents over which a lock may be placed that is no delete lock. -/
inductive LockKind.Admits : LockKind → Content → Prop
  | empty (kind : LockKind) : Admits kind .empty
  | value : Admits .update .value
  | create_read : Admits .create (.lock .read)
  | update_read : Admits .update (.lock .read)
  | create_tombstone : Admits .create .tombstone
  | update_tombstone : Admits .update .tombstone

/-- The table of locks: a delete lock goes anywhere, any other lock over what admits it. -/
theorem LockKind.mayReplace_iff (kind : LockKind) (content : Content) :
    kind.mayReplace content = true ↔ kind = .delete ∨ kind.Admits content := by
  constructor
  · intro h
    cases kind <;> cases content with
    | lock held => cases held <;> first | exact .inl rfl | exact .inr (by constructor) | cases h
    | _ => first | exact .inl rfl | exact .inr (by constructor) | cases h
  · rintro (rfl | h)
    · cases content <;> rfl
    · cases h with
      | empty => cases kind <;> rfl
      | _ => rfl

theorem isRival_iff (current : Option String) :
    isRival current = true ↔
      Content.ofSlot current = .lock .create ∨ Content.ofSlot current = .lock .update := by
  unfold isRival
  cases Content.ofSlot current with
  | lock held => cases held <;> simp
  | _ => simp

namespace Memory
variable {cfg : MemorySettings} {m : Memory} {kind : LockKind} {keys : List Key} {k : Key}

variable (m kind keys) in
def Claimable : Prop := kind = .delete ∨ ∀ k ∈ keys, kind.Admits (Content.ofSlot (m.content k))

theorem grants_iff (hkeys : keys ≠ []) : m.Grants kind keys ↔ m.Claimable kind keys := by
  unfold Grants LockKind.mayTake Claimable
  simp only [LockKind.mayReplace_iff, hkeys, ne_eq, not_false_eq_true, true_and]
  constructor
  · intro h
    by_cases hdelete : kind = .delete
    · exact .inl hdelete
    · exact .inr fun k hk => (h k hk).resolve_left hdelete
  · rintro (hdelete | hadmits) k hk
    · exact .inl hdelete
    · exact .inr (hadmits k hk)

/-- One slot that may not be taken refuses the lock on all keys. -/
theorem not_grants {content : Content} (hkeys : keys ≠ [])
    (h : ∀ k ∈ keys, Content.ofSlot (m.content k) = content)
    (hno : kind.mayReplace content = false) : ¬ m.Grants kind keys := by
  obtain ⟨k, hk⟩ := List.exists_mem_of_ne_nil keys hkeys
  rintro ⟨-, hgrants⟩
  have htake := hgrants k hk
  rw [LockKind.mayTake, h k hk, hno] at htake
  cases htake

/-- Clients take one lock in a row. Lists the answers and has the store after the last of them. -/
def takes (cfg : MemorySettings) (kind : LockKind) (keys : List Key) :
    Nat → Memory → List (Except Fault Token) × Memory
  | 0, m => ([], m)
  | n + 1, m =>
    let reply := m.writeToken cfg kind keys
    let others := takes cfg kind keys n reply.memory
    (reply.answer :: others.1, others.2)

variable (m keys) in
/-- Every one of some keys holds a conflict marker. -/
def Marked : Prop := ∀ k ∈ keys, Content.ofSlot (m.content k) = .conflict

/-- An update is refused where there are markers, and leaves them. -/
theorem Marked.writeToken (hr : cfg.rules = Rules.standard) (hkeys : keys ≠ [])
    (h : m.Marked keys) :
    (m.writeToken cfg .update keys).answer = .ok Token.noLock ∧
      (m.writeToken cfg .update keys).memory.Marked keys := by
  have hrefused : ¬ m.Grants .update keys := not_grants hkeys h rfl
  obtain ⟨hanswer, -, -, hslots⟩ := writeToken_refused cfg m hr hrefused
  refine ⟨hanswer, fun k hk => ?_⟩
  have hkept := (hslots k).1 fun hmarks => by
    have hrival := hmarks.2.2
    rw [isRival, h k hk] at hrival
    cases hrival
  rw [content_of_live? hkept]
  exact h k hk

theorem Marked.takes (hr : cfg.rules = Rules.standard) (hkeys : keys ≠ []) (h : m.Marked keys)
    (n : Nat) :
    (takes cfg .update keys n m).1 = List.replicate n (.ok Token.noLock) ∧
      (takes cfg .update keys n m).2.Marked keys := by
  induction n generalizing m with
  | zero => exact ⟨rfl, h⟩
  | succ n ih =>
    obtain ⟨hanswer, hmarked⟩ := h.writeToken hr hkeys
    obtain ⟨hanswers, hlast⟩ := ih hmarked
    refine ⟨?_, hlast⟩
    rw [List.replicate_succ, ← hanswers, ← hanswer]
    rfl

/-- The first update that finds its keys under the lock of another one marks all of them. -/
theorem marked_of_contended (hr : cfg.rules = Rules.standard) (hkeys : keys ≠ [])
    (h : ∀ k ∈ keys, Content.ofSlot (m.content k) = .lock .update) :
    (m.writeToken cfg .update keys).answer = .ok Token.noLock ∧
      (m.writeToken cfg .update keys).memory.Marked keys := by
  have hrefused : ¬ m.Grants .update keys := not_grants hkeys h rfl
  obtain ⟨hanswer, -, -, hslots⟩ := writeToken_refused cfg m hr hrefused
  refine ⟨hanswer, fun k hk => ?_⟩
  obtain ⟨n, -, -, hmarker⟩ := (hslots k).2 ⟨hk, rfl, (isRival_iff _).2 (.inr (h k hk))⟩
  rw [content_of_live?_lasting hmarker]
  exact Content.ofText_issue_conflict n

/-- A value stored under a lock whose keys are marked is refused, and takes one marker away. -/
theorem Marked.setValue (hr : cfg.rules = Rules.standard) (h : m.Marked keys) {lockKey : Key}
    (hlock : lockKey ∈ keys) (n : Nat) (written : List Key) (value : String) (ttl : Nat) :
    (∃ conflict, (m.setValue cfg lockKey written value (Token.issue kind.name n) ttl).answer =
        .ok ⟨false, conflict⟩) ∧
      ∀ k, (m.setValue cfg lockKey written value (Token.issue kind.name n) ttl).memory.live? k =
        if k = lockKey then none else m.live? k := by
  have hheld : m.content lockKey ≠ some (Token.issue kind.name n) := by
    intro hheld
    have hmarker := h lockKey hlock
    rw [hheld] at hmarker
    change Content.ofText (Token.issue kind.name n) = .conflict at hmarker
    rw [Content.ofText_issue_lock] at hmarker
    cases hmarker
  have hstore : ¬ m.MayStore lockKey (Token.issue kind.name n) := fun hs => hheld hs.2.1
  have hclears : m.Clears lockKey (Token.issue kind.name n) :=
    ⟨Token.issue_ne_noLock _ _, .inr (h lockKey hlock)⟩
  constructor
  · obtain ⟨conflict, hanswer⟩ := answer_setValue cfg m lockKey written value
      (Token.issue kind.name n) ttl hr
    exact ⟨conflict, by rw [hanswer, decide_eq_false hstore]⟩
  · intro k
    rw [live?_setValue_refused cfg written value ttl hr hstore]
    simp only [hclears, and_true]

/-- Of updates taken in a row on keys that admit one, the first alone gets its lock. -/
theorem takes_of_claimable (hr : cfg.rules = Rules.standard) (hkeys : keys ≠ [])
    (h : m.Claimable .update keys) (n : Nat) :
    (takes cfg .update keys (n + 1) m).1 =
        .ok (Token.issue LockKind.update.name m.issued) :: List.replicate n (.ok Token.noLock) ∧
      (1 ≤ n → (takes cfg .update keys (n + 1) m).2.Marked keys) := by
  have hgranted := (grants_iff hkeys).2 h
  have hanswer : (m.writeToken cfg .update keys).answer =
      .ok (Token.issue LockKind.update.name m.issued) := by
    rw [writeToken_granted cfg m hr hgranted]
  have hlocked (k : Key) (hk : k ∈ keys) :
      Content.ofSlot ((m.writeToken cfg .update keys).memory.content k) = .lock .update := by
    have hlive := live?_writeToken_granted cfg m hr hgranted k
    rw [if_pos hk] at hlive
    rw [content_of_live?_lasting hlive]
    exact Content.ofText_issue_lock .update m.issued
  cases n with
  | zero => exact ⟨congrArg (· :: []) hanswer, fun hn => absurd hn (by omega)⟩
  | succ n =>
    obtain ⟨hsecond, hmarked⟩ := marked_of_contended hr hkeys hlocked
    obtain ⟨hothers, hlast⟩ := hmarked.takes hr hkeys n
    refine ⟨?_, fun _ => hlast⟩
    rw [List.replicate_succ, ← hothers, ← hsecond, ← hanswer]
    rfl

/-- Taking a lock on some keys claims all of them or none. It is granted exactly if it is a delete
lock or the contents of all keys admit it; then every key has the new token and nothing else has
changed. Otherwise the answer is no lock, the token stands nowhere that it did not stand before, and
nothing has changed but that an update has left markers over the locks of other writers. So of
updates that are taken in a row the first one alone gets its lock, if there was nothing in its way,
and if there is a second one, a value stored next under that lock is refused on whichever key. -/
theorem writeToken_claims_all_or_none (hr : cfg.rules = Rules.standard) (hkeys : keys ≠ []) :
    ((∃ token, token ≠ Token.noLock ∧ (m.writeToken cfg kind keys).answer = .ok token) ↔
      m.Claimable kind keys) ∧
    (m.Claimable kind keys →
      (m.writeToken cfg kind keys).answer = .ok (Token.issue kind.name m.issued) ∧
      ∀ k, (m.writeToken cfg kind keys).memory.live? k =
        if k ∈ keys then some (.lasting m.now (Token.issue kind.name m.issued) cfg.lockTtl)
        else m.live? k) ∧
    (¬ m.Claimable kind keys →
      (m.writeToken cfg kind keys).answer = .ok Token.noLock ∧
      ∀ k,
        ((m.writeToken cfg kind keys).memory.content k = some (Token.issue kind.name m.issued) →
          m.content k = some (Token.issue kind.name m.issued)) ∧
        if k ∈ keys ∧ kind = .update ∧ (Content.ofSlot (m.content k) = .lock .create ∨
          Content.ofSlot (m.content k) = .lock .update)
        then ∃ n, (m.writeToken cfg kind keys).memory.live? k =
          some (.lasting m.now (Token.issue Token.conflictTag n) cfg.lockTtl)
        else (m.writeToken cfg kind keys).memory.live? k = m.live? k) ∧
    (m.Claimable .update keys → ∀ n,
      (takes cfg .update keys (n + 1) m).1 =
        .ok (Token.issue LockKind.update.name m.issued) :: List.replicate n (.ok Token.noLock) ∧
      (1 ≤ n → ∀ lockKey ∈ keys, ∀ (written : List Key) (value : String) (ttl : Nat),
        (∃ conflict, ((takes cfg .update keys (n + 1) m).2.setValue cfg lockKey written value
          (Token.issue LockKind.update.name m.issued) ttl).answer = .ok ⟨false, conflict⟩) ∧
        ∀ k, ((takes cfg .update keys (n + 1) m).2.setValue cfg lockKey written value
            (Token.issue LockKind.update.name m.issued) ttl).memory.live? k =
          if k = lockKey then none else (takes cfg .update keys (n + 1) m).2.live? k)) := by
  refine ⟨?_, fun h => ?_, fun h => ?_, fun h n => ?_⟩
  · rw [← grants_iff hkeys]
    constructor
    · rintro ⟨token, hne, hanswer⟩
      refine Classical.byContradiction fun hrefused => ?_
      rw [(writeToken_refused cfg m hr hrefused).1] at hanswer
      exact hne (Except.ok.inj hanswer).symm
    · intro hgranted
      refine ⟨Token.issue kind.name m.issued, Token.issue_ne_noLock _ _, ?_⟩
      rw [writeToken_granted cfg m hr hgranted]
  · have hgranted := (grants_iff hkeys).2 h
    refine ⟨?_, live?_writeToken_granted cfg m hr hgranted⟩
    rw [writeToken_granted cfg m hr hgranted]
  · have hrefused : ¬ m.Grants kind keys := fun hgrants => h ((grants_iff hkeys).1 hgrants)
    obtain ⟨hanswer, -, -, hslots⟩ := writeToken_refused cfg m hr hrefused
    refine ⟨hanswer, fun k => ?_⟩
    obtain ⟨hkept, hmarked⟩ := hslots k
    rw [Marks, isRival_iff] at hkept hmarked
    split
    · rename_i hrival
      obtain ⟨n, -, -, hmarker⟩ := hmarked hrival
      refine ⟨fun htoken => ?_, n, hmarker⟩
      rw [content_of_live?_lasting hmarker] at htoken
      exact absurd (Option.some.inj htoken).symm (Token.issue_lock_ne_conflict kind m.issued n)
    · rename_i hrival
      refine ⟨fun htoken => ?_, hkept hrival⟩
      rwa [content_of_live? (hkept hrival)] at htoken
  · obtain ⟨hanswers, hmarked⟩ := takes_of_claimable hr hkeys h n
    exact ⟨hanswers, fun hn lockKey hlock written value ttl =>
      (hmarked hn).setValue hr hlock m.issued written value ttl⟩

/-- Three clients update the same keys, one of them named twice. The first has its lock, and can
store nothing. -/
theorem writeToken_claims_all_or_none_of_contenders :
    (takes {} .update ["a", "b", "a"] 3 {}).1 =
        [.ok (Token.issue LockKind.update.name 0), .ok Token.noLock, .ok Token.noLock] ∧
      ∃ conflict, ((takes {} .update ["a", "b", "a"] 3 {}).2.setValue {} "b" ["b"] "1"
        (Token.issue LockKind.update.name 0) 5).answer = .ok ⟨false, conflict⟩ := by
  have hkeys : ["a", "b", "a"] ≠ ([] : List Key) := by decide
  have hempty : Claimable {} .update ["a", "b", "a"] := .inr fun k _ => .empty .update
  obtain ⟨-, -, -, hcontended⟩ :=
    @writeToken_claims_all_or_none {} {} .update ["a", "b", "a"] rfl hkeys
  obtain ⟨hanswers, hstore⟩ := hcontended hempty 2
  exact ⟨hanswers, (hstore (by decide) "b" (by decide) ["b"] "1" 5).1⟩

end Memory
end CacheCoherence
