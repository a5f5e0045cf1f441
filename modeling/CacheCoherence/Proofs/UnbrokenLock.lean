import CacheCoherence.Proofs.Memory.Runs

/-!
# A store proves an unbroken lock

Storing a value compares the slot of the lock key with the caller's token once, at the moment of
the store. This module shows what the comparison proves about the past: that the token was issued
for that very key and that the key has held it ever since, so that nobody else had a hand in the
slot in between. The argument runs backwards through a run. No call but the one that issues a lock
ever leaves a lock in a slot that did not hold it before; markers, tombstones, cached values and
dependency lists are no locks, and time only takes slots away.
-/
namespace CacheCoherence

def Call.StoresJson : Call → Prop
  | .setValue _ _ value _ _ => (Json.parse? value).isSome = true
  | _ => True

/-- Whether a token is a lock that a store issued. -/
def Token.IsLock (token : Token) : Prop := ∃ kind n, token = Token.issue (LockKind.name kind) n

namespace Memory
variable (cfg : MemorySettings) (m : Memory)

/-- A call hands out a token for a key: a granted lock claims all its keys, and a read lock the
key of the miss that it was taken on. -/
def Issues (token : Token) (k : Key) : Call → Prop
  | .writeToken kind keys =>
    token ≠ Token.noLock ∧ k ∈ keys ∧ (m.writeToken cfg kind keys).answer = .ok token
  | .getValue key lock =>
    token ≠ Token.noLock ∧ k = key ∧
      ∃ found, (m.getValue cfg key lock).answer = .ok found ∧ found.token = token
  | .getValues keys locks =>
    token ≠ Token.noLock ∧
      ∃ found, (m.getValues cfg keys locks).answer = .ok found ∧
        ∃ reading, (k, reading) ∈ keys.zip found ∧ reading.token = token
  | _ => False

/-- The store issued a token at some call of a run. -/
def Issued (steps : List Step) (token : Token) : Prop :=
  ∃ before c later k, steps = before ++ .call c :: later ∧ (m.after cfg before).Issues cfg token k c

/-- A key holds the same unexpired slot at every moment of a run, its start and end included. -/
def Keeps (steps : List Step) (k : Key) (slot : Slot) : Prop :=
  ∀ past rest, steps = past ++ rest → (m.after cfg past).live? k = some slot

/-- A run issued a token for a key, and the key has held it ever since. -/
def UnbrokenLock (steps : List Step) (k : Key) (token : Token) : Prop :=
  ∃ before c later, steps = before ++ .call c :: later ∧
    (m.after cfg before).Issues cfg token k c ∧
    ((m.after cfg before).step cfg (.call c)).Keeps cfg later k
      (.lasting (m.after cfg before).now token cfg.lockTtl)

section Issue
variable {cfg m} {token : Token} {k : Key} {slot : Slot}

theorem token_of_lookup {key : Key} {lock : Bool}
    (h : (m.lookup cfg key lock).1.token = token) (hne : token ≠ Token.noLock) :
    token = Token.issue LockKind.read.name m.issued ∧
      (m.lookup cfg key lock).2.issued = m.issued + 1 := by
  cases hc : m.content key with
  | some raw =>
    rw [lookup_of_content cfg m key lock hc] at h
    refine absurd ?_ hne
    rw [← h]
    simp only [Lookup.observed]
    split <;> rfl
  | none =>
    rw [lookup_of_empty cfg m key lock hc] at h ⊢
    cases lock with
    | false => exact absurd h.symm hne
    | true => exact ⟨h.symm, rfl⟩

theorem token_of_lookups {reads : List (Key × Bool)} {reading : Lookup}
    (h : reading ∈ (lookups cfg reads m).1) (hne : reading.token ≠ Token.noLock) :
    ∃ n, reading.token = Token.issue LockKind.read.name n ∧ m.issued ≤ n ∧
      n < (lookups cfg reads m).2.issued := by
  induction reads generalizing m with
  | nil => cases h
  | cons read rest ih =>
    obtain ⟨key, lock⟩ := read
    have hlater := (lookups_rest cfg (m.lookup cfg key lock).2 rest).2
    rw [lookups_cons] at h ⊢
    rcases List.mem_cons.1 h with hhead | htail
    · obtain ⟨htoken, hissued⟩ := token_of_lookup (congrArg Lookup.token hhead).symm hne
      refine ⟨m.issued, htoken, Nat.le_refl _, ?_⟩
      rw [hissued] at hlater
      exact hlater
    · obtain ⟨n, htoken, hlo, hhi⟩ := ih htail
      have hfirst := issued_lookup cfg m key lock
      refine ⟨n, htoken, ?_, hhi⟩
      split at hfirst <;> omega

theorem Issues.numbered (hr : cfg.rules = Rules.standard) {c : Call}
    (h : m.Issues cfg token k c) :
    ∃ kind n, token = Token.issue (LockKind.name kind) n ∧ m.issued ≤ n ∧
      n < (m.perform cfg c).memory.issued := by
  cases c with
  | writeToken kind keys =>
    obtain ⟨hne, -, hanswer⟩ := h
    by_cases hg : m.Grants kind keys
    · have hgranted := writeToken_granted cfg m hr hg
      rw [hgranted] at hanswer
      refine ⟨kind, m.issued, (Except.ok.inj hanswer).symm, Nat.le_refl _, ?_⟩
      change m.issued < (m.writeToken cfg kind keys).memory.issued
      rw [hgranted]
      exact Nat.lt_succ_self _
    · rw [(writeToken_refused cfg m hr hg).1] at hanswer
      exact absurd (Except.ok.inj hanswer).symm hne
  | getValue key lock =>
    obtain ⟨hne, -, found, hanswer, htoken⟩ := h
    have hfound : (m.lookup cfg key lock).1 = found := Except.ok.inj hanswer
    rw [← hfound] at htoken
    obtain ⟨hissue, hissued⟩ := token_of_lookup htoken hne
    refine ⟨.read, m.issued, hissue, Nat.le_refl _, ?_⟩
    change m.issued < (m.lookup cfg key lock).2.issued
    omega
  | getValues keys locks =>
    obtain ⟨hne, found, hanswer, reading, hmem, htoken⟩ := h
    have hmemory := getValues_memory cfg m keys locks
    unfold getValues at hanswer
    split at hanswer
    · rename_i hlen
      rw [if_pos hlen] at hmemory
      have hfound : (lookups cfg (keys.zip locks) m).1 = found := Except.ok.inj hanswer
      rw [← hfound] at hmem
      rw [← htoken] at hne
      obtain ⟨n, hissue, hlo, hhi⟩ := token_of_lookups (List.of_mem_zip hmem).2 hne
      refine ⟨.read, n, htoken ▸ hissue, hlo, ?_⟩
      change n < (m.getValues cfg keys locks).memory.issued
      rw [hmemory]
      exact hhi
    · cases hanswer
  | _ => cases h

/-- A lock that is found under a key after reading slots was there before or is the one that the
reading of that key answered. -/
theorem lookups_wrote {reads : List (Key × Bool)}
    (h : (lookups cfg reads m).2.live? k = some slot) :
    m.live? k = some slot ∨
      slot.text ≠ Token.noLock ∧ slot = .lasting m.now slot.text cfg.lockTtl ∧
        ∃ reading, (k, reading) ∈ (reads.map Prod.fst).zip (lookups cfg reads m).1 ∧
          reading.token = slot.text := by
  induction reads generalizing m with
  | nil => exact .inl h
  | cons read rest ih =>
    obtain ⟨key, lock⟩ := read
    rw [lookups_cons] at h ⊢
    rcases ih h with hkept | ⟨hne, hslot, reading, hmem, htoken⟩
    · rw [live?_lookup] at hkept
      split at hkept
      · rename_i htaken
        obtain ⟨rfl, rfl, hempty⟩ := htaken
        have hslot : slot = readLock cfg m := (Option.some.inj hkept).symm
        subst hslot
        refine .inr ⟨Token.issue_ne_noLock _ _, rfl, (m.lookup cfg k true).1, ?_, ?_⟩
        · exact List.mem_cons_self
        · rw [lookup_of_empty cfg m k true hempty]
          rfl
      · exact .inl hkept
    · rw [now_lookup] at hslot
      exact .inr ⟨hne, hslot, reading, List.mem_cons_of_mem _ hmem, htoken⟩

theorem kept_or_issued (hr : cfg.rules = Rules.standard) {c : Call} (hj : c.StoresJson)
    (hl : Token.IsLock slot.text) (h : (m.perform cfg c).memory.live? k = some slot) :
    m.live? k = some slot ∨
      m.Issues cfg slot.text k c ∧ slot = .lasting m.now slot.text cfg.lockTtl := by
  obtain ⟨kind, n, hissue⟩ := hl
  have hne : slot.text ≠ Token.noLock := hissue ▸ Token.issue_ne_noLock _ _
  have hnotvalue : isToken slot.text = true := hissue ▸ Content.isToken_issue_lock kind n
  have hleft {tombstone : Bool} (hs : some slot = leftover cfg m.now tombstone) : False := by
    cases tombstone with
    | false => cases hs
    | true =>
      have htext : slot.text = Token.tombstone := congrArg Slot.text (Option.some.inj hs)
      exact Token.issue_lock_ne_tombstone kind n (hissue.symm.trans htext)
  cases c with
  | getValue key lock =>
    change (m.lookup cfg key lock).2.live? k = some slot at h
    rw [live?_lookup] at h
    split at h
    · rename_i htaken
      obtain ⟨rfl, rfl, hempty⟩ := htaken
      have hslot : slot = readLock cfg m := (Option.some.inj h).symm
      subst hslot
      refine .inr ⟨⟨hne, rfl, (m.lookup cfg k true).1, rfl, ?_⟩, rfl⟩
      rw [lookup_of_empty cfg m k true hempty]
      rfl
    · exact .inl h
  | getValues keys locks =>
    change (m.getValues cfg keys locks).memory.live? k = some slot at h
    rw [getValues_memory] at h
    split at h
    · rename_i hlen
      rcases lookups_wrote h with hkept | ⟨-, hslot, reading, hmem, htoken⟩
      · exact .inl hkept
      · rw [List.map_fst_zip (Nat.le_of_eq hlen)] at hmem
        refine .inr ⟨⟨hne, _, ?_, reading, hmem, htoken⟩, hslot⟩
        rw [getValues, if_pos hlen]
    · exact .inl h
  | setValue lockKey keys value token ttl =>
    change (m.setValue cfg lockKey keys value token ttl).memory.live? k = some slot at h
    by_cases hs : m.MayStore lockKey token
    · rw [live?_setValue_stored cfg keys value ttl hr hs] at h
      split at h
      · have htext : slot.text = value := congrArg Slot.text (Option.some.inj h).symm
        rw [htext, Json.isToken_of_parse? hj] at hnotvalue
        cases hnotvalue
      · exact .inl h
    · rw [live?_setValue_refused cfg keys value ttl hr hs] at h
      split at h
      · cases h
      · exact .inl h
  | deleteValue keys tombstone force =>
    change (m.deleteValue cfg keys tombstone force).memory.live? k = some slot at h
    rw [live?_deleteValue] at h
    split at h
    · exact (hleft h.symm).elim
    · exact .inl h
  | writeToken kind' keys =>
    change (m.writeToken cfg kind' keys).memory.live? k = some slot at h
    by_cases hg : m.Grants kind' keys
    · rw [live?_writeToken_granted cfg m hr hg] at h
      split at h
      · rename_i hk
        have hslot := (Option.some.inj h).symm
        subst hslot
        refine .inr ⟨⟨hne, hk, ?_⟩, rfl⟩
        rw [writeToken_granted cfg m hr hg]
        rfl
      · exact .inl h
    · obtain ⟨-, -, -, hkeys⟩ := writeToken_refused cfg m hr hg
      by_cases hm : m.Marks kind' keys k
      · obtain ⟨i, -, -, hmarker⟩ := (hkeys k).2 hm
        rw [hmarker] at h
        have htext : slot.text = Token.issue Token.conflictTag i :=
          congrArg Slot.text (Option.some.inj h).symm
        exact (Token.issue_lock_ne_conflict kind n i (hissue.symm.trans htext)).elim
      · rw [(hkeys k).1 hm] at h
        exact .inl h
  | releaseToken keys token =>
    change (m.releaseToken keys token).memory.live? k = some slot at h
    rw [live?_releaseToken] at h
    split at h
    · cases h
    · exact .inl h
  | addDependency lists dependents ttl =>
    change (m.addDependency lists dependents ttl).memory.live? k = some slot at h
    by_cases hk : k ∈ lists
    · cases ha : (m.addDependency lists dependents ttl).answer with
      | error fault =>
        rw [addDependency_failed m lists dependents ttl ha] at h
        exact .inl h
      | ok u =>
        obtain ⟨-, text, hmerge, hslot⟩ := (addDependency_ok m lists dependents ttl ha k).2 hk
        rw [hslot] at h
        have htext : slot.text = text := congrArg Slot.text (Option.some.inj h).symm
        rw [htext, DependencyList.isToken_of_merge hmerge] at hnotvalue
        cases hnotvalue
    · rw [live?_addDependency_of_not_mem m lists dependents ttl hk] at h
      exact .inl h
  | clearDependencies key tombstone =>
    change (m.clearDependencies cfg key tombstone).memory.live? k = some slot at h
    rw [live?_clearDependencies] at h
    split at h
    · exact (hleft h.symm).elim
    · exact .inl h
  | flush root tombstones =>
    change (m.flush root tombstones).memory.live? k = some slot at h
    rw [live?_flush, Option.filter_eq_some_iff] at h
    exact .inl h.1
  | registerHandler key handler => exact .inl h

end Issue

section Runs
variable {cfg m} {steps : List Step} {token : Token} {k : Key} {slot : Slot}

theorem Keeps.cons {e : Step} {rest : List Step} (h : m.live? k = some slot)
    (hrest : (m.step cfg e).Keeps cfg rest k slot) : m.Keeps cfg (e :: rest) k slot := by
  intro past later hsplit
  cases past with
  | nil => exact h
  | cons e' past =>
    obtain ⟨rfl, htail⟩ := List.cons.inj hsplit
    exact hrest past later htail

theorem Keeps.start (h : m.Keeps cfg steps k slot) : m.live? k = some slot := h [] steps rfl

/-- A lock that a key holds at the end of a run was there from the start or was issued for the key
during the run and never left it. -/
theorem kept_throughout_or_issued (hr : cfg.rules = Rules.standard)
    (hj : ∀ c, .call c ∈ steps → Call.StoresJson c) (hl : Token.IsLock slot.text)
    (h : (m.after cfg steps).live? k = some slot) :
    m.Keeps cfg steps k slot ∨ m.UnbrokenLock cfg steps k slot.text := by
  induction steps generalizing m with
  | nil =>
    left
    intro past rest hsplit
    obtain ⟨rfl, -⟩ := List.append_eq_nil_iff.1 hsplit.symm
    exact h
  | cons e rest ih =>
    have hjrest : ∀ c, .call c ∈ rest → Call.StoresJson c :=
      fun c hc => hj c (List.mem_cons_of_mem _ hc)
    rcases ih hjrest h with hkept | ⟨before, c, later, rfl, hissue, hlater⟩
    · cases e with
      | elapse duration => exact .inl (.cons (live?_of_live?_advance hkept.start) hkept)
      | call c =>
        rcases kept_or_issued hr (hj c List.mem_cons_self) hl hkept.start with hm | ⟨hissue, hslot⟩
        · exact .inl (.cons hm hkept)
        · refine .inr ⟨[], c, rest, rfl, hissue, ?_⟩
          rw [hslot] at hkept
          exact hkept
    · exact .inr ⟨e :: before, c, later, rfl, hissue, hlater⟩

theorem UnbrokenLock.numbered (hr : cfg.rules = Rules.standard)
    (h : m.UnbrokenLock cfg steps k token) :
    ∃ kind n, token = Token.issue (LockKind.name kind) n ∧ m.issued ≤ n ∧
      n < (m.after cfg steps).issued := by
  obtain ⟨before, c, later, rfl, hissue, -⟩ := h
  obtain ⟨kind, n, htoken, hlo, hhi⟩ := hissue.numbered hr
  have hbefore := issued_after cfg m hr before
  have hlater := issued_after cfg ((m.after cfg before).step cfg (.call c)) hr later
  refine ⟨kind, n, htoken, Nat.le_trans hbefore hlo, ?_⟩
  rw [after_append, after_cons]
  exact Nat.lt_of_lt_of_le hhi hlater

/-- Nothing but an issue puts a lock into a slot of a store that starts out empty. -/
theorem unbrokenLock_of_content (hr : cfg.rules = Rules.standard)
    (hj : ∀ c, .call c ∈ steps → Call.StoresJson c) (hl : Token.IsLock token)
    (h : (({} : Memory).after cfg steps).content k = some token) :
    ({} : Memory).UnbrokenLock cfg steps k token := by
  rw [content_eq_live?, Option.map_eq_some_iff] at h
  obtain ⟨slot, hslot, rfl⟩ := h
  rcases kept_throughout_or_issued hr hj hl hslot with hkept | hissued
  · cases hkept.start
  · exact hissued

variable (cfg m steps) in
/-- A run stored a value under a token and a lock key that was itself written. -/
def StoredBefore (lockKey : Key) (token : Token) : Prop :=
  ∃ before keys value ttl later conflict,
    steps = before ++ .call (.setValue lockKey keys value token ttl) :: later ∧ lockKey ∈ keys ∧
      ((m.after cfg before).setValue cfg lockKey keys value token ttl).answer =
        .ok ⟨true, conflict⟩

theorem mayStore_of_answer (hr : cfg.rules = Rules.standard) {keys : List Key} {value : String}
    {ttl : Nat} {conflict : Bool}
    (h : (m.setValue cfg k keys value token ttl).answer = .ok ⟨true, conflict⟩) :
    m.MayStore k token := by
  obtain ⟨other, hanswer⟩ := answer_setValue cfg m k keys value token ttl hr
  rw [hanswer] at h
  have hstored : decide (m.MayStore k token) = true := congrArg SetResult.stored (Except.ok.inj h)
  exact of_decide_eq_true hstored

/-- A token that has stored a value on its lock key is gone from there for good: the value took its
place, and any token issued later has a later number. -/
theorem content_ne_of_storedBefore (hr : cfg.rules = Rules.standard)
    (hj : ∀ c, .call c ∈ steps → Call.StoresJson c) (hl : Token.IsLock token)
    (h : ({} : Memory).StoredBefore cfg steps k token) :
    (({} : Memory).after cfg steps).content k ≠ some token := by
  obtain ⟨before, keys, value, ttl, later, conflict, rfl, hk, hanswer⟩ := h
  intro hend
  have hstore := mayStore_of_answer hr hanswer
  have hjbefore : ∀ c, .call c ∈ before → Call.StoresJson c :=
    fun c hc => hj c (List.mem_append_left _ hc)
  have hjlater : ∀ c, .call c ∈ later → Call.StoresJson c :=
    fun c hc => hj c (List.mem_append_right _ (List.mem_cons_of_mem _ hc))
  have hvalue : Call.StoresJson (.setValue k keys value token ttl) :=
    hj _ (List.mem_append_right _ List.mem_cons_self)
  have hused := (unbrokenLock_of_content hr hjbefore hl hstore.2.1).numbered hr
  rw [after_append, after_cons, content_eq_live?, Option.map_eq_some_iff] at hend
  obtain ⟨slot, hslot, rfl⟩ := hend
  rcases kept_throughout_or_issued hr hjlater hl hslot with hkept | hissued
  · have hwritten := live?_setValue_stored cfg keys value ttl hr hstore k
    rw [if_pos hk] at hwritten
    have hsame := hkept.start.symm.trans hwritten
    have htext : slot.text = value := congrArg Slot.text (Option.some.inj hsame)
    obtain ⟨kind, n, hissue⟩ := hl
    have htoken : isToken slot.text = true := hissue ▸ Content.isToken_issue_lock kind n
    rw [htext, Json.isToken_of_parse? hvalue] at htoken
    cases htoken
  · obtain ⟨kind, n, hn, -, hhi⟩ := hused
    obtain ⟨kind', n', hn', hlo, -⟩ := hissued.numbered hr
    have hnumber : n = n' := (Token.issue_lock_injective (hn.symm.trans hn')).2
    have hrest := (perform_rest cfg (({} : Memory).after cfg before) hr
      (.setValue k keys value slot.text ttl)).2
    have hlater : (({} : Memory).after cfg before).issued ≤ n' := Nat.le_trans hrest hlo
    omega

theorem Issued.isLock (hr : cfg.rules = Rules.standard) (h : m.Issued cfg steps token) :
    Token.IsLock token := by
  obtain ⟨before, c, later, key, -, hissue⟩ := h
  obtain ⟨kind, n, htoken, -, -⟩ := hissue.numbered hr
  exact ⟨kind, n, htoken⟩

/-- Storing a value under a token that the run issued succeeds only where the lock key has held the
token since it was issued for that key, and only once; it then writes every key. A refused store
changes nothing, or takes a conflict marker or the caller's own delete lock off the lock key. -/
theorem setValue_proves_unbroken_lock (hr : cfg.rules = Rules.standard)
    (hj : ∀ c, .call c ∈ steps → Call.StoresJson c)
    (hissued : ({} : Memory).Issued cfg steps token) (lockKey : Key) (keys : List Key)
    (value : String) (ttl : Nat) :
    ∃ stored conflict,
      ((({} : Memory).after cfg steps).setValue cfg lockKey keys value token ttl).answer =
        .ok ⟨stored, conflict⟩ ∧
      (stored = true →
        ({} : Memory).UnbrokenLock cfg steps lockKey token ∧
        ¬ ({} : Memory).StoredBefore cfg steps lockKey token ∧
        ∀ k ∈ keys,
          ((({} : Memory).after cfg steps).setValue cfg lockKey keys value token
              ttl).memory.live? k =
            some (.lasting (({} : Memory).after cfg steps).now value ttl)) ∧
      (stored = false →
        ((({} : Memory).after cfg steps).setValue cfg lockKey keys value token ttl).memory =
            ({} : Memory).after cfg steps ∨
          ((({} : Memory).after cfg steps).setValue cfg lockKey keys value token ttl).memory =
              { ({} : Memory).after cfg steps with
                slots := (({} : Memory).after cfg steps).slots.erase lockKey } ∧
            (Content.ofSlot ((({} : Memory).after cfg steps).content lockKey) = .conflict ∨
              (({} : Memory).after cfg steps).content lockKey = some token ∧
                Content.ofText token = .lock .delete)) := by
  have hl : Token.IsLock token := hissued.isLock hr
  generalize hm : ({} : Memory).after cfg steps = m
  by_cases hs : m.MayStore lockKey token
  · have hheld : (({} : Memory).after cfg steps).content lockKey = some token := hm ▸ hs.2.1
    refine ⟨true, false, ?_, fun _ => ⟨?_, ?_, ?_⟩, fun h => by cases h⟩
    · rw [setValue_stored cfg keys value ttl hr hs]
    · exact unbrokenLock_of_content hr hj hl hheld
    · exact fun hbefore => content_ne_of_storedBefore hr hj hl hbefore hheld
    · intro k hk
      rw [live?_setValue_stored cfg keys value ttl hr hs, if_pos hk]
  · obtain ⟨conflict, events, hset⟩ := setValue_refused cfg keys value ttl hr hs
    refine ⟨false, conflict, by rw [hset], (fun h => by cases h), fun _ => ?_⟩
    rw [hset]
    by_cases hc : m.Clears lockKey token
    · refine .inr ⟨if_pos hc, ?_⟩
      obtain ⟨hne, hheld | hmarker⟩ := hc
      · have hkind : Content.ofText token = .lock .delete :=
          Classical.byContradiction fun hk => hs ⟨hne, hheld, hk⟩
        exact .inr ⟨hheld, hkind⟩
      · exact .inl hmarker
    · exact .inl (if_neg hc)

/-- A lock that was taken and left alone: the writer stores, and can do so only because its lock
was never broken. -/
theorem setValue_proves_unbroken_lock_of_writer :
    ({} : Memory).UnbrokenLock {} [.call (.writeToken .update ["a"]), .elapse 1] "a"
      (Token.issue LockKind.update.name 0) := by
  have hanswer : (({} : Memory).writeToken {} .update ["a"]).answer =
      .ok (Token.issue LockKind.update.name 0) := by rfl
  have hissued : ({} : Memory).Issued {} [.call (.writeToken .update ["a"]), .elapse 1]
      (Token.issue LockKind.update.name 0) :=
    ⟨[], .writeToken .update ["a"], [.elapse 1], "a", rfl, Token.issue_ne_noLock _ _,
      List.mem_singleton_self "a", hanswer⟩
  have hjson : ∀ c, .call c ∈ [Step.call (.writeToken .update ["a"]), .elapse 1] →
      Call.StoresJson c := by
    intro c hc
    rcases List.mem_cons.1 hc with hwrite | helapse
    · cases hwrite
      trivial
    · cases List.mem_singleton.1 helapse
  obtain ⟨stored, conflict, hstore, hheld, -⟩ :=
    setValue_proves_unbroken_lock rfl hjson hissued "a" ["a"] "1" 5
  have hcomputed : ((({} : Memory).after {} [.call (.writeToken .update ["a"]), .elapse 1]).setValue
      {} "a" ["a"] "1" (Token.issue LockKind.update.name 0) 5).answer = .ok ⟨true, false⟩ := by
    rfl
  rw [hcomputed] at hstore
  have htrue : stored = true := (congrArg SetResult.stored (Except.ok.inj hstore)).symm
  exact (hheld htrue).1

end Runs

end Memory
end CacheCoherence
