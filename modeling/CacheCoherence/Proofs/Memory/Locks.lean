import CacheCoherence.Proofs.Memory.Basic

/-!
# Taking locks, storing under them and giving them back

What the three calls of the locking protocol answer and what they leave in a slot, by the standard
rules. A store is granted exactly while its token stands under the lock key; a lock is granted
exactly if every key may be taken, and a refused one changes nothing but the keys of rival writers,
which end up with a conflict marker.
-/
namespace CacheCoherence

/-- Whether a kind of lock may be placed over a slot's text. -/
def LockKind.mayTake (kind : LockKind) (current : Option String) : Bool :=
  kind.mayReplace (Content.ofSlot current)

/-- Whether an update that finds this text in a slot has met a rival writer. -/
def isRival (current : Option String) : Bool :=
  match Content.ofSlot current with
  | .lock .create | .lock .update => true
  | _ => false

theorem admits_issue (current : Option String) (kind : LockKind) (n : Nat) :
    (alwaysAdmitted (Token.issue kind.name n) || admits current (Token.issue kind.name n)) =
      kind.mayTake current := by
  unfold alwaysAdmitted admits LockKind.mayTake
  rw [Content.ofText_issue_lock]
  cases kind <;> simp [LockKind.mayReplace]

theorem collides_issue (current : Option String) (kind : LockKind) (n : Nat) :
    collides current (Token.issue kind.name n) =
      (decide (kind = .update) && isRival current) := by
  unfold collides isRival
  rw [Content.ofText_issue_lock]
  cases kind <;> cases Content.ofSlot current with
  | lock held => cases held <;> rfl
  | _ => rfl

namespace Memory
variable (cfg : MemorySettings) (m : Memory)

section SetValue
variable (lockKey : Key) (keys : List Key) (value : String) (token : Token) (ttl : Nat)

/-- Whether a token entitles its holder to store: its lock stands, and it is no delete lock. -/
def MayStore : Prop :=
  token ≠ Token.noLock ∧ m.content lockKey = some token ∧ Content.ofText token ≠ .lock .delete

/-- Whether a store that is refused empties the slot of the lock. -/
def Clears : Prop :=
  token ≠ Token.noLock ∧
    (m.content lockKey = some token ∨ Content.ofSlot (m.content lockKey) = .conflict)

instance : Decidable (m.MayStore lockKey token) := inferInstanceAs (Decidable (_ ∧ _))

instance : Decidable (m.Clears lockKey token) := inferInstanceAs (Decidable (_ ∧ _))

variable {m lockKey token}

theorem setValue_ok :
    ∃ result, (m.setValue cfg lockKey keys value token ttl).answer = .ok result := by
  unfold setValue
  split
  · exact ⟨_, rfl⟩
  · exact ⟨_, rfl⟩

/-- Whatever the rules, storing a value changes no slots but those of its keys and of the lock, and
if the value was not stored only that of the lock. -/
theorem live?_setValue_frame {k : Key} (hlock : k ≠ lockKey)
    (hkeys : k ∉ keys ∨ ∃ result,
      (m.setValue cfg lockKey keys value token ttl).answer = .ok result ∧ result.stored = false) :
    (m.setValue cfg lockKey keys value token ttl).memory.live? k = m.live? k := by
  unfold setValue at hkeys ⊢
  by_cases hnone : token = Token.noLock
  · rw [if_pos hnone]
  rw [if_neg hnone] at hkeys ⊢
  simp only at hkeys ⊢
  split
  · rename_i hset
    have hmem : k ∉ keys := by
      refine hkeys.resolve_right ?_
      rintro ⟨result, hanswer, hstored⟩
      rw [← Except.ok.inj hanswer, hset] at hstored
      cases hstored
    exact (Slots.live?_putAll m.slots m.now keys value ttl k).trans (if_neg hmem)
  · split
    · exact Slots.live?_congr (Table.get?_erase_of_ne m.slots hlock)
    · rfl

theorem live?_setValue_of_stored {result : SetResult}
    (hanswer : (m.setValue cfg lockKey keys value token ttl).answer = .ok result)
    (hstored : result.stored = true) {k : Key} (hk : k ∈ keys) :
    (m.setValue cfg lockKey keys value token ttl).memory.live? k =
      some (.lasting m.now value ttl) := by
  unfold setValue at hanswer ⊢
  by_cases hnone : token = Token.noLock
  · rw [if_pos hnone] at hanswer
    cases hanswer
    cases hstored
  rw [if_neg hnone] at hanswer ⊢
  simp only at hanswer ⊢
  have hset : (cfg.rules.decide (m.content lockKey) value token).set = true := by
    rw [← Except.ok.inj hanswer] at hstored
    exact hstored
  rw [if_pos hset]
  exact (Slots.live?_putAll m.slots m.now keys value ttl k).trans (if_pos hk)

/-- A value that was not stored changes nothing, or it empties the slot of the lock: by the standard
rules a marker there, or the caller's own delete lock. -/
theorem memory_setValue_of_unstored {result : SetResult}
    (hanswer : (m.setValue cfg lockKey keys value token ttl).answer = .ok result)
    (hunstored : result.stored = false) :
    (m.setValue cfg lockKey keys value token ttl).memory = m ∨
      (m.setValue cfg lockKey keys value token ttl).memory =
        { m with slots := m.slots.erase lockKey } ∧
      (cfg.rules = Rules.standard → Content.ofSlot (m.content lockKey) = .conflict ∨
        m.content lockKey = some token ∧ Content.ofText token = .lock .delete) := by
  unfold setValue at hanswer ⊢
  by_cases hnone : token = Token.noLock
  · rw [if_pos hnone]
    exact .inl rfl
  rw [if_neg hnone] at hanswer ⊢
  simp only at hanswer ⊢
  have hset : (cfg.rules.decide (m.content lockKey) value token).set = false := by
    rw [← Except.ok.inj hanswer] at hunstored
    exact hunstored
  rw [if_neg (by rw [hset]; exact Bool.false_ne_true)]
  split
  · rename_i hclear
    refine .inr ⟨rfl, fun hr => ?_⟩
    rw [hr] at hclear
    change (decideStore (m.content lockKey) value token).clear = true at hclear
    rw [decideStore, if_neg hnone] at hclear
    split at hclear
    · rename_i hheld
      split at hclear
      · exact .inr ⟨hheld, ‹_›⟩
      · cases hclear
    · left
      split at hclear
      · assumption
      · split at hclear <;> cases hclear
      all_goals cases hclear
  · exact .inl rfl

theorem setValue_stored (hr : cfg.rules = Rules.standard) (h : m.MayStore lockKey token) :
    m.setValue cfg lockKey keys value token ttl =
      { answer := .ok ⟨true, false⟩
        memory := { m with slots := m.slots.putAll m.now keys value ttl } } := by
  obtain ⟨hne, hheld, hkind⟩ := h
  have hd : cfg.rules.decide (m.content lockKey) value token = { set := true } := by
    rw [hr]
    change decideStore (m.content lockKey) value token = _
    rw [decideStore, if_neg hne, if_pos hheld, if_neg hkind]
  rw [setValue, if_neg hne, hd]
  rfl

theorem setValue_refused (hr : cfg.rules = Rules.standard) (h : ¬ m.MayStore lockKey token) :
    ∃ conflict events, m.setValue cfg lockKey keys value token ttl =
      { answer := .ok ⟨false, conflict⟩
        memory :=
          if m.Clears lockKey token then { m with slots := m.slots.erase lockKey } else m
        events := events } := by
  by_cases hne : token = Token.noLock
  · have hc : ¬ m.Clears lockKey token := fun hc => hc.1 hne
    exact ⟨false, [], by rw [setValue, if_pos hne, if_neg hc]⟩
  · have hd : ∃ conflict refresh, cfg.rules.decide (m.content lockKey) value token =
        { clear := decide (m.Clears lockKey token), conflict := conflict,
          refresh := refresh } := by
      rw [hr]
      change ∃ conflict refresh, decideStore (m.content lockKey) value token = _
      rw [decideStore, if_neg hne]
      by_cases hheld : m.content lockKey = some token
      · have hkind : Content.ofText token = .lock .delete :=
          Classical.byContradiction fun hk => h ⟨hne, hheld, hk⟩
        have hc : m.Clears lockKey token := ⟨hne, .inl hheld⟩
        exact ⟨false, false, by rw [if_pos hheld, if_pos hkind, decide_eq_true hc]⟩
      · rw [if_neg hheld]
        have hc : m.Clears lockKey token ↔ Content.ofSlot (m.content lockKey) = .conflict := by
          simp [Clears, hne, hheld]
        simp only [hc]
        cases hs : Content.ofSlot (m.content lockKey) with
        | conflict => exact ⟨true, false, rfl⟩
        | value =>
          by_cases hp : m.content lockKey = some value
          · exact ⟨false, false, by rw [if_pos hp]; rfl⟩
          · exact ⟨true, true, by rw [if_neg hp]; rfl⟩
        | _ => exact ⟨true, false, rfl⟩
    obtain ⟨conflict, refresh, hd⟩ := hd
    refine ⟨conflict, if conflict then [.setConflict lockKey token refresh] else [], ?_⟩
    rw [setValue, if_neg hne, hd]
    by_cases hc : m.Clears lockKey token <;> simp [hc]

theorem live?_setValue_stored (hr : cfg.rules = Rules.standard) (h : m.MayStore lockKey token)
    (k : Key) :
    (m.setValue cfg lockKey keys value token ttl).memory.live? k =
      if k ∈ keys then some (.lasting m.now value ttl) else m.live? k := by
  rw [setValue_stored cfg keys value ttl hr h]
  exact Slots.live?_putAll m.slots m.now keys value ttl k

theorem live?_setValue_refused (hr : cfg.rules = Rules.standard) (h : ¬ m.MayStore lockKey token)
    (k : Key) :
    (m.setValue cfg lockKey keys value token ttl).memory.live? k =
      if k = lockKey ∧ m.Clears lockKey token then none else m.live? k := by
  obtain ⟨conflict, events, hset⟩ := setValue_refused cfg keys value ttl hr h
  rw [hset]
  by_cases hc : m.Clears lockKey token
  · simp only [hc, and_true]
    exact Slots.live?_erase m.slots m.now lockKey k
  · simp only [hc, and_false, if_false]

variable (m lockKey token) in
theorem answer_setValue (hr : cfg.rules = Rules.standard) :
    ∃ conflict, (m.setValue cfg lockKey keys value token ttl).answer =
      .ok ⟨decide (m.MayStore lockKey token), conflict⟩ := by
  by_cases h : m.MayStore lockKey token
  · exact ⟨false, by rw [setValue_stored cfg keys value ttl hr h, decide_eq_true h]⟩
  · obtain ⟨conflict, events, hset⟩ := setValue_refused cfg keys value ttl hr h
    exact ⟨conflict, by rw [hset, decide_eq_false h]⟩

variable (m lockKey token) in
theorem setValue_rest (hr : cfg.rules = Rules.standard) :
    (m.setValue cfg lockKey keys value token ttl).memory.now = m.now ∧
      (m.setValue cfg lockKey keys value token ttl).memory.issued = m.issued := by
  by_cases h : m.MayStore lockKey token
  · rw [setValue_stored cfg keys value ttl hr h]
    exact ⟨rfl, rfl⟩
  · obtain ⟨conflict, events, hset⟩ := setValue_refused cfg keys value ttl hr h
    rw [hset]
    by_cases hc : m.Clears lockKey token <;> simp [hc]

end SetValue

section WriteToken
variable (kind : LockKind) (keys : List Key)

/-- Whether a lock of a kind can be placed under all of these keys. -/
def Grants : Prop := keys ≠ [] ∧ ∀ k ∈ keys, kind.mayTake (m.content k) = true

/-- Whether a refused lock leaves a conflict marker under a key. -/
def Marks (k : Key) : Prop := k ∈ keys ∧ kind = .update ∧ isRival (m.content k) = true

theorem mem_refusing (hr : cfg.rules = Rules.standard) (n : Nat) (k : Key) :
    k ∈ m.refusing cfg (Token.issue kind.name n) keys ↔
      k ∈ keys ∧ kind.mayTake (m.content k) = false := by
  unfold refusing
  rw [List.mem_filter, hr, Bool.not_eq_true']
  have h := admits_issue (m.content k) kind n
  change k ∈ keys ∧ (alwaysAdmitted _ || admits _ _) = false ↔ _
  rw [h]

variable {kind keys}

theorem writeToken_granted (hr : cfg.rules = Rules.standard) (h : m.Grants kind keys) :
    m.writeToken cfg kind keys =
      { answer := .ok (Token.issue kind.name m.issued)
        memory :=
          { m with
            slots := m.slots.putAll m.now keys (Token.issue kind.name m.issued) cfg.lockTtl
            issued := m.issued + 1 } } := by
  have hempty : m.refusing cfg (Token.issue kind.name m.issued) keys = [] := by
    rw [List.eq_nil_iff_forall_not_mem]
    intro k hk
    obtain ⟨hmem, hno⟩ := (mem_refusing cfg m kind keys hr _ k).1 hk
    rw [h.2 k hmem] at hno
    cases hno
  have hkeys : keys.isEmpty = false := by
    cases keys with
    | nil => exact absurd rfl h.1
    | cons k ks => rfl
  simp [writeToken, hkeys, hempty]

theorem live?_writeToken_granted (hr : cfg.rules = Rules.standard) (h : m.Grants kind keys)
    (k : Key) :
    (m.writeToken cfg kind keys).memory.live? k =
      if k ∈ keys then
        some (.lasting m.now (Token.issue kind.name m.issued) cfg.lockTtl)
      else m.live? k := by
  rw [writeToken_granted cfg m hr h]
  exact Slots.live?_putAll m.slots m.now keys _ _ k

theorem isRival_of_mayTake {current : Option String} (h : kind.mayTake current = true)
    (hk : kind = .update) : isRival current = false := by
  subst hk
  unfold LockKind.mayTake at h
  unfold isRival
  cases hc : Content.ofSlot current with
  | lock held =>
    rw [hc] at h
    cases held with
    | create => cases h
    | update => cases h
    | delete => rfl
    | read => rfl
  | _ => rfl

/-- A refused lock answers no lock and only marks rivals; the numbers of the markers come after the
number of the token that was refused. -/
theorem writeToken_refused (hr : cfg.rules = Rules.standard) (h : ¬ m.Grants kind keys) :
    (m.writeToken cfg kind keys).answer = .ok Token.noLock ∧
      (m.writeToken cfg kind keys).memory.now = m.now ∧
      m.issued ≤ (m.writeToken cfg kind keys).memory.issued ∧
      ∀ k,
        (¬ m.Marks kind keys k → (m.writeToken cfg kind keys).memory.live? k = m.live? k) ∧
        (m.Marks kind keys k → ∃ i, m.issued < i ∧
          i < (m.writeToken cfg kind keys).memory.issued ∧
          (m.writeToken cfg kind keys).memory.live? k =
            some (.lasting m.now (Token.issue Token.conflictTag i) cfg.lockTtl)) := by
  by_cases hkeys : keys = []
  · subst hkeys
    refine ⟨rfl, rfl, Nat.le_refl _, fun k => ⟨fun _ => rfl, fun hm => ?_⟩⟩
    cases hm.1
  · have hsome : ∃ k ∈ keys, kind.mayTake (m.content k) = false := by
      apply Classical.byContradiction
      intro hall
      refine h ⟨hkeys, fun k hk => ?_⟩
      cases ht : kind.mayTake (m.content k) with
      | true => rfl
      | false => exact absurd ⟨k, hk, ht⟩ hall
    have hrefused : (m.refusing cfg (Token.issue kind.name m.issued) keys).isEmpty = false := by
      obtain ⟨k, hk, hno⟩ := hsome
      cases hl : m.refusing cfg (Token.issue kind.name m.issued) keys with
      | cons k ks => rfl
      | nil =>
        have hmem := (mem_refusing cfg m kind keys hr m.issued k).2 ⟨hk, hno⟩
        rw [hl] at hmem
        cases hmem
    have hempty : keys.isEmpty = false := by
      cases keys with
      | nil => exact absurd rfl hkeys
      | cons k ks => rfl
    let rivals := (m.refusing cfg (Token.issue kind.name m.issued) keys).filter fun k =>
      collides (m.content k) (Token.issue kind.name m.issued)
    have hrivals : ∀ k, k ∈ rivals ↔ m.Marks kind keys k := by
      intro k
      rw [List.mem_filter, mem_refusing cfg m kind keys hr, collides_issue, Bool.and_eq_true,
        decide_eq_true_eq]
      constructor
      · rintro ⟨⟨hk, -⟩, hu, hrival⟩
        exact ⟨hk, hu, hrival⟩
      · rintro ⟨hk, hu, hrival⟩
        refine ⟨⟨hk, ?_⟩, hu, hrival⟩
        cases ht : kind.mayTake (m.content k) with
        | false => rfl
        | true =>
          rw [isRival_of_mayTake ht hu] at hrival
          cases hrival
    have hwrite : m.writeToken cfg kind keys =
        { answer := .ok Token.noLock
          memory :=
            { m with
              slots := placeMarkers cfg m.now (m.issued + 1) rivals m.slots
              issued := m.issued + 1 + rivals.length }
          events := [.claimContended kind keys] } := by
      simp [writeToken, hempty, hrefused, rivals]
    rw [hwrite]
    refine ⟨rfl, rfl, by simp only; omega, fun k => ?_⟩
    obtain ⟨hout, hin⟩ := get?_placeMarkers cfg m.now (m.issued + 1) rivals m.slots k
    constructor
    · intro hm
      exact Slots.live?_congr (hout fun hk => hm ((hrivals k).1 hk))
    · intro hm
      obtain ⟨i, hlo, hhi, hget⟩ := hin ((hrivals k).2 hm)
      exact ⟨i, by omega, hhi, Slots.live?_of_get?_lasting hget⟩

end WriteToken

section ReleaseToken
variable (keys : List Key) (token : Token)

theorem live?_releaseToken (k : Key) :
    (m.releaseToken keys token).memory.live? k =
      if token ≠ Token.noLock ∧ k ∈ keys ∧ m.content k = some token then none
      else m.live? k := by
  by_cases hne : token = Token.noLock
  · rw [releaseToken, if_pos hne, if_neg (fun h => h.1 hne)]
  · rw [releaseToken, if_neg hne]
    have hget := get?_foldl_release m.now token keys m.slots k
    have hcontent : m.slots.content m.now k = m.content k := rfl
    rw [hcontent] at hget
    by_cases hc : k ∈ keys ∧ m.content k = some token
    · rw [if_pos hc] at hget
      rw [if_pos ⟨hne, hc⟩]
      exact Slots.live?_of_get?_none hget
    · rw [if_neg hc] at hget
      rw [if_neg (fun h => hc h.2)]
      exact Slots.live?_congr hget

theorem releaseToken_rest :
    (m.releaseToken keys token).memory.now = m.now ∧
      (m.releaseToken keys token).memory.issued = m.issued := by
  unfold releaseToken
  split <;> exact ⟨rfl, rfl⟩

end ReleaseToken

end Memory
end CacheCoherence
