import CacheCoherence.Proofs.ReadAfterWrite.ItemEffects

/-!
# What a lock on an item promises

A lock in the slot stands for a promise: a reader's lock, that nothing was committed since its
holder loaded, and a writer's lock, that nothing was committed behind it. Placing an update lock
over a rival's breaks both promises, and a conflict marker says so. As long as the marker stays
until the last writer that took part has committed, a value in the slot is the current one.
-/
namespace CacheCoherence
open Operation
variable {α : Type} [Cacheable α]
variable {cfg : MemorySettings} {policy : Policy} {version : Nat → α} {key : Key} {m m' : Memory}

section Invariant
variable (policy version key)

/-- Whoever stores at a conflict marker, and thereby takes it away, does so only when no writer is
between its lock and its commit. -/
def MarkerKept (w : World α) : Move → Prop
  | .save _ | .fill _ =>
    Content.ofSlot (w.memory.content key) = .conflict → ∀ i t, w.clients i ≠ .claimed t
  | _ => True

variable {key}

/-- What a client may count on while the key holds a text. -/
def Client.Counts (current : Nat) (slot : Option String) : Client α → Prop
  | .claimed t =>
    (∃ n, t = Token.issue LockKind.update.name n) ∧
      (slot = some t ∨ Content.ofSlot slot = .conflict)
  | .committed t n => n ≤ current ∧ (slot = some t → n = current)
  | .loaded t found n => found = version n ∧ (slot = some t → n = current)
  | .filled _ found => ∃ n, found = version n
  | _ => True

variable (key)

/-- A lock under the key still means what it was placed for, and a value is the current one. -/
structure ItemInv (w : World α) : Prop where
  tokens : w.Tokens
  lists : ListsSound policy version key w.memory
  clients : ∀ i, (w.clients i).Counts version w.current (w.memory.content key)
  value : ∀ raw, w.memory.content key = some raw → isToken raw = false →
    ∃ document, Cacheable.toJson? (version w.current) = some document ∧ raw = document.compact
  returned : w.returned ≤ w.current

variable {policy version key} {w : World α}

theorem itemInv_start : ItemInv policy version key ({} : World α) where
  tokens := ⟨fun i t h => (by cases h), fun i j t h => (by cases h)⟩
  lists := fun n list hlist => ⟨fun slot h => (by cases h), fun h => (by cases h)⟩
  clients := fun i => trivial
  value := fun raw h => by cases h
  returned := Nat.le_refl 0

omit [Cacheable α] in
/-- What a client counted on stays true when the slot is taken from nobody it was held for. -/
theorem Client.Counts.mono {c : Client α} {current : Nat} {slot slot' : Option String}
    (h : c.Counts version current slot)
    (hclaimed : ∀ t, c = .claimed t → slot' = some t ∨ Content.ofSlot slot' = .conflict)
    (hheld : ∀ t, c.token? = some t → slot' = some t → slot = some t) :
    c.Counts version current slot' := by
  cases c with
  | claimed t => exact ⟨h.1, hclaimed t rfl⟩
  | committed t n => exact ⟨h.1, fun hs => h.2 (hheld t rfl hs)⟩
  | loaded t found n => exact ⟨h.1, fun hs => h.2 (hheld t rfl hs)⟩
  | filled t found => exact h
  | _ => trivial

theorem ItemInv.token_ne_noLock (h : ItemInv policy version key w) {i : Nat} {t : Token}
    (ht : (w.clients i).token? = some t) : t ≠ Token.noLock := by
  obtain ⟨kind, n, rfl, -⟩ := h.tokens.issued i t ht
  exact Token.issue_ne_noLock _ _

theorem ItemInv.ofSlot_held (h : ItemInv policy version key w) {i : Nat} {t : Token}
    (ht : (w.clients i).token? = some t) : Content.ofSlot (some t) ≠ .conflict := by
  obtain ⟨kind, n, rfl, -⟩ := h.tokens.issued i t ht
  rw [Content.ofSlot, Content.ofText_issue_lock]
  exact fun hc => by cases hc

/-- While the key holds nothing that a writer left, no writer is about to commit. -/
theorem ItemInv.no_claim (h : ItemInv policy version key w)
    (hmarker : Content.ofSlot (w.memory.content key) ≠ .conflict)
    (hheld : ∀ i t, w.memory.content key = some t → w.clients i ≠ .claimed t) (i : Nat)
    (t : Token) : w.clients i ≠ .claimed t := by
  intro hi
  have hcounts := h.clients i
  rw [hi] at hcounts
  rcases hcounts.2 with hslot | hslot
  · exact hheld i t hslot hi
  · exact hmarker hslot

omit [Cacheable α] in
theorem Client.Counts.vacant {c : Client α} {current : Nat} {slot slot' : Option String}
    (h : c.Counts version current slot) (hclaimed : ∀ t, c ≠ .claimed t)
    (hheld : ∀ t, c.token? = some t → slot' ≠ some t) : c.Counts version current slot' :=
  h.mono (fun t ht => absurd ht (hclaimed t)) fun t ht hs => absurd hs (hheld t ht)

theorem ItemInv.token_ne_new (h : ItemInv policy version key w) {i : Nat} {t : Token}
    (ht : (w.clients i).token? = some t) (kind : LockKind) :
    t ≠ Token.issue kind.name w.memory.issued := by
  obtain ⟨kind', n, htoken, hn⟩ := h.tokens.issued i t ht
  intro he
  have hsame := (Token.issue_lock_injective (htoken.symm.trans he)).2
  omega

theorem ItemInv.isToken_held (h : ItemInv policy version key w) {i : Nat} {t : Token}
    (ht : (w.clients i).token? = some t) : isToken t = true := by
  obtain ⟨kind, n, rfl, -⟩ := h.tokens.issued i t ht
  exact Content.isToken_issue_lock kind n

/-- While a client other than a writer about to commit has its token under the key, no writer is
about to commit. -/
theorem ItemInv.no_claim_of_held (h : ItemInv policy version key w) {i : Nat} {t : Token}
    (ht : (w.clients i).token? = some t) (hnot : w.clients i ≠ .claimed t)
    (hslot : w.memory.content key = some t) (j : Nat) (t' : Token) :
    w.clients j ≠ .claimed t' := by
  refine h.no_claim ?_ ?_ j t'
  · rw [hslot]
    exact h.ofSlot_held ht
  · intro j t' hslot' hj
    obtain rfl := Option.some.inj (hslot.symm.trans hslot')
    have hji := h.tokens.apart j i t (by rw [hj]; rfl) ht
    exact hnot (hji ▸ hj)

/-- A value under the key tells that no writer is about to commit. -/
theorem ItemInv.no_claim_of_value (h : ItemInv policy version key w) {raw : String}
    (hslot : w.memory.content key = some raw) (hvalue : isToken raw = false) (j : Nat)
    (t : Token) : w.clients j ≠ .claimed t := by
  refine h.no_claim ?_ ?_ j t
  · intro hmarker
    rw [hslot] at hmarker
    have htext : Content.ofText raw = .conflict := hmarker
    simp [isToken, htext] at hvalue
  · intro i t' hslot' hi
    obtain rfl := Option.some.inj (hslot.symm.trans hslot')
    have htoken := h.isToken_held (i := i) (t := raw) (by rw [hi]; rfl)
    rw [hvalue] at htoken
    cases htoken

theorem ItemInv.counts_vacated (h : ItemInv policy version key w) {slot : Option String}
    (hclaimed : ∀ j t, w.clients j ≠ .claimed t)
    (hslot : ∀ raw, slot = some raw → isToken raw = false) (j : Nat) :
    (w.clients j).Counts version w.current slot := by
  refine (h.clients j).vacant (hclaimed j) fun t ht hs => ?_
  have htoken := h.isToken_held ht
  rw [hslot t hs] at htoken
  cases htoken

/-- The invariant after a client acted, from what everyone else counts on and what it counts on
itself. -/
theorem ItemInv.put (h : ItemInv policy version key w) {m : Memory} {i : Nat} {c : Client α}
    (htokens : (w.put m i c).Tokens) (hlists : ListsSound policy version key m)
    (hclients : ∀ j, j ≠ i → (w.clients j).Counts version w.current (m.content key))
    (hc : c.Counts version w.current (m.content key))
    (hvalue : ∀ raw, m.content key = some raw → isToken raw = false →
      ∃ document, Cacheable.toJson? (version w.current) = some document ∧
        raw = document.compact) :
    ItemInv policy version key (w.put m i c) := by
  refine ⟨htokens, hlists, fun j => ?_, hvalue, h.returned⟩
  rw [World.put_clients]
  split
  · exact hc
  · exact hclients j ‹_›

end Invariant

section Step
variable {w w' : World α} (roles : ItemRoles policy.names version key)
  (hr : cfg.rules = Rules.standard) (hfaithful : ∀ n, Faithful (version n)) {i n : Nat} {t : Token}
include roles hr

include hfaithful in
theorem ItemInv.after_save (h : ItemInv policy version key w)
    (ht : (w.clients i).token? = some t) (hnot : w.clients i ≠ .claimed t)
    (hcurrent : w.memory.content key = some t → n = w.current)
    (hmarker : Content.ofSlot (w.memory.content key) = .conflict →
      ∀ j t', w.clients j ≠ .claimed t')
    {clearCollections : Bool} {extra : List Key} {outcome : SaveOutcome}
    (hsaves : (itemScenario policy version key).saves clearCollections extra)
    (hop : (saveItem policy (version n) t clearCollections extra).on cfg w.memory =
      (outcome, m)) :
    ListsSound policy version key m ∧
      (∀ j, (w.clients j).Counts version w.current (m.content key)) ∧
      ∀ raw, m.content key = some raw → isToken raw = false →
        ∃ document, Cacheable.toJson? (version w.current) = some document ∧
          raw = document.compact := by
  obtain ⟨hlists, heffect⟩ := save_effect roles hr hsaves h.lists hop
  refine ⟨hlists, ?_⟩
  rcases heffect with hsame | ⟨hempty, hbefore⟩ | ⟨hheld, document, hdoc, hstored⟩
  · rw [hsame]
    exact ⟨h.clients, h.value⟩
  · have hclaimed : ∀ j t', w.clients j ≠ .claimed t' := by
      rcases hbefore with hheld | hconflict
      · exact h.no_claim_of_held ht hnot hheld
      · exact hmarker hconflict
    rw [hempty]
    exact ⟨h.counts_vacated hclaimed (fun raw hraw => by cases hraw),
      fun raw hraw => by cases hraw⟩
  · have hn := hcurrent hheld
    subst hn
    rw [hstored]
    refine ⟨fun j => ?_, fun raw hraw _ => ⟨document, hdoc, (Option.some.inj hraw).symm⟩⟩
    refine h.counts_vacated (h.no_claim_of_held ht hnot hheld) (fun raw hraw => ?_) j
    rw [← Option.some.inj hraw]
    exact (hfaithful w.current).isToken_compact hdoc

theorem ItemInv.after_release (h : ItemInv policy version key w)
    (ht : (w.clients i).token? = some t) (hnot : w.clients i ≠ .claimed t) {kind : LockKind}
    (n : Nat) :
    ItemInv policy version key
      (w.put ((releaseItemLock policy kind (version n) t).on cfg w.memory).2 i .idle) := by
  obtain ⟨hlists, heffect⟩ := release_effect (n := n) roles hr h.lists kind
    (h.token_ne_noLock ht)
  have htokens := h.tokens.put_held (c := (.idle : Client α)) (i := i)
    (Operation.on_rest cfg hr (releaseItemLock policy kind (version n) t) w.memory).2
    (by rintro t' ⟨⟩)
  split at heffect
  · rename_i hheld
    refine h.put htokens hlists (fun j _ => ?_) trivial fun raw hraw => ?_
    · rw [heffect]
      exact h.counts_vacated (h.no_claim_of_held ht hnot hheld) (fun raw hraw => by cases hraw) j
    · rw [heffect] at hraw
      cases hraw
  · refine h.put htokens hlists (fun j _ => ?_) trivial ?_
    · rw [heffect]
      exact h.clients j
    · rw [heffect]
      exact h.value

theorem ItemInv.after_claim (h : ItemInv policy version key w)
    (hop : (takeItemLock policy .update (version n)).on cfg w.memory = (.ok t, m))
    (htokens : (w.put m i (if t = Token.noLock then .idle else .claimed t)).Tokens) :
    ItemInv policy version key
      (w.put m i (if t = Token.noLock then .idle else .claimed t)) := by
  obtain ⟨hlists, heffect⟩ := claim_effect roles hr h.lists hop
  rcases heffect with ⟨rfl, hmay, hplaced⟩ | ⟨rfl, hrefused⟩
  · have hne : Token.issue LockKind.update.name w.memory.issued ≠ Token.noLock :=
      Token.issue_ne_noLock _ _
    rw [if_neg hne] at htokens ⊢
    have hfree : ∀ j t', w.clients j ≠ .claimed t' := by
      refine h.no_claim ?_ ?_
      · intro hmarker
        rw [LockKind.mayTake, hmarker] at hmay
        cases hmay
      · intro j t' hslot hj
        have hcounts := h.clients j
        rw [hj] at hcounts
        obtain ⟨⟨k, rfl⟩, -⟩ := hcounts
        rw [LockKind.mayTake, hslot, Content.ofSlot, Content.ofText_issue_lock] at hmay
        cases hmay
    refine h.put htokens hlists (fun j _ => ?_) ⟨⟨_, rfl⟩, .inl hplaced⟩ fun raw hraw hvalue => ?_
    · refine (h.clients j).vacant (hfree j) fun t' ht' hs => ?_
      rw [hplaced] at hs
      exact h.token_ne_new ht' .update (Option.some.inj hs).symm
    · rw [hplaced] at hraw
      rw [← Option.some.inj hraw, Content.isToken_issue_lock] at hvalue
      cases hvalue
  · rw [if_pos rfl] at htokens ⊢
    rcases hrefused with hsame | hmarker
    · refine h.put htokens hlists (fun j _ => ?_) trivial ?_
      · rw [hsame]
        exact h.clients j
      · rw [hsame]
        exact h.value
    · refine h.put htokens hlists (fun j _ => ?_) trivial fun raw hraw hvalue => ?_
      · refine (h.clients j).mono (fun t' _ => .inr hmarker) fun t' ht' hs => ?_
        rw [hs] at hmarker
        exact absurd hmarker (h.ofSlot_held ht')
      · rw [hraw] at hmarker
        have htext : Content.ofText raw = .conflict := hmarker
        simp [isToken, htext] at hvalue

theorem ItemInv.after_read {found : Found α} (h : ItemInv policy version key w)
    (hop : (getItem policy key true : Operation (Found α)).on cfg w.memory = (found, m))
    (htokens : (w.put m i
      (if found.token = Token.noLock then .idle else .missed found.token)).Tokens) :
    ItemInv policy version key
      (w.put m i (if found.token = Token.noLock then .idle else .missed found.token)) := by
  obtain ⟨hlists, heffect⟩ := read_effect roles hr h.lists hop
  have hc (slot : Option String) : Client.Counts version w.current slot
      (if found.token = Token.noLock then .idle else .missed found.token : Client α) := by
    split <;> trivial
  rcases heffect with ⟨-, hsame⟩ | ⟨-, hempty, raw, hraw, hvalue⟩ | ⟨hbefore, htoken, hplaced⟩
  · refine h.put htokens hlists (fun j _ => ?_) (hc _) ?_
    · rw [hsame]
      exact h.clients j
    · rw [hsame]
      exact h.value
  · refine h.put htokens hlists (fun j _ => ?_) (hc _) fun raw' hraw' => ?_
    · rw [hempty]
      exact h.counts_vacated (h.no_claim_of_value hraw hvalue) (fun _ hs => by cases hs) j
    · rw [hempty] at hraw'
      cases hraw'
  · have hfree : ∀ j t', w.clients j ≠ .claimed t' := by
      refine h.no_claim ?_ ?_
      · rw [hbefore]
        exact fun hmarker => by cases hmarker
      · intro j t' hslot
        rw [hbefore] at hslot
        cases hslot
    refine h.put htokens hlists (fun j _ => ?_) (hc _) fun raw hraw hvalue => ?_
    · refine (h.clients j).vacant (hfree j) fun t' ht' hs => ?_
      rw [hplaced, htoken] at hs
      exact h.token_ne_new ht' .read (Option.some.inj hs).symm
    · rw [hplaced, htoken] at hraw
      rw [← Option.some.inj hraw, Content.isToken_issue_lock] at hvalue
      cases hvalue

omit roles hr in
/-- A commit breaks no promise: while its writer's lock or a marker is under the key, nobody else
counts on what was current. -/
theorem ItemInv.after_commit (h : ItemInv policy version key w)
    (hclaimed : w.clients i = .claimed t)
    (htokens : (w.put w.memory i (.committed t (w.current + 1))).Tokens) :
    ItemInv policy version key
      { w.put w.memory i (.committed t (w.current + 1)) with current := w.current + 1 } := by
  have ht : (w.clients i).token? = some t := by
    rw [hclaimed]
    rfl
  have hcounts := h.clients i
  rw [hclaimed] at hcounts
  obtain ⟨hupdate, hslot⟩ := hcounts
  have halone (j : Nat) (hj : j ≠ i) (t' : Token) (ht' : (w.clients j).token? = some t') :
      w.memory.content key ≠ some t' := by
    intro hheld
    rcases hslot with hown | hmarker
    · obtain rfl := Option.some.inj (hown.symm.trans hheld)
      exact hj (h.tokens.apart j i t ht' ht)
    · rw [hheld] at hmarker
      exact h.ofSlot_held ht' hmarker
  refine ⟨⟨htokens.issued, htokens.apart⟩, h.lists, fun j => ?_, fun raw hraw hvalue => ?_,
    Nat.le_succ_of_le h.returned⟩
  · change Client.Counts version (w.current + 1) (w.memory.content key)
      (if j = i then .committed t (w.current + 1) else w.clients j)
    split
    · exact ⟨Nat.le_refl _, fun _ => rfl⟩
    · rename_i hj
      have hcounts := h.clients j
      have hnot := halone j hj
      cases hclient : w.clients j with
      | claimed t' =>
        rw [hclient] at hcounts
        exact hcounts
      | committed t' n' =>
        rw [hclient] at hcounts hnot
        exact ⟨Nat.le_succ_of_le hcounts.1, fun hs => absurd hs (hnot t' rfl)⟩
      | loaded t' found n' =>
        rw [hclient] at hcounts hnot
        exact ⟨hcounts.1, fun hs => absurd hs (hnot t' rfl)⟩
      | filled t' found =>
        rw [hclient] at hcounts
        exact hcounts
      | _ => trivial
  · have hraw : w.memory.content key = some raw := hraw
    exact absurd hclaimed (h.no_claim_of_value hraw hvalue i t)

include hfaithful in
theorem ItemInv.step (h : ItemInv policy version key w) {move : Move}
    (hkept : MarkerKept key w move)
    (hmove : Moves cfg (itemScenario policy version key) w move w') :
    ItemInv policy version key w' := by
  have htokens := hmove.tokens hr h.tokens
  cases hmove with
  | claim n hidle hop => exact h.after_claim roles hr hop htokens
  | commit hclaimed => exact h.after_commit hclaimed ⟨htokens.issued, htokens.apart⟩
  | @save i n t outcome m clearCollections extra hcommitted hsaves hop =>
    have hcounts := h.clients i
    rw [hcommitted] at hcounts
    obtain ⟨hlists, hclients, hvalue⟩ := h.after_save roles hr hfaithful
      (by rw [hcommitted]; rfl) (by rw [hcommitted]; exact fun hc => by cases hc) hcounts.2 hkept
      hsaves hop
    have hput := h.put (c := .saved t) ⟨htokens.issued, htokens.apart⟩ hlists
      (fun j _ => hclients j) trivial hvalue
    exact ⟨htokens, hput.lists, hput.clients, hput.value, Nat.max_le.2 ⟨h.returned, hcounts.1⟩⟩
  | @release i t n hsaved =>
    exact h.after_release roles hr (by rw [hsaved]; rfl)
      (by rw [hsaved]; exact fun hc => by cases hc) n
  | read hidle hop => exact h.after_read roles hr hop htokens
  | @load i t found hmissed hloads =>
    exact h.put htokens h.lists (fun j _ => h.clients j) ⟨hloads, fun _ => rfl⟩ h.value
  | @fill i n t found outcome m hloaded hop =>
    have hcounts := h.clients i
    rw [hloaded] at hcounts
    obtain ⟨rfl, hcurrent⟩ := hcounts
    have hsaves : (itemScenario policy version key).saves false [] :=
      ⟨List.not_mem_nil, fun _ _ _ => List.not_mem_nil⟩
    obtain ⟨hlists, hclients, hvalue⟩ := h.after_save roles hr hfaithful
      (by rw [hloaded]; rfl) (by rw [hloaded]; exact fun hc => by cases hc) hcurrent hkept
      hsaves hop
    exact h.put htokens hlists (fun j _ => hclients j) ⟨n, rfl⟩ hvalue
  | @drop i t found hfilled =>
    have hcounts := h.clients i
    rw [hfilled] at hcounts
    obtain ⟨n, rfl⟩ := hcounts
    exact h.after_release roles hr (by rw [hfilled]; rfl)
      (by rw [hfilled]; exact fun hc => by cases hc) n
  | elapse duration hlasts =>
    have hslot : (w.memory.advance duration).content key = w.memory.content key :=
      Memory.content_of_live? (hlasts key)
    refine ⟨htokens, h.lists.congr hlasts, fun j => ?_, fun raw hraw => ?_, h.returned⟩
    · change (w.clients j).Counts version w.current ((w.memory.advance duration).content key)
      rw [hslot]
      exact h.clients j
    · exact h.value raw (hslot ▸ hraw)

include hfaithful in
theorem ItemInv.run {Permits : World α → Move → Prop}
    (hpermits : ∀ w move, Permits w move → MarkerKept key w move)
    (hrun : Runs cfg (itemScenario policy version key) Permits {} w) :
    ItemInv policy version key w := by
  induction hrun with
  | refl => exact itemInv_start
  | tail hrun hpermit hmove ih =>
    exact ih.step roles hr hfaithful (hpermits _ _ hpermit) hmove

omit roles hr in
include hfaithful in
theorem ItemInv.hit (h : ItemInv policy version key w) {found : α}
    (hhit : Hits cfg (itemScenario policy version key) w found) :
    found = version w.current := by
  unfold Hits at hhit
  rw [itemScenario_read, getItem] at hhit
  split at hhit
  · cases hhit
  cases hc : w.memory.content key with
  | none =>
    rw [fetch_on_empty cfg servableItem w.memory key hc] at hhit
    cases hhit
  | some raw =>
    cases ht : isToken raw with
    | true =>
      rw [fetch_on_token cfg servableItem w.memory hc ht] at hhit
      cases hhit
    | false =>
      obtain ⟨document, hdoc, rfl⟩ := h.value raw hc ht
      rw [fetch_on_value cfg servableItem w.memory hc ht,
        (hfaithful w.current).served hdoc] at hhit
      split at hhit
      · rename_i item hitem
        split at hitem
        · cases hitem
          exact (Option.some.inj hhit).symm
        · cases hitem
      · cases hhit

end Step

end CacheCoherence
