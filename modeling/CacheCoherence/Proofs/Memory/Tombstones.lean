import CacheCoherence.Proofs.Memory.Covers

/-!
# Keys under tombstones

A deletion leaves tombstones behind that are to keep readers out for a while. Reads, read locks and
additions to lists never remove one, and neither do releases and stores, since no token is a
tombstone. What remains are the calls that name a key in order to write it without a look at what it
holds; a call that spares the tombstones of some keys is none of these.
-/
namespace CacheCoherence

/-- What a deletion at an instant leaves under a key. -/
def Slot.grave (cfg : MemorySettings) (since : Nat) : Slot :=
  .lasting since Token.tombstone cfg.tombstoneTtl

theorem Slot.grave_isLive_iff (cfg : MemorySettings) (since now : Nat) :
    (grave cfg since).isLive now = true ↔
      cfg.tombstoneTtl = 0 ∨ now < since + cfg.tombstoneTtl := by
  unfold grave lasting isLive
  by_cases h : cfg.tombstoneTtl = 0 <;> simp [h]

/-- Of two graves the younger one is live whenever the older one is. -/
theorem Slot.grave_outlasts (cfg : MemorySettings) {since later : Nat} (h : since ≤ later) :
    (grave cfg later).Outlasts (grave cfg since) := by
  intro now hlive
  rw [grave_isLive_iff] at hlive ⊢
  omega

namespace Memory
variable {cfg : MemorySettings} {m : Memory} {since : Nat} {ks : List Key} {k : Key}

variable (cfg m since ks) in
/-- A tombstone stands under each of these keys and lasts no shorter than one that was left there
at a given instant. -/
structure Buried : Prop where
  since_le : since ≤ m.now
  slots : ∀ k ∈ ks, ∃ slot, m.live? k = some slot ∧ slot.text = Token.tombstone ∧
    slot.Outlasts (.grave cfg since)

theorem Buried.content (h : m.Buried cfg since ks) (hk : k ∈ ks) :
    m.content k = some Token.tombstone := by
  obtain ⟨slot, hlive, htext, -⟩ := h.slots k hk
  rw [content_eq_live?, hlive, ← htext]
  rfl

/-- Tombstones stay where a store leaves the slots alone or renews them. -/
theorem Buried.congr {m' : Memory} (h : m.Buried cfg since ks) (hnow : m'.now = m.now)
    (hslots : ∀ k ∈ ks, m'.live? k = m.live? k ∨ m'.live? k = some (.grave cfg m.now)) :
    m'.Buried cfg since ks where
  since_le := hnow ▸ h.since_le
  slots := by
    intro k hk
    rcases hslots k hk with hsame | hnew
    · rw [hsame]
      exact h.slots k hk
    · exact ⟨_, hnew, rfl, Slot.grave_outlasts cfg h.since_le⟩

theorem Buried.advance (h : m.Buried cfg since ks) {duration : Nat}
    (hlive : (Slot.grave cfg since).isLive (m.now + duration) = true) :
    (m.advance duration).Buried cfg since ks where
  since_le := Nat.le_trans h.since_le (Nat.le_add_right _ _)
  slots := by
    intro k hk
    obtain ⟨slot, hslot, htext, houtlasts⟩ := h.slots k hk
    refine ⟨slot, ?_, htext, houtlasts⟩
    have hlater : slot.isLive (m.now + duration) = true := houtlasts _ hlive
    unfold live? Slots.live? at hslot ⊢
    rw [Option.filter_eq_some_iff] at hslot ⊢
    exact ⟨hslot.1, hlater⟩

theorem buried_of_deleteValue (m : Memory) (ks : List Key) :
    (m.deleteValue cfg ks true true).memory.Buried cfg m.now ks where
  since_le := Nat.le_refl _
  slots := by
    intro k hk
    refine ⟨.grave cfg m.now, ?_, rfl, Slot.grave_outlasts cfg (Nat.le_refl _)⟩
    rw [live?_deleteValue_forced, if_pos hk]
    rfl

theorem buried_of_clearDependencies (m : Memory) (list : Key) :
    (m.clearDependencies cfg list true).memory.Buried cfg m.now [list] where
  since_le := Nat.le_refl _
  slots := by
    intro k hk
    obtain rfl := List.mem_singleton.1 hk
    refine ⟨.grave cfg m.now, ?_, rfl, Slot.grave_outlasts cfg (Nat.le_refl _)⟩
    rw [live?_clearDependencies, if_pos ((mem_cleared_iff _ _ _).2 (.inr rfl))]
    rfl

variable (m ks) in
/-- A call removes no tombstone from any of these keys. -/
def Spares : Call → Prop
  | .setValue lockKey keys _ token _ =>
    (lockKey ∈ ks ∧ token ≠ Token.tombstone) ∨ (lockKey ∉ ks ∧ ∀ k ∈ keys, k ∉ ks)
  | .deleteValue keys tombstone force =>
    tombstone = true ∨ force = false ∨ ∀ k ∈ keys, k ∉ ks
  | .writeToken kind keys => kind = .read ∨ ∀ k ∈ keys, k ∉ ks
  | .releaseToken keys token => token ≠ Token.tombstone ∨ ∀ k ∈ keys, k ∉ ks
  | .clearDependencies key tombstone => tombstone = true ∨ ∀ k ∈ m.cleared key, k ∉ ks
  | .flush root tombstones => tombstones = false ∨ ∀ k ∈ ks, isUnder root k = false
  | .getValue .. | .getValues .. | .addDependency .. | .registerHandler .. => True

section Perform
variable (h : m.Buried cfg since ks)
include h

theorem Buried.lookup (key : Key) (lock : Bool) :
    (m.lookup cfg key lock).2.Buried cfg since ks := by
  refine h.congr (now_lookup cfg m key lock) fun k hk => .inl ?_
  rw [live?_lookup, if_neg]
  rintro ⟨rfl, -, hempty⟩
  rw [h.content hk] at hempty
  cases hempty

theorem Buried.lookups (reads : List (Key × Bool)) :
    (Memory.lookups cfg reads m).2.Buried cfg since ks := by
  induction reads generalizing m with
  | nil => exact h
  | cons read rest ih =>
    obtain ⟨key, lock⟩ := read
    rw [lookups_cons]
    exact ih (h.lookup key lock)

theorem Buried.lookups_getElem? {reads : List (Key × Bool)} {i : Nat} {lock : Bool}
    (hi : reads[i]? = some (k, lock)) (hk : k ∈ ks) :
    (Memory.lookups cfg reads m).1[i]? = some (.observed (some Token.tombstone)) := by
  induction reads generalizing m i with
  | nil => cases hi
  | cons read rest ih =>
    obtain ⟨key, first⟩ := read
    rw [lookups_cons]
    cases i with
    | zero =>
      obtain ⟨rfl, rfl⟩ := Prod.mk.inj (Option.some.inj hi)
      rw [List.getElem?_cons_zero, lookup_of_content cfg m key first (h.content hk)]
    | succ i => exact ih (h.lookup key first) hi

theorem Buried.setValue (hr : cfg.rules = Rules.standard) {lockKey : Key} {keys : List Key}
    {value : String} {token : Token} {ttl : Nat}
    (hc : m.Spares ks (.setValue lockKey keys value token ttl)) :
    (m.setValue cfg lockKey keys value token ttl).memory.Buried cfg since ks := by
  refine h.congr (setValue_rest cfg m lockKey keys value token ttl hr).1 fun k hk => .inl ?_
  rcases hc with ⟨hlock, htoken⟩ | ⟨hlock, hkeys⟩
  · have hstands := h.content hlock
    have hstore : ¬ m.MayStore lockKey token := by
      rintro ⟨-, hheld, -⟩
      rw [hstands] at hheld
      exact htoken (Option.some.inj hheld).symm
    have hclear : ¬ m.Clears lockKey token := by
      rintro ⟨-, hheld | hconflict⟩
      · rw [hstands] at hheld
        exact htoken (Option.some.inj hheld).symm
      · rw [hstands, Content.ofSlot, Content.ofText_tombstone] at hconflict
        cases hconflict
    rw [live?_setValue_refused cfg keys value ttl hr hstore, if_neg fun hc => hclear hc.2]
  · by_cases hstore : m.MayStore lockKey token
    · rw [live?_setValue_stored cfg keys value ttl hr hstore, if_neg fun hmem => hkeys k hmem hk]
    · rw [live?_setValue_refused cfg keys value ttl hr hstore, if_neg]
      rintro ⟨rfl, -⟩
      exact hlock hk

theorem Buried.deleteValue {keys : List Key} {tombstone force : Bool}
    (hc : m.Spares ks (.deleteValue keys tombstone force)) :
    (m.deleteValue cfg keys tombstone force).memory.Buried cfg since ks := by
  refine h.congr rfl fun k hk => ?_
  rw [live?_deleteValue]
  split
  · rename_i hnamed
    rcases hc with rfl | rfl | hkeys
    · exact .inr rfl
    · have hspared : spared m.now false m.slots k = true := by
        have hcontent : m.slots.content m.now k = some Token.tombstone := h.content hk
        simp [spared, hcontent, Content.isToken_tombstone]
      rw [hspared] at hnamed
      cases hnamed.2
    · exact absurd hk (hkeys k hnamed.1)
  · exact .inl rfl

/-- No read lock is granted over a tombstone, nor is a marker left there. -/
theorem Buried.writeToken (hr : cfg.rules = Rules.standard) {kind : LockKind} {keys : List Key}
    (hc : m.Spares ks (.writeToken kind keys)) :
    (m.writeToken cfg kind keys).memory.Buried cfg since ks := by
  refine h.congr (writeToken_rest cfg m hr kind keys).1 fun k hk => .inl ?_
  by_cases hg : m.Grants kind keys
  · rw [live?_writeToken_granted cfg m hr hg, if_neg]
    intro hnamed
    rcases hc with rfl | hkeys
    · have hmay := hg.2 k hnamed
      rw [h.content hk, LockKind.mayTake, Content.ofSlot, Content.ofText_tombstone] at hmay
      cases hmay
    · exact hkeys k hnamed hk
  · refine ((writeToken_refused cfg m hr hg).2.2.2 k).1 ?_
    rintro ⟨hnamed, rfl, hrival⟩
    rcases hc with hread | hkeys
    · cases hread
    · exact hkeys k hnamed hk

theorem Buried.releaseToken {keys : List Key} {token : Token}
    (hc : m.Spares ks (.releaseToken keys token)) :
    (m.releaseToken keys token).memory.Buried cfg since ks := by
  refine h.congr (releaseToken_rest m keys token).1 fun k hk => .inl ?_
  rw [live?_releaseToken, if_neg]
  rintro ⟨-, hnamed, hheld⟩
  rcases hc with htoken | hkeys
  · rw [h.content hk] at hheld
    exact htoken (Option.some.inj hheld).symm
  · exact hkeys k hnamed hk

theorem Buried.addDependency (lists dependents : List Key) (ttl : Nat) :
    (m.addDependency lists dependents ttl).memory.Buried cfg since ks := by
  refine h.congr (addDependency_rest m lists dependents ttl).1 fun k hk => .inl ?_
  cases ha : (m.addDependency lists dependents ttl).answer with
  | error fault => rw [addDependency_failed m lists dependents ttl ha]
  | ok u =>
    obtain ⟨hout, hin⟩ := addDependency_ok m lists dependents ttl ha k
    refine hout fun hmem => (hin hmem).1 ?_
    exact h.content hk

theorem Buried.clearDependencies {key : Key} {tombstone : Bool}
    (hc : m.Spares ks (.clearDependencies key tombstone)) :
    (m.clearDependencies cfg key tombstone).memory.Buried cfg since ks := by
  refine h.congr rfl fun k hk => ?_
  rw [live?_clearDependencies]
  split
  · rename_i hmem
    rcases hc with rfl | hkeys
    · exact .inr rfl
    · exact absurd hk (hkeys k hmem)
  · exact .inl rfl

theorem Buried.flush {root : String} {tombstones : Bool}
    (hc : m.Spares ks (.flush root tombstones)) :
    (m.flush root tombstones).memory.Buried cfg since ks := by
  refine h.congr rfl fun k hk => .inl ?_
  obtain ⟨slot, hlive, htext, -⟩ := h.slots k hk
  have hstays : (!isUnder root k || (!tombstones && isTombstone slot.text)) = true := by
    have htombstone : isTombstone slot.text = true := by rw [htext, isTombstone]; simp
    rcases hc with rfl | hunder
    · simp [htombstone]
    · simp [hunder k hk]
  rw [live?_flush, hlive, Option.filter, if_pos hstays]

/-- Tombstones outlive every call that spares them. -/
theorem Buried.perform (hr : cfg.rules = Rules.standard) {c : Call} (hc : m.Spares ks c) :
    (m.perform cfg c).memory.Buried cfg since ks := by
  cases c with
  | getValue key lock => exact h.lookup key lock
  | getValues keys locks =>
    change (m.getValues cfg keys locks).memory.Buried cfg since ks
    rw [getValues_memory]
    split
    · exact h.lookups _
    · exact h
  | setValue lockKey keys value token ttl => exact h.setValue hr hc
  | deleteValue keys tombstone force => exact h.deleteValue hc
  | writeToken kind keys => exact h.writeToken hr hc
  | releaseToken keys token => exact h.releaseToken hc
  | addDependency lists dependents ttl => exact h.addDependency lists dependents ttl
  | clearDependencies key tombstone => exact h.clearDependencies hc
  | flush root tombstones => exact h.flush hc
  | registerHandler key handler => exact h.congr rfl fun k hk => .inl rfl

end Perform

end Memory
end CacheCoherence
