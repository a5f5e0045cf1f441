import CacheCoherence.Proofs.Memory.Lists

/-!
# Values within reach of a dependency list

A list covers a slot if it has the slot's key on it and is live for as long as the slot. Adding to
lists preserves that, whatever lifetime is asked for, and so does everything that names the list in
no other role. Only clearing the list and flushing the namespace end it, and both take a value under
the key away.
-/
namespace CacheCoherence

/-- Whenever another slot is live, this one is. -/
def Slot.Outlasts (s s' : Slot) : Prop := ∀ now, s'.isLive now = true → s.isLive now = true

theorem Slot.Outlasts.trans {s s' s'' : Slot} (h : s.Outlasts s') (h' : s'.Outlasts s'') :
    s.Outlasts s'' := fun now hlive => h now (h' now hlive)

theorem Slot.lasting_outlasts (now : Nat) (text text' : String) {ttl ttl' : Nat} (h : ttl' ≠ 0)
    (hle : ttl' ≤ ttl) : (lasting now text ttl).Outlasts (lasting now text' ttl') := by
  intro later hlive
  have hne : ttl ≠ 0 := by omega
  simp only [lasting, isLive, h, hne, if_false, decide_eq_true_eq] at hlive ⊢
  omega

def Call.Stores : Call → Prop
  | .setValue .. => True
  | _ => False

/-- A call that takes whole lists of slots away. -/
def Call.Sweeps : Call → Prop
  | .clearDependencies .. | .flush .. => True
  | _ => False

/-- A call uses keys in one role each: dependency lists as lists, other keys as slots. What it
flushes is one namespace. -/
structure Call.Respects (isList : Key → Prop) (root : String) (c : Call) : Prop where
  slots : ∀ k ∈ c.slots, ¬ isList k
  adds : ∀ lists dependents ttl, c = .addDependency lists dependents ttl →
    ttl ≠ 0 ∧ (∀ k ∈ lists, isList k) ∧ ∀ k ∈ dependents, ¬ isList k
  clears : ∀ key tombstone, c = .clearDependencies key tombstone → isList key
  flushes : ∀ root' tombstones, c = .flush root' tombstones → root' = root

namespace Memory
variable {cfg : MemorySettings} {m m' m'' : Memory} {list k : Key} {slot : Slot}

section Values

variable (m k) in
/-- What a slot holds, if anything, is a token. -/
def Valueless : Prop := ∀ raw, m.content k = some raw → isToken raw = true

variable (m m' k) in
/-- No value was written under a key between two states. -/
def Unwritten : Prop := m'.live? k = m.live? k ∨ m'.Valueless k

theorem Unwritten.valueless (h : m.Unwritten m' k) (hnone : m.Valueless k) : m'.Valueless k := by
  rcases h with hsame | hnone'
  · intro raw hraw
    exact hnone raw ((content_of_live? hsame).symm.trans hraw)
  · exact hnone'

theorem Unwritten.trans (h : m.Unwritten m' k) (h' : m'.Unwritten m'' k) : m.Unwritten m'' k := by
  rcases h with hsame | hnone
  · rcases h' with hsame' | hnone'
    · exact .inl (hsame'.trans hsame)
    · exact .inr hnone'
  · exact .inr (h'.valueless hnone)

theorem valueless_of_empty (h : m.live? k = none) : m.Valueless k := by
  intro raw hraw
  rw [(live?_eq_none_iff m k).1 h] at hraw
  cases hraw

theorem valueless_of_token {now ttl : Nat} {token : Token} (ht : isToken token = true)
    (h : m.live? k = some (.lasting now token ttl)) : m.Valueless k := by
  intro raw hraw
  rw [content_of_live?_lasting h] at hraw
  rw [← Option.some.inj hraw]
  exact ht

variable (cfg) in
theorem valueless_of_leftover {tombstone : Bool} (h : m.live? k = leftover cfg m.now tombstone) :
    m.Valueless k := by
  cases tombstone with
  | true => exact valueless_of_token Content.isToken_tombstone h
  | false => exact valueless_of_empty h

theorem not_valueless (h : m.live? k = some slot) (hvalue : isToken slot.text = false) :
    ¬ m.Valueless k := by
  intro hnone
  have hcontent : m.content k = some slot.text := by
    rw [content_eq_live?, h]
    rfl
  rw [hnone slot.text hcontent] at hvalue
  cases hvalue

theorem live?_of_unwritten (h : m.Unwritten m' k) (hlive : m'.live? k = some slot)
    (hvalue : isToken slot.text = false) : m.live? k = some slot := by
  rcases h with hsame | hnone
  · exact hsame.symm.trans hlive
  · exact absurd hnone (not_valueless hlive hvalue)

/-- Only a store writes values, lists apart. -/
theorem unwritten_perform (hr : cfg.rules = Rules.standard) {c : Call} (hc : ¬ c.Stores)
    (hadd : ∀ lists dependents ttl, c = .addDependency lists dependents ttl → k ∉ lists) :
    m.Unwritten (m.perform cfg c).memory k := by
  cases hlive : (m.perform cfg c).memory.live? k with
  | none => exact .inr (valueless_of_empty hlive)
  | some slot =>
    rcases live?_perform_cases hr hlive with hsame | ⟨content, hne, hspells⟩ |
      ⟨lockKey, keys, token, ttl, rfl, -⟩ | ⟨lists, dependents, ttl, rfl, hmem, -⟩
    · exact .inl (hlive.trans hsame.symm)
    · refine .inr fun raw hraw => ?_
      rw [content_eq_live?, hlive] at hraw
      rw [← Option.some.inj hraw]
      exact hspells.isToken_iff.2 hne
    · exact absurd trivial hc
    · exact absurd hmem (hadd lists dependents ttl rfl)

end Values

section Covers

variable (m list k slot) in
/-- A list has a key on it and is live for as long as a slot. -/
def Covers : Prop :=
  ∃ (listed : Slot) (members : KeySet), m.live? list = some listed ∧
    listed.text = DependencyList.encode members ∧ members.get? k = some () ∧ listed.Outlasts slot

theorem Covers.lists (h : m.Covers list k slot) : m.Lists list k := by
  obtain ⟨listed, members, hlive, htext, hmem, -⟩ := h
  refine ⟨members, ?_, hmem⟩
  rw [content_eq_live?, hlive, ← htext]
  rfl

/-- Clearing a list leaves no value under a key that it covers. -/
theorem Covers.valueless_of_cleared (h : m.Covers list k slot) (tombstone : Bool) :
    (m.clearDependencies cfg list tombstone).memory.Valueless k := by
  have hgone := live?_clearDependencies cfg m list tombstone k
  rw [if_pos h.lists.mem_cleared] at hgone
  exact valueless_of_leftover cfg hgone

theorem Covers.congr (h : m.Covers list k slot) (hsame : m'.live? list = m.live? list) :
    m'.Covers list k slot := by
  obtain ⟨listed, members, hlive, hrest⟩ := h
  exact ⟨listed, members, hsame.trans hlive, hrest⟩

theorem Covers.advance (h : m.Covers list k slot) {duration : Nat}
    (hlive : slot.isLive (m.now + duration) = true) : (m.advance duration).Covers list k slot := by
  obtain ⟨listed, members, hlisted, htext, hmem, houtlasts⟩ := h
  refine ⟨listed, members, ?_, htext, hmem, houtlasts⟩
  have hlater : listed.isLive (m.now + duration) = true := houtlasts _ hlive
  unfold live? Slots.live? at hlisted ⊢
  rw [Option.filter_eq_some_iff] at hlisted ⊢
  exact ⟨hlisted.1, hlater⟩

theorem extendedSlot_outlasts (m : Memory) (list : Key) (text : String) {ttl : Nat}
    (httl : ttl ≠ 0) :
    (∀ text', (m.extendedSlot ttl list text).Outlasts (.lasting m.now text' ttl)) ∧
      ∀ listed, m.live? list = some listed → listed.deadline.isSome = true →
        (m.extendedSlot ttl list text).Outlasts listed := by
  constructor
  · intro text'
    refine Slot.lasting_outlasts m.now text text' httl ?_
    unfold listTtl
    split
    · split <;> omega
    · exact Nat.le_refl _
  · intro listed hlive hexpires later hlater
    obtain ⟨deadline, hdeadline⟩ := Option.isSome_iff_exists.1 hexpires
    have hget : m.slots.get? list = some listed := (Option.filter_eq_some_iff.1 hlive).1
    have hne : m.listTtl list ttl ≠ 0 := listTtl_ne_zero httl
    have hle : deadline ≤ m.now + m.listTtl list ttl := by
      rw [listTtl, hget, Option.bind_some, hdeadline]
      simp only
      split <;> omega
    rw [Slot.isLive, hdeadline, decide_eq_true_eq] at hlater
    simp only [extendedSlot, Slot.lasting, Slot.isLive, hne, if_false, decide_eq_true_eq]
    omega

variable {P : Key → Prop}

theorem ListsOnly.covers_of_added (h : m.ListsOnly P list) {lists dependents : List Key} {ttl : Nat}
    (httl : ttl ≠ 0) (ha : (m.addDependency lists dependents ttl).answer = .ok ())
    (hlist : list ∈ lists) (hk : k ∈ dependents) (text : String) :
    (m.addDependency lists dependents ttl).memory.Covers list k (.lasting m.now text ttl) := by
  obtain ⟨-, merged, hmerge, hlive⟩ := (addDependency_ok m lists dependents ttl ha list).2 hlist
  obtain ⟨members, rfl, hadded, -⟩ := h.merged hmerge
  exact ⟨_, members, hlive, rfl, hadded k hk, (extendedSlot_outlasts m list _ httl).1 text⟩

/-- Additions to a list shorten no cover. -/
theorem Covers.addDependency (h : m.Covers list k slot) (honly : m.ListsOnly P list)
    (lists dependents : List Key) {ttl : Nat} (httl : ttl ≠ 0) :
    (m.addDependency lists dependents ttl).memory.Covers list k slot := by
  cases ha : (m.addDependency lists dependents ttl).answer with
  | error fault =>
    rw [addDependency_failed m lists dependents ttl ha]
    exact h
  | ok u =>
    obtain ⟨hout, hin⟩ := addDependency_ok m lists dependents ttl ha list
    by_cases hmem : list ∈ lists
    · obtain ⟨-, text, hmerge, hlive⟩ := hin hmem
      obtain ⟨listed, members, hlisted, htext, hk, houtlasts⟩ := h
      have hcontent : m.content list = some (DependencyList.encode members) := by
        rw [content_eq_live?, hlisted, ← htext]
        rfl
      rw [listText_of_encode hcontent, DependencyList.merge_encode] at hmerge
      cases hmerge
      have hexpires : listed.deadline.isSome = true := by
        rcases honly listed hlisted with htombstone | ⟨-, -, -, hexpires⟩
        · have htoken := DependencyList.isToken_encode members
          rw [← htext, htombstone, Content.isToken_tombstone] at htoken
          cases htoken
        · exact hexpires
      refine ⟨_, members.addAll dependents, hlive, rfl, ?_,
        ((extendedSlot_outlasts m list _ httl).2 listed hlisted hexpires).trans houtlasts⟩
      rw [KeySet.get?_addAll, hk]
      split <;> rfl
    · exact h.congr (hout hmem)

end Covers

section Perform
variable {isList : Key → Prop} {root : String} {c : Call}

/-- The keys that serve as dependency lists serve as nothing else. -/
def Roles (isList : Key → Prop) (m : Memory) : Prop :=
  ∀ list, isList list → m.ListsOnly (fun k => ¬ isList k) list

theorem Roles.perform (hr : cfg.rules = Rules.standard) (hc : c.Respects isList root)
    (h : m.Roles isList) : (m.perform cfg c).memory.Roles isList := by
  intro list hlist
  refine (h list hlist).perform hr (fun hmem => hc.slots list hmem hlist) ?_
  intro lists dependents ttl hadd _
  obtain ⟨httl, -, hdependents⟩ := hc.adds lists dependents ttl hadd
  exact ⟨httl, hdependents⟩

variable (hr : cfg.rules = Rules.standard) (hc : c.Respects isList root) (hroles : m.Roles isList)
  (hlist : isList list)
include hr hc hroles hlist

/-- Nothing but the clearing of lists and flushes ends a cover. -/
theorem Covers.perform (hsweep : ¬ c.Sweeps) (h : m.Covers list k slot) :
    (m.perform cfg c).memory.Covers list k slot := by
  have hslot : list ∉ c.slots := fun hmem => hc.slots list hmem hlist
  cases c with
  | addDependency lists dependents ttl =>
    exact h.addDependency (hroles list hlist) lists dependents (hc.adds _ _ _ rfl).1
  | clearDependencies key tombstone => exact absurd trivial hsweep
  | flush root' tombstones => exact absurd trivial hsweep
  | _ =>
    refine h.congr (live?_perform_of_not_mem hr hslot ?_ ?_ ?_)
    · rintro _ _ _ ⟨⟩
    · rintro _ _ ⟨⟩
    · rintro _ _ ⟨⟩

/-- A call that ends a cover takes the value away. -/
theorem Covers.perform_or_valueless (hk : isUnder root k = true) (hstore : ¬ c.Stores)
    (hkey : ¬ isList k) (h : m.Covers list k slot ∨ m.Valueless k) :
    (m.perform cfg c).memory.Covers list k slot ∨ (m.perform cfg c).memory.Valueless k := by
  have hunwritten : m.Unwritten (m.perform cfg c).memory k :=
    unwritten_perform hr hstore fun lists dependents ttl hadd hmem =>
      hkey ((hc.adds lists dependents ttl hadd).2.1 k hmem)
  rcases h with hcovers | hnone
  · cases c with
    | clearDependencies key tombstone =>
      change (m.clearDependencies cfg key tombstone).memory.Covers list k slot ∨
        (m.clearDependencies cfg key tombstone).memory.Valueless k
      have hlive := live?_clearDependencies cfg m key tombstone
      by_cases hmem : list ∈ m.cleared key
      · -- Lists are on no list, so the list is cleared as such and reaches the key.
        have hself : list = key :=
          ((hroles key (hc.clears _ _ rfl)).of_mem_cleared hmem).resolve_left
            fun hnot => hnot hlist
        have hgone := hlive k
        rw [if_pos (hself ▸ hcovers.lists.mem_cleared)] at hgone
        exact .inr (valueless_of_leftover cfg hgone)
      · have hkept := hlive list
        rw [if_neg hmem] at hkept
        exact .inl (hcovers.congr hkept)
    | flush root' tombstones =>
      obtain rfl := hc.flushes root' tombstones rfl
      change _ ∨ (m.flush root' tombstones).memory.Valueless k
      right
      intro raw hraw
      have hlive := live?_flush m root' tombstones k
      rw [content_eq_live?, hlive, Option.map_eq_some_iff] at hraw
      obtain ⟨s, hs, rfl⟩ := hraw
      rw [Option.filter_eq_some_iff] at hs
      have htombstone : isTombstone s.text = true := by
        have hpred := hs.2
        rw [hk] at hpred
        cases ht : isTombstone s.text with
        | true => rfl
        | false =>
          rw [ht] at hpred
          simp at hpred
      have htext : s.text = Token.tombstone := by simpa [isTombstone] using htombstone
      rw [htext]
      exact Content.isToken_tombstone
    | setValue lockKey keys value token ttl => exact absurd trivial hstore
    | _ =>
      left
      exact hcovers.perform hr hc hroles hlist fun hsweep => hsweep
  · exact .inr (hunwritten.valueless hnone)

end Perform

end Memory
end CacheCoherence
