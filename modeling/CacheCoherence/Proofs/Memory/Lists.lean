import CacheCoherence.Proofs.Memory.Frame

/-!
# Slots that serve as dependency lists

As long as a key serves as a dependency list only, its slot is empty, a tombstone or a list of the
keys that were registered there. So the list can be read whenever it is needed: clearing it reaches
all its members, and adding to it fails only at a tombstone.
-/
namespace CacheCoherence
namespace Memory
variable {cfg : MemorySettings} {m : Memory} {P : Key → Prop} {list : Key}

variable (m P list) in
/-- The slot is empty, a tombstone or an expiring list whose members all have a property. -/
def ListsOnly : Prop :=
  ∀ slot, m.live? list = some slot →
    slot.text = Token.tombstone ∨
      ∃ members : KeySet, slot.text = DependencyList.encode members ∧
        (∀ k, members.get? k = some () → P k) ∧ slot.deadline.isSome = true

theorem ListsOnly.mono {Q : Key → Prop} (h : m.ListsOnly P list) (hPQ : ∀ k, P k → Q k) :
    m.ListsOnly Q list := by
  intro slot hslot
  rcases h slot hslot with htombstone | ⟨members, htext, hmembers, hexpires⟩
  · exact .inl htombstone
  · exact .inr ⟨members, htext, fun k hk => hPQ k (hmembers k hk), hexpires⟩

theorem listText_of_encode {members : KeySet}
    (h : m.content list = some (DependencyList.encode members)) :
    m.listText list = some (DependencyList.encode members) := by
  rw [listText, h]
  simp [Option.filter, DependencyList.isToken_encode]

theorem listText_of_tombstone (h : m.content list = some Token.tombstone) :
    m.listText list = none := by
  rw [listText, h]
  simp [Option.filter, Content.isToken_tombstone]

theorem listText_of_empty (h : m.content list = none) : m.listText list = none := by
  rw [listText, h]
  rfl

theorem decoded_of_encode {members : KeySet}
    (h : m.content list = some (DependencyList.encode members)) :
    m.decoded list = .ok members := by
  rw [decoded, listText_of_encode h]
  exact DependencyList.decode_encode list members

/-- A list that serves as nothing else can be read. -/
theorem ListsOnly.decoded (h : m.ListsOnly P list) :
    ∃ members, m.decoded list = .ok members ∧ ∀ k, members.get? k = some () → P k := by
  cases hlive : m.live? list with
  | none =>
    have hempty := listText_of_empty ((live?_eq_none_iff m list).1 hlive)
    refine ⟨.empty, by rw [Memory.decoded, hempty], fun k hk => ?_⟩
    rw [Table.get?_empty] at hk
    cases hk
  | some slot =>
    have hcontent : m.content list = some slot.text := by
      rw [content_eq_live?, hlive]
      rfl
    rcases h slot hlive with htombstone | ⟨members, htext, hmembers, -⟩
    · rw [htombstone] at hcontent
      refine ⟨.empty, by rw [Memory.decoded, listText_of_tombstone hcontent], fun k hk => ?_⟩
      rw [Table.get?_empty] at hk
      cases hk
    · rw [htext] at hcontent
      exact ⟨members, decoded_of_encode hcontent, hmembers⟩

theorem ListsOnly.of_mem_cleared (h : m.ListsOnly P list) {k : Key} (hk : k ∈ m.cleared list) :
    P k ∨ k = list := by
  obtain ⟨members, hdecoded, hmembers⟩ := h.decoded
  rcases (mem_cleared_iff m list k).1 hk with ⟨set, hset, hmem⟩ | rfl
  · rw [hdecoded] at hset
    cases hset
    exact .inl (hmembers k hmem)
  · exact .inr rfl

theorem isSome_deadline_lasting {now ttl : Nat} {text : String} (h : ttl ≠ 0) :
    (Slot.lasting now text ttl).deadline.isSome = true := by
  simp [Slot.lasting, h]

theorem listTtl_ne_zero {ttl : Nat} (h : ttl ≠ 0) : m.listTtl list ttl ≠ 0 := by
  unfold listTtl
  split
  · split <;> omega
  · exact h

/-- What the text of a list is after dependents were added to it. -/
theorem ListsOnly.merged (h : m.ListsOnly P list) {dependents : List Key} {text : String}
    (hmerge : DependencyList.merge list (m.listText list) dependents = .ok text) :
    ∃ members : KeySet, text = DependencyList.encode members ∧
      (∀ k ∈ dependents, members.get? k = some ()) ∧
      ∀ k, members.get? k = some () → P k ∨ k ∈ dependents := by
  have hnew (text : String) (htext : .ok text = DependencyList.merge list none dependents) :
      ∃ members : KeySet, text = DependencyList.encode members ∧
        (∀ k ∈ dependents, members.get? k = some ()) ∧
        ∀ k, members.get? k = some () → P k ∨ k ∈ dependents := by
    cases htext
    refine ⟨KeySet.ofList dependents, rfl, fun k hk => ?_, fun k hk => ?_⟩
    · rw [KeySet.ofList, KeySet.get?_addAll, if_pos hk]
    · rw [KeySet.ofList, KeySet.get?_addAll, Table.get?_empty] at hk
      split at hk
      · exact .inr ‹_›
      · cases hk
  cases hlive : m.live? list with
  | none =>
    rw [listText_of_empty ((live?_eq_none_iff m list).1 hlive)] at hmerge
    exact hnew text hmerge.symm
  | some slot =>
    have hcontent : m.content list = some slot.text := by
      rw [content_eq_live?, hlive]
      rfl
    rcases h slot hlive with htombstone | ⟨members, htext, hmembers, -⟩
    · rw [htombstone] at hcontent
      rw [listText_of_tombstone hcontent] at hmerge
      exact hnew text hmerge.symm
    · rw [htext] at hcontent
      rw [listText_of_encode hcontent, DependencyList.merge_encode] at hmerge
      cases hmerge
      refine ⟨members.addAll dependents, rfl, fun k hk => ?_, fun k hk => ?_⟩
      · rw [KeySet.get?_addAll, if_pos hk]
      · rw [KeySet.get?_addAll] at hk
        split at hk
        · exact .inr ‹_›
        · exact .inl (hmembers k hk)

variable (m) in
/-- The slot of a list spells a list that a key is on. -/
def Lists (list k : Key) : Prop :=
  ∃ members : KeySet, m.content list = some (DependencyList.encode members) ∧
    members.get? k = some ()

theorem Lists.mem_cleared {k : Key} (h : m.Lists list k) : k ∈ m.cleared list := by
  obtain ⟨members, hcontent, hmem⟩ := h
  exact (mem_cleared_iff m list k).2 (.inl ⟨members, decoded_of_encode hcontent, hmem⟩)

theorem Lists.congr {m' : Memory} {k : Key} (h : m.Lists list k)
    (hsame : m'.live? list = m.live? list) : m'.Lists list k := by
  obtain ⟨members, hcontent, hmem⟩ := h
  exact ⟨members, (content_of_live? hsame).trans hcontent, hmem⟩

/-- Additions to a list take nobody off it. -/
theorem Lists.addDependency {k : Key} (h : m.Lists list k) (lists dependents : List Key)
    (ttl : Nat) : (m.addDependency lists dependents ttl).memory.Lists list k := by
  cases ha : (m.addDependency lists dependents ttl).answer with
  | error fault =>
    rw [addDependency_failed m lists dependents ttl ha]
    exact h
  | ok u =>
    obtain ⟨hout, hin⟩ := addDependency_ok m lists dependents ttl ha list
    by_cases hmem : list ∈ lists
    · obtain ⟨-, text, hmerge, hlive⟩ := hin hmem
      obtain ⟨members, hcontent, hk⟩ := h
      rw [listText_of_encode hcontent, DependencyList.merge_encode] at hmerge
      cases hmerge
      refine ⟨members.addAll dependents, content_of_live?_lasting hlive, ?_⟩
      rw [KeySet.get?_addAll, hk]
      split <;> rfl
    · exact h.congr (hout hmem)

/-- Whoever was added to a list is on it. -/
theorem ListsOnly.lists_of_added (h : m.ListsOnly P list) {lists dependents : List Key} {ttl : Nat}
    (ha : (m.addDependency lists dependents ttl).answer = .ok ()) (hlist : list ∈ lists) {k : Key}
    (hk : k ∈ dependents) : (m.addDependency lists dependents ttl).memory.Lists list k := by
  obtain ⟨-, text, hmerge, hlive⟩ := (addDependency_ok m lists dependents ttl ha list).2 hlist
  obtain ⟨members, rfl, hadded, -⟩ := h.merged hmerge
  exact ⟨members, content_of_live?_lasting hlive, hadded k hk⟩

/-- A call that does not name a list in another role, and registers only keys of the wanted kind
there, leaves it a list. -/
theorem ListsOnly.perform (hr : cfg.rules = Rules.standard) {c : Call} (h : m.ListsOnly P list)
    (hslot : list ∉ c.slots)
    (hadd : ∀ lists dependents ttl, c = .addDependency lists dependents ttl → list ∈ lists →
      ttl ≠ 0 ∧ ∀ k ∈ dependents, P k) :
    (m.perform cfg c).memory.ListsOnly P list := by
  intro slot hlive
  rcases live?_list hr hslot with hkept | ⟨-, tombstone, -, -, hleft⟩ |
    ⟨-, tombstones, -, -, hflush⟩ | ⟨lists, dependents, ttl, text, hc, hmem, -, hmerge, hnew⟩
  · rw [hkept] at hlive
    exact h slot hlive
  · rw [hleft] at hlive
    cases tombstone with
    | true =>
      cases hlive
      exact .inl rfl
    | false => cases hlive
  · rw [hflush, Option.filter_eq_some_iff] at hlive
    exact h slot hlive.1
  · obtain ⟨httl, hdependents⟩ := hadd lists dependents ttl hc hmem
    obtain ⟨members, rfl, -, hmembers⟩ := h.merged hmerge
    rw [hnew] at hlive
    cases hlive
    refine .inr ⟨members, rfl, fun k hk => ?_, isSome_deadline_lasting (listTtl_ne_zero httl)⟩
    rcases hmembers k hk with hP | hdependent
    · exact hP
    · exact hdependents k hdependent

theorem ListsOnly.content (h : m.ListsOnly P list) {raw : String}
    (hcontent : m.content list = some raw) :
    raw = Token.tombstone ∨ ∃ members : KeySet, raw = DependencyList.encode members ∧
      ∀ k, members.get? k = some () → P k := by
  rw [content_eq_live?, Option.map_eq_some_iff] at hcontent
  obtain ⟨slot, hlive, rfl⟩ := hcontent
  rcases h slot hlive with htombstone | ⟨members, htext, hmembers, -⟩
  · exact .inl htombstone
  · exact .inr ⟨members, htext, hmembers⟩

/-- Without the clearing of a list for good, no tombstone comes to stand in a list's slot. -/
theorem content_ne_tombstone_perform (hr : cfg.rules = Rules.standard) {c : Call}
    (h : m.content list ≠ some Token.tombstone) (hslot : list ∉ c.slots)
    (hclear : ∀ key, c ≠ .clearDependencies key true) :
    (m.perform cfg c).memory.content list ≠ some Token.tombstone := by
  intro htombstone
  rw [content_eq_live?, Option.map_eq_some_iff] at htombstone
  obtain ⟨slot, hlive, htext⟩ := htombstone
  have hno : m.live? list ≠ some slot := by
    intro hm
    refine h ?_
    rw [content_eq_live?, hm, ← htext]
    rfl
  rcases live?_list hr hslot with hkept | ⟨key, tombstone, hc, -, hleft⟩ |
    ⟨-, tombstones, -, -, hflush⟩ | ⟨lists, dependents, ttl, text, -, -, -, hmerge, hnew⟩
  · exact hno (hkept ▸ hlive)
  · cases tombstone with
    | true => exact hclear key hc
    | false =>
      rw [hleft] at hlive
      cases hlive
  · rw [hflush, Option.filter_eq_some_iff] at hlive
    exact hno hlive.1
  · rw [hnew] at hlive
    have hsame : slot.text = text := congrArg Slot.text (Option.some.inj hlive).symm
    have htoken := DependencyList.isToken_of_merge hmerge
    rw [← hsame, htext, Content.isToken_tombstone] at htoken
    cases htoken

theorem merge_of_decoded {members : KeySet} (h : m.decoded list = .ok members)
    (dependents : List Key) :
    ∃ text, DependencyList.merge list (m.listText list) dependents = .ok text := by
  unfold Memory.decoded at h
  cases htext : m.listText list with
  | none => exact ⟨_, rfl⟩
  | some raw =>
    rw [htext] at h
    have hdecode : DependencyList.decode list raw = .ok members := h
    rw [DependencyList.merge, hdecode]
    exact ⟨_, rfl⟩

theorem addDependency_fault {lists dependents : List Key} {ttl : Nat} {fault : Fault}
    (h : ∀ list ∈ lists, ∃ members, m.decoded list = .ok members)
    (ha : (m.addDependency lists dependents ttl).answer = .error fault) :
    ∃ list ∈ lists, fault = .tombstoned list ∧ m.content list = some Token.tombstone := by
  have hmap : ∃ updates, lists.mapM (m.extended dependents ttl) = .ok updates := by
    clear ha
    induction lists with
    | nil => exact ⟨[], rfl⟩
    | cons list rest ih =>
      obtain ⟨updates, hrest⟩ := ih fun l hl => h l (List.mem_cons_of_mem _ hl)
      obtain ⟨members, hdecoded⟩ := h list List.mem_cons_self
      obtain ⟨text, htext⟩ := merge_of_decoded hdecoded dependents
      refine ⟨(list, text, m.listTtl list ttl) :: updates, ?_⟩
      rw [List.mapM_cons, extended, htext, hrest]
      rfl
  obtain ⟨updates, hupdates⟩ := hmap
  unfold addDependency at ha
  cases hfind : lists.find? fun k => (m.content k).any isTombstone with
  | some list =>
    rw [hfind] at ha
    refine ⟨list, List.mem_of_find?_eq_some hfind, (Except.error.inj ha).symm, ?_⟩
    have htombstone := List.find?_some hfind
    rw [Option.any_eq_true] at htombstone
    obtain ⟨raw, hraw, hstands⟩ := htombstone
    rw [hraw, show raw = Token.tombstone by simpa [isTombstone] using hstands]
  | none =>
    rw [hfind, hupdates] at ha
    cases ha

/-- Adding to lists that serve as nothing else and hold no tombstone never fails. -/
theorem addDependency_answer_ok {lists : List Key}
    (h : ∀ list ∈ lists, m.ListsOnly P list ∧ m.content list ≠ some Token.tombstone)
    (dependents : List Key) (ttl : Nat) :
    (m.addDependency lists dependents ttl).answer = .ok () := by
  cases ha : (m.addDependency lists dependents ttl).answer with
  | ok u => rfl
  | error fault =>
    have hdecoded (list : Key) (hlist : list ∈ lists) :
        ∃ members, m.decoded list = .ok members := by
      obtain ⟨members, hmembers, -⟩ := (h list hlist).1.decoded
      exact ⟨members, hmembers⟩
    obtain ⟨list, hlist, -, htombstone⟩ := addDependency_fault hdecoded ha
    exact absurd htombstone (h list hlist).2

end Memory
end CacheCoherence
