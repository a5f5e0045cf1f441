import CacheCoherence.Proofs.Library.Deletions
import CacheCoherence.Proofs.Library.SavedValues

/-!
# Deleted owners keep their dependents out

A delete lock on an item leaves a tombstone in the item's dependency list, too, and takes away every
value that the list covers. While the tombstone stands nothing can be registered there. So whatever
depends on the item stays out of the cache: what was saved before is gone, and what is saved later
is removed again.
-/
namespace CacheCoherence
open Operation
variable {cfg : MemorySettings} {policy : Policy} {isList : Key → Prop} {m m' : Memory}
  {list k : Key} {slot : Slot} {since : Nat}

section Tombstone

/-- A call to a store takes the tombstone of a list away. -/
def Call.Reopens (list : Key) : Call → Prop
  | .clearDependencies key tombstone => key = list ∧ tombstone = false
  | .flush _ tombstones => tombstones = true
  | _ => False

namespace LibraryCall

/-- A change of an item that owns the list, or a flush of tombstones, opens a list again. -/
def Reopens (policy : Policy) (list : Key) : LibraryCall → Prop
  | .saveItem item _ clearCollections _ =>
    clearCollections = true ∧ Cacheable.dependenciesKey? policy.names item = some list
  | .flush tombstones => tombstones = true
  | _ => False

theorem not_reopens_parts {c part : LibraryCall} (h : ¬ c.Reopens policy list)
    (hpart : part ∈ c.parts) : ¬ part.Reopens policy list := by
  cases c with
  | saveMembers items =>
    obtain ⟨item, -, rfl⟩ := List.mem_map.1 hpart
    exact fun hreopens => hreopens
  | _ =>
    rw [List.mem_singleton.1 hpart]
    exact h

end LibraryCall

theorem calls_saveItem_notReopens {α : Type} [Cacheable α] (item : α) (token : Token)
    {clearCollections : Bool} (extra : List Key)
    (h : ¬ (clearCollections = true ∧ Cacheable.dependenciesKey? policy.names item = some list)) :
    Calls (fun q => ¬ q.Reopens list) (saveItem policy item token clearCollections extra) := by
  refine calls_saveItem policy item token clearCollections extra (fun value hq => hq)
    (fun _ q hq => ?_) fun hq => hq
  cases q with
  | clearDependencies key tombstone =>
    rintro ⟨rfl, -⟩
    exact h ⟨hq.1, hq.2.1⟩
  | flush root tombstones => cases hq
  | _ => exact fun hreopens => hreopens

theorem calls_saveMember_notReopens {α : Type} [Cacheable α] (item : α) :
    Calls (fun q => ¬ q.Reopens list) (saveMember policy item) :=
  calls_saveMember item (fun hq => hq) (fun _ hq => hq) fun token =>
    calls_saveItem_notReopens item token [] fun h => by cases h.1

theorem LibraryCall.calls_notReopens {c : LibraryCall} (h : ¬ c.Reopens policy list) :
    Calls (fun q => ¬ q.Reopens list) (c.operation policy) := by
  cases c with
  | takeItemLock kind item =>
    exact calls_takeItemLock policy item (fun hq => hq) (fun _ _ _ hq => by cases hq.2)
      fun _ hq => hq
  | releaseItemLock kind item token =>
    exact calls_releaseItemLock policy kind item token fun hq => hq
  | takeCollectionLock kind item extra => exact calls_takeCollectionLock fun hq => hq
  | releaseCollectionLock kind item extra token =>
    exact calls_releaseCollectionLock token fun hq => hq
  | getItem T key lock => exact calls_getItem key lock (fun hq => hq) fun hq => hq
  | getItemUnlessModified T key modifiedKey lock =>
    exact calls_getItemUnlessModified key modifiedKey lock (fun hq => hq) (fun _ hq => hq)
      fun hq => hq
  | getItems T keys lock => exact calls_getItems keys lock (fun hq => hq) fun _ _ hq => hq
  | getCollection T key lock => exact calls_getCollection key lock (fun hq => hq) fun hq => hq
  | saveItem item token clearCollections extra => exact calls_saveItem_notReopens item token extra h
  | saveCollection owner items lockKey collectionKey token isGlobal =>
    exact calls_saveCollection (fun _ hq => hq) fun _ hq => hq
  | saveMember item => exact calls_saveMember_notReopens item
  | saveMembers items =>
    exact calls_saveMembers items fun item _ => calls_saveMember_notReopens item
  | deleteItem item token => exact calls_deleteItem item token fun hq => hq
  | flush tombstones => exact calls_flushNamespace tombstones h

variable (hr : cfg.rules = Rules.standard) (hlist : isList list)
include hlist

theorem Memory.Roles.spares {root : String} {q : Call} (hroles : m.Roles isList)
    (hq : q.Respects isList root) (h : ¬ q.Reopens list) : m.Spares [list] q := by
  have hslots (k : Key) (hk : k ∈ q.slots) : k ∉ [list] := by
    intro hmem
    rw [List.mem_singleton.1 hmem] at hk
    exact hq.slots list hk hlist
  cases q with
  | setValue lockKey keys value token ttl =>
    exact .inr ⟨hslots lockKey List.mem_cons_self,
      fun k hk => hslots k (List.mem_cons_of_mem _ hk)⟩
  | deleteValue keys tombstone force => exact .inr (.inr hslots)
  | writeToken kind keys => exact .inr hslots
  | releaseToken keys token => exact .inr hslots
  | clearDependencies key tombstone =>
    cases tombstone with
    | true => exact .inl rfl
    | false =>
      right
      intro k hk hmem
      rw [List.mem_singleton.1 hmem] at hk
      rcases (hroles key (hq.clears key false rfl)).of_mem_cleared hk with hnot | hsame
      · exact hnot hlist
      · exact h ⟨hsame.symm, rfl⟩
  | flush root' tombstones =>
    cases tombstones with
    | true => exact absurd rfl h
    | false => exact .inl rfl
  | _ => trivial

include hr

theorem Memory.Buried.list_on {root : String} {γ : Type} {op : Operation γ}
    (hroles : m.Roles isList) (hop : Calls (Call.Respects isList root) op)
    (hkeeps : Calls (fun q => ¬ q.Reopens list) op) (h : m.Buried cfg since [list]) :
    (op.on cfg m).2.Roles isList ∧ (op.on cfg m).2.Buried cfg since [list] := by
  refine (hop.and hkeeps).preserves cfg
    (P := fun m => m.Roles isList ∧ m.Buried cfg since [list]) ?_ ⟨hroles, h⟩
  rintro q m₁ ⟨hq, hreopens⟩ ⟨hroles₁, hburied⟩
  exact ⟨hroles₁.perform hr hq, hburied.perform hr (hroles₁.spares hlist hq hreopens)⟩

/-- The tombstone of a list lasts through every run that does not open the list again, until it
expires. -/
theorem Memory.Buried.list_served {steps : List LibraryStep} (hroles : m.Roles isList)
    (hsteps : ∀ c, .call c ∈ steps → c.Respects policy isList ∧ ¬ c.Reopens policy list)
    (hlive : (Slot.grave cfg since).isLive (m.served cfg policy steps).now = true)
    (h : m.Buried cfg since [list]) :
    (m.served cfg policy steps).Roles isList ∧
      (m.served cfg policy steps).Buried cfg since [list] := by
  refine h.served_of hr hroles (fun m duration hroles => ?_) (fun c m hc hroles hburied => ?_) hlive
  · have helapsed : ∀ c, LibraryStep.elapse duration = .call c → c.Respects policy isList :=
      fun _ he => by cases he
    exact hroles.serve hr helapsed
  · obtain ⟨hrespects, hreopens⟩ := hsteps c hc
    exact hburied.list_on hr hlist hroles
      ((LibraryCall.calls_operation hrespects).mono fun _ hq => hq.1)
      (LibraryCall.calls_notReopens hreopens)

end Tombstone

section Dependents

namespace LibraryCall

def written (policy : Policy) : LibraryCall → List Key
  | .saveItem item _ _ _ | .saveMember item => (ItemKeys.of policy.names item).cached
  | .saveCollection _ _ _ collectionKey _ _ => [collectionKey]
  | _ => []

/-- The lists that a save registers what it writes with. -/
def registeredWith (policy : Policy) : LibraryCall → List Key
  | .saveItem item _ _ _ | .saveMember item => Cacheable.dependencyKeys policy.names item
  | .saveCollection owner items _ _ _ isGlobal =>
    (collectionDependencies policy owner items isGlobal).keys
  | _ => []

variable (cfg policy m) in
/-- Run on a store, a call is a save that leaves its value in the cache, for good or because it
could not be removed again. -/
def EndsStored : LibraryCall → Prop
  | .saveItem item token clearCollections extra =>
    ((CacheCoherence.saveItem policy item token clearCollections extra).on cfg m).1.isStored = true
  | .saveCollection owner items lockKey collectionKey token isGlobal =>
    ((CacheCoherence.saveCollection policy owner items lockKey collectionKey token isGlobal).on cfg
      m).1.isStored = true
  | .saveMember item => ((CacheCoherence.saveMember policy item).on cfg m).1 = true
  | _ => False

end LibraryCall

theorem Memory.unwritten_of_refused (hr : cfg.rules = Rules.standard) {lockKey : Key}
    {token : Token} (h : ¬ m.MayStore lockKey token) (keys : List Key) (value : String)
    (ttl : Nat) : m.Unwritten (m.setValue cfg lockKey keys value token ttl).memory k := by
  have hlive := live?_setValue_refused cfg keys value ttl hr h k
  split at hlive
  · exact .inr (valueless_of_empty hlive)
  · exact .inl hlive

variable (hr : cfg.rules = Rules.standard)
include hr

section Item
variable {α : Type} [Cacheable α] {item : α} {token : Token} {clearCollections : Bool}
  {extra : List Key} {outcome : SaveOutcome}

/-- A save of an item that does not end stored leaves no value under the keys of the item. -/
theorem saveItem_stored_or_unwritten
    (hop : (saveItem policy item token clearCollections extra).on cfg m = (outcome, m'))
    (hk : k ∈ (ItemKeys.of policy.names item).cached) :
    outcome = .stored ∨ outcome.isStored = false ∧ m.Unwritten m' k := by
  rcases saveItem_cases hr hop with ⟨rfl, houtcome⟩ | ⟨document, -, -, ⟨hrefused, rfl, rfl⟩ |
    ⟨-, failed, settled, -, ⟨-, hstored, -⟩ | ⟨-, rfl, rfl⟩⟩⟩
  · right
    rcases houtcome with rfl | rfl
    · exact ⟨rfl, .inl rfl⟩
    · exact ⟨rfl, .inl rfl⟩
  · exact .inr ⟨rfl, Memory.unwritten_of_refused hr hrefused _ _ _⟩
  · exact .inl hstored
  · right
    refine ⟨rfl, .inr (Memory.valueless_of_empty ?_)⟩
    rw [Memory.live?_deleteValue_forced, if_pos hk]
    rfl

theorem saveMember_stored_or_unwritten
    (hslots : ∀ k ∈ (ItemKeys.of policy.names item).deleted, ¬ isList k)
    (hk : k ∈ (ItemKeys.of policy.names item).cached) :
    ((saveMember policy item).on cfg m).1 = true ∨
      m.Unwritten ((saveMember policy item).on cfg m).2 k := by
  have hkey : ¬ isList k := hslots k (ItemKeys.mem_deleted_of_cached hk)
  have hkeys : (Call.writeToken .read ((ItemKeys.of policy.names item).lockKeys .read)).Respects
        isList policy.names.root ∧
      ∀ token, (Call.releaseToken ((ItemKeys.of policy.names item).lockKeys .read) token).Respects
        isList policy.names.root := respects_lockKeys hslots
  have htaken : m.Unwritten ((takeItemLock policy .read item).on cfg m).2 k :=
    Memory.unwritten_on hr (calls_takeItemLock policy item ⟨hkeys.1, fun hs => hs⟩
      (fun _ _ hdelete => by cases hdelete) fun token => ⟨hkeys.2 token, fun hs => hs⟩) hkey
  unfold saveMember
  rw [on_bind]
  cases htake : (takeItemLock policy .read item).on cfg m with
  | mk taken m₁ =>
  rw [htake] at htaken
  cases taken with
  | error e => exact .inr htaken
  | ok token =>
    simp only
    split
    · exact .inr htaken
    · cases hsave : (saveItem policy item token false []).on cfg m₁ with
      | mk outcome m₂ =>
      simp only [on_bind, on_pure, hsave]
      have hreleased : m₂.Unwritten ((releaseItemLock policy .read item token).on cfg m₂).2 k :=
        Memory.unwritten_on hr (calls_releaseItemLock policy .read item token
          ⟨hkeys.2 token, fun hs => hs⟩) hkey
      rcases saveItem_stored_or_unwritten hr hsave hk with rfl | ⟨-, hsaved⟩
      · exact .inl rfl
      · exact .inr ((htaken.trans hsaved).trans hreleased)

variable (hroles : m.Roles isList) (hlist : isList list)
  (hlists : ∀ k ∈ listKeys policy.names item, isList k)
  (hslots : ∀ k ∈ (ItemKeys.of policy.names item).deleted, ¬ isList k)
  (hmem : list ∈ Cacheable.dependencyKeys policy.names item)
  (h : m.Buried cfg since [list])
include hroles hlist hlists hslots hmem h

/-- No save of an item that does not open a list ends stored while a tombstone keeps the list
shut. -/
theorem saveItem_ne_stored (hextra : ∀ k ∈ extra, ¬ isList k)
    (hkeeps : ¬ (clearCollections = true ∧
      Cacheable.dependenciesKey? policy.names item = some list))
    (hop : (saveItem policy item token clearCollections extra).on cfg m = (outcome, m')) :
    outcome ≠ .stored := by
  rintro rfl
  obtain ⟨document, m₁, -, httl, rfl, -, hsettle⟩ := saveItem_stored hop
  have hwrite : (Call.setValue (ItemKeys.of policy.names item).primary
      (ItemKeys.of policy.names item).cached document.compact token
      (Cacheable.ttl α policy.ttls)).Respects isList policy.names.root :=
    respects_write hslots _ _ _
  -- The item is registered last, and until then all that was called spares the tombstone.
  have hinvalidate : Calls (Call.Respects isList policy.names.root)
      (if clearCollections then invalidateCollections (ItemKeys.of policy.names item) extra
        else pure false) := by
    split
    · exact (calls_invalidateCollections policy item extra).mono fun q hq =>
        (respects_settle hlists hslots httl hextra hq).1
    · trivial
  have hspares : Calls (fun q => ¬ q.Reopens list)
      (if clearCollections then invalidateCollections (ItemKeys.of policy.names item) extra
        else pure false) := by
    split
    · rename_i hclear
      refine (calls_invalidateCollections policy item extra).mono fun q hq => ?_
      cases q with
      | clearDependencies key tombstone =>
        rintro ⟨rfl, -⟩
        exact hkeeps ⟨hclear, hq.2.1⟩
      | flush root tombstones => cases hq
      | _ => exact fun hreopens => hreopens
    · trivial
  have hburied := (Memory.Buried.list_on hr hlist (hroles.perform hr hwrite) hinvalidate hspares
    (h.perform hr (hroles.spares hlist hwrite fun hs => hs))).2
  have hfails := registerItem_fails cfg policy _ (ItemKeys.of policy.names item) hmem
    (hburied.content List.mem_cons_self) (Cacheable.ttl α policy.ttls)
  rw [registerItem_of_settled hsettle] at hfails
  cases hfails

theorem saveMember_ne_stored : ((saveMember policy item).on cfg m).1 ≠ true := by
  intro hstored
  have hkeys : (Call.writeToken .read ((ItemKeys.of policy.names item).lockKeys .read)).Respects
        isList policy.names.root ∧
      ∀ token, (Call.releaseToken ((ItemKeys.of policy.names item).lockKeys .read) token).Respects
        isList policy.names.root := respects_lockKeys hslots
  obtain ⟨token, m₁, m₂, htake, hsave, -⟩ := saveMember_stored hr hstored
  have htaken := h.list_on hr hlist hroles
    (calls_takeItemLock policy item hkeys.1 (fun _ _ hdelete => by cases hdelete) hkeys.2)
    (calls_takeItemLock policy item (fun hq => hq) (fun _ _ _ hq => by cases hq.2) fun _ hq => hq)
  rw [htake] at htaken
  have hextra (k : Key) (hk : k ∈ []) : ¬ isList k := by cases hk
  have hkeeps : ¬ (false = true ∧ Cacheable.dependenciesKey? policy.names item = some list) :=
    fun hclear => Bool.false_ne_true hclear.1
  exact saveItem_ne_stored hr htaken.1 hlist hlists hslots hmem htaken.2 hextra hkeeps hsave rfl

end Item

variable (hroles : m.Roles isList) {c : LibraryCall} (hc : c.Respects policy isList)
include hroles hc

/-- A save either leaves its value under the lists that it registers it with, or leaves none. -/
theorem LibraryCall.registers_or_unwritten (hk : k ∈ c.written policy)
    (hlist : list ∈ c.registeredWith policy) :
    c.Registers cfg policy m list k ∨
      ¬ c.EndsStored cfg policy m ∧ m.Unwritten (m.serve cfg policy (.call c)) k := by
  have hslots (key : Key) (hkey : key ∈ c.slots policy) : ¬ isList key := (hc.slots key hkey).1
  cases c with
  | saveItem item token clearCollections extra =>
    cases hop : (CacheCoherence.saveItem policy item token clearCollections extra).on cfg m with
    | mk outcome m' =>
    have hserve : m.serve cfg policy (.call (.saveItem item token clearCollections extra)) = m' :=
      congrArg Prod.snd hop
    rcases saveItem_stored_or_unwritten hr hop hk with rfl | ⟨hnot, hunwritten⟩
    · exact .inl ⟨congrArg Prod.fst hop, hk, hlist⟩
    · refine .inr ⟨?_, hserve ▸ hunwritten⟩
      rw [EndsStored, hop, hnot]
      exact Bool.false_ne_true
  | saveMember item =>
    rcases saveMember_stored_or_unwritten hr hslots hk with hstored | hunwritten
    · exact .inl ⟨hstored, hk, hlist⟩
    · by_cases hstored : ((CacheCoherence.saveMember policy item).on cfg m).1 = true
      · exact .inl ⟨hstored, hk, hlist⟩
      · exact .inr ⟨hstored, hunwritten⟩
  | saveCollection owner items lockKey collectionKey token isGlobal =>
    obtain rfl : k = collectionKey := List.mem_singleton.1 hk
    cases hop : (CacheCoherence.saveCollection policy owner items lockKey k token isGlobal).on cfg
      m with
    | mk outcome m' =>
    have hserve : m.serve cfg policy
        (.call (.saveCollection owner items lockKey k token isGlobal)) = m' :=
      congrArg Prod.snd hop
    rw [hserve, EndsStored, hop]
    rcases saveCollection_cases hr hop with ⟨rfl, rfl | rfl⟩ |
      ⟨document, registered, -, -, -, hregistered, -, rfl, houtcome⟩
    · exact .inr ⟨Bool.false_ne_true, .inl rfl⟩
    · exact .inr ⟨Bool.false_ne_true, .inl rfl⟩
    · by_cases hstore : registered.memory.MayStore lockKey token
      · rw [if_pos hstore] at houtcome
        refine .inl ⟨?_, rfl, mem_collectionDependencies.1 hlist⟩
        rw [hop, houtcome]
      · rw [if_neg hstore] at houtcome
        subst houtcome
        refine .inr ⟨Bool.false_ne_true, ?_⟩
        have hadded : m.Unwritten registered.memory k := by
          left
          rw [← hregistered]
          refine Memory.live?_addDependency_of_not_mem m _ _ _ fun hmem => ?_
          exact hslots k (List.mem_cons_of_mem _ List.mem_cons_self) (hc.lists k hmem)
        exact hadded.trans (Memory.unwritten_of_refused hr hstore _ _ _)
  | _ => cases hk

/-- While a tombstone keeps a list shut, no save ends stored that registers with the list. -/
theorem LibraryCall.not_endsStored (hkeeps : ¬ c.Reopens policy list)
    (hlist : list ∈ c.registeredWith policy) (h : m.Buried cfg since [list]) :
    ¬ c.EndsStored cfg policy m := by
  have hslots (key : Key) (hkey : key ∈ c.slots policy) : ¬ isList key := (hc.slots key hkey).1
  cases c with
  | saveItem item token clearCollections extra =>
    have hisList : isList list := hc.lists list (List.mem_append_right _ hlist)
    cases hop : (CacheCoherence.saveItem policy item token clearCollections extra).on cfg m with
    | mk outcome m' =>
    have hne := saveItem_ne_stored hr hroles hisList hc.lists
      (fun k hk => hslots k (List.mem_append_left _ hk)) hlist h
      (fun k hk => hslots k (List.mem_append_right _ hk)) hkeeps hop
    have hk : (ItemKeys.of policy.names item).primary ∈
        (ItemKeys.of policy.names item).cached := List.mem_cons_self
    obtain ⟨hnot, -⟩ := (saveItem_stored_or_unwritten hr hop hk).resolve_left hne
    rw [EndsStored, hop, hnot]
    exact Bool.false_ne_true
  | saveMember item =>
    have hisList : isList list := hc.lists list (List.mem_append_right _ hlist)
    exact saveMember_ne_stored hr hroles hisList hc.lists hslots hlist h
  | saveCollection owner items lockKey collectionKey token isGlobal =>
    cases hop : (CacheCoherence.saveCollection policy owner items lockKey collectionKey token
      isGlobal).on cfg m with
    | mk outcome m' =>
    rw [EndsStored, hop]
    rcases saveCollection_cases hr hop with ⟨-, rfl | rfl⟩ |
      ⟨document, registered, -, -, -, rfl, hanswer, -, -⟩
    · exact Bool.false_ne_true
    · exact Bool.false_ne_true
    · exact absurd (h.content List.mem_cons_self)
        ((Memory.addDependency_ok m _ _ _ hanswer list).2 hlist).1
  | _ => cases hlist

end Dependents

theorem LibraryCall.Registers.endsStored {c : LibraryCall} (h : c.Registers cfg policy m list k) :
    c.EndsStored cfg policy m := by
  cases c with
  | saveItem item token clearCollections extra =>
    rw [EndsStored, h.1]
    rfl
  | saveCollection owner items lockKey collectionKey token isGlobal =>
    rw [EndsStored, h.1]
    rfl
  | saveMember item => exact h.1
  | _ => exact False.elim h

section Runs

variable (cfg policy list k slot) in
/-- A slot holds what a dependent of a list was saved as. In the run a save that registers with the
list ended stored or wrote a value under the key, and that value has stayed in the slot since.
Members of a collection are saved one by one. -/
def HoldsDependent (steps : List LibraryStep) : Prop :=
  ∃ before c later, steps.flatMap LibraryStep.parts = before ++ .call c :: later ∧
    k ∈ c.written policy ∧ list ∈ c.registeredWith policy ∧
    (c.EndsStored cfg policy (Memory.served cfg policy {} before) ∨
      ¬ (Memory.served cfg policy {} before).Unwritten
        (Memory.served cfg policy {} (before ++ [.call c])) k) ∧
    isToken slot.text = false ∧
    (Memory.served cfg policy {} (before ++ [.call c])).Stays cfg policy k slot later

variable (hr : cfg.rules = Rules.standard)
include hr

/-- In a run that uses keys in their roles, the save that such a slot goes back to registered what
it wrote with the list. -/
theorem HoldsDependent.registers {steps : List LibraryStep}
    (hsteps : ∀ c, .call c ∈ steps → c.Respects policy isList)
    (h : HoldsDependent cfg policy list k slot steps) :
    ∃ before c later, steps.flatMap LibraryStep.parts = before ++ .call c :: later ∧
      list ∈ c.registeredWith policy ∧
      c.Registers cfg policy (Memory.served cfg policy {} before) list k ∧
      isToken slot.text = false ∧
      ((Memory.served cfg policy {} before).serve cfg policy (.call c)).Stays cfg policy k slot
        later := by
  obtain ⟨before, c, later, hsplit, hwritten, hregistered, hwrote, hvalue, hstays⟩ := h
  have hrespects := LibraryCall.respects_parts hsteps
  rw [hsplit] at hrespects
  have hinit : ({} : Memory).Roles isList := fun list hlist slot hslot => by cases hslot
  have hroles := hinit.served hr fun c hc => hrespects c (List.mem_append_left _ hc)
  rw [Memory.served_append, Memory.served_cons, Memory.served_nil] at hwrote hstays
  refine ⟨before, c, later, hsplit, hregistered, ?_, hvalue, hstays⟩
  rcases LibraryCall.registers_or_unwritten hr hroles
    (hrespects c (List.mem_append_right _ List.mem_cons_self)) hwritten hregistered with
    hregisters | ⟨hnot, hunwritten⟩
  · exact hregisters
  · rcases hwrote with hstored | hwrote
    · exact absurd hstored hnot
    · exact absurd hunwritten hwrote

variable {T : ItemType} {owner : T.Item}
  (howner : Cacheable.dependenciesKey? policy.names owner = some list)
include howner

/-- A delete lock on the owner of a list leaves a tombstone there and takes away every value that
the list covers. -/
theorem Memory.Roles.delete_owner (hroles : m.Roles isList)
    (hc : (LibraryCall.takeItemLock .delete owner).Respects policy isList) :
    (m.serve cfg policy (.call (.takeItemLock .delete owner))).Buried cfg m.now [list] ∧
      ∀ k slot, m.Covers list k slot →
        (m.serve cfg policy (.call (.takeItemLock .delete owner))).Valueless k := by
  have hlist : isList list := hc.lists list (List.mem_append_left _ (Option.mem_toList.2 howner))
  have hlock : (Call.writeToken .delete ((ItemKeys.of policy.names owner).lockKeys
      .delete)).Respects isList policy.names.root :=
    (respects_lockKeys fun k hk => (hc.slots k hk).1).1
  have hroles₁ : (m.writeToken cfg .delete ((ItemKeys.of policy.names owner).lockKeys
      .delete)).memory.Roles isList := hroles.perform hr hlock
  have hcovers (k : Key) (slot : Slot) (h : m.Covers list k slot) :
      (m.writeToken cfg .delete ((ItemKeys.of policy.names owner).lockKeys
        .delete)).memory.Covers list k slot :=
    h.perform hr hlock hroles hlist fun hs => hs
  have hnow := (writeToken_rest cfg m hr .delete
    ((ItemKeys.of policy.names owner).lockKeys .delete)).1
  have hanswer : ((m.writeToken cfg .delete ((ItemKeys.of policy.names owner).lockKeys
      .delete)).memory.clearDependencies cfg list true).answer = .ok () := by
    obtain ⟨members, hdecoded, -⟩ := (hroles₁ list hlist).decoded
    rw [answer_clearDependencies, hdecoded]
    rfl
  have htake := congrArg Prod.snd (takeItemLock_on_delete cfg policy m hr owner howner hanswer)
  change m.serve cfg policy (.call (.takeItemLock .delete owner)) = _ at htake
  rw [htake, ← hnow]
  exact ⟨buried_of_clearDependencies _ list, fun k slot h => (hcovers k slot h).valueless_of_cleared
    true⟩

theorem Memory.Roles.not_endsStored_after_delete (hroles : m.Roles isList)
    (hlock : (LibraryCall.takeItemLock .delete owner).Respects policy isList)
    {steps : List LibraryStep}
    (hsteps : ∀ c, .call c ∈ steps → c.Respects policy isList ∧ ¬ c.Reopens policy list)
    (htime : cfg.tombstoneTtl = 0 ∨
      (m.served cfg policy (.call (.takeItemLock .delete owner) :: steps)).now <
        m.now + cfg.tombstoneTtl)
    {c : LibraryCall} (hc : c.Respects policy isList) (hreopens : ¬ c.Reopens policy list)
    (hregistered : list ∈ c.registeredWith policy) :
    ¬ c.EndsStored cfg policy
      (m.served cfg policy (.call (.takeItemLock .delete owner) :: steps)) := by
  have hlist : isList list :=
    hlock.lists list (List.mem_append_left _ (Option.mem_toList.2 howner))
  have hlocked : (m.serve cfg policy (.call (.takeItemLock .delete owner))).Roles isList := by
    refine hroles.serve hr ?_
    rintro _ ⟨⟩
    exact hlock
  rw [Memory.served_cons] at htime ⊢
  obtain ⟨hroles', hshut⟩ := (hroles.delete_owner hr howner hlock).1.list_served hr hlist hlocked
    hsteps ((Slot.grave_isLive_iff cfg m.now _).2 htime)
  exact LibraryCall.not_endsStored hr hroles' hc hreopens hregistered hshut

/-- What a save registers with the list does not stay through a delete lock on its owner. -/
theorem LibraryCall.Registers.not_stays (hroles : m.Roles isList)
    {first second : List LibraryStep}
    (hsteps : ∀ c, .call c ∈ first ++ .call (.takeItemLock .delete owner) :: second →
      c.Respects policy isList)
    {c : LibraryCall} (hc : c.Respects policy isList) (h : c.Registers cfg policy m list k)
    (hvalue : isToken slot.text = false) :
    ¬ (m.serve cfg policy (.call c)).Stays cfg policy k slot
      (first ++ .call (.takeItemLock .delete owner) :: second) := by
  intro hstays
  obtain ⟨hbefore, hlocked⟩ := hstays.split
  obtain ⟨hlist, hkey, hk⟩ := h.roles hc
  have hfirst (c : LibraryCall) (hmem : .call c ∈ first) : c.Respects policy isList :=
    hsteps c (List.mem_append_left _ hmem)
  have hroles₁ : (m.serve cfg policy (.call c)).Roles isList := by
    refine hroles.serve hr ?_
    rintro _ ⟨⟩
    exact hc
  have hcovers := (h.covers hr hroles hc hstays.here hvalue).served hr hroles₁ hfirst hlist hkey hk
    hvalue hbefore
  have hgone := ((hroles₁.served hr hfirst).delete_owner hr howner
    (hsteps _ (List.mem_append_right _ List.mem_cons_self))).2 k slot hcovers
  exact Memory.not_valueless hlocked.2.here hvalue hgone

/-- A delete lock on the owner of a list keeps the list's dependents out of the cache until the
tombstone expires, unless the list is opened again. No slot holds what a dependent was saved as, and
no save of a dependent ends stored. -/
theorem deleted_owner_keeps_dependents_out {before after : List LibraryStep}
    (hsteps : ∀ c, .call c ∈ before ++ .call (.takeItemLock .delete owner) :: after →
      c.Respects policy isList)
    (hkeeps : ∀ c, .call c ∈ after → ¬ c.Reopens policy list)
    (htime : cfg.tombstoneTtl = 0 ∨
      (Memory.served cfg policy {} (before ++ .call (.takeItemLock .delete owner) :: after)).now <
        (Memory.served cfg policy {} before).now + cfg.tombstoneTtl) :
    (∀ k slot, ¬ HoldsDependent cfg policy list k slot
      (before ++ .call (.takeItemLock .delete owner) :: after)) ∧
    ∀ c : LibraryCall, c.Respects policy isList → ¬ c.Reopens policy list →
      list ∈ c.registeredWith policy → ¬ c.EndsStored cfg policy
        (Memory.served cfg policy {} (before ++ .call (.takeItemLock .delete owner) :: after)) := by
  have hinit : ({} : Memory).Roles isList := fun list hlist slot hslot => by cases hslot
  have hlock := hsteps _ (List.mem_append_right _ List.mem_cons_self)
  have hroles := hinit.served hr fun c hc => hsteps c (List.mem_append_left _ hc)
  have hafter (c : LibraryCall) (hc : .call c ∈ after) :
      c.Respects policy isList ∧ ¬ c.Reopens policy list :=
    ⟨hsteps c (List.mem_append_right _ (List.mem_cons_of_mem _ hc)), hkeeps c hc⟩
  have hparts (c : LibraryCall) (hc : .call c ∈ after.flatMap LibraryStep.parts) :
      c.Respects policy isList ∧ ¬ c.Reopens policy list := by
    obtain ⟨whole, hwhole, hpart⟩ := LibraryCall.exists_whole hc
    exact ⟨(hafter whole hwhole).1.parts hpart,
      LibraryCall.not_reopens_parts (hafter whole hwhole).2 hpart⟩
  refine ⟨fun k slot hholds => ?_, fun c hc hreopens hlist => ?_⟩
  · obtain ⟨first, c, later, hsplit, hregistered, hregisters, hvalue, hstays⟩ :=
      hholds.registers hr hsteps
    have hrespects := LibraryCall.respects_parts hsteps
    have hwhole := Memory.served_flatMap_parts cfg policy {} (before ++
      .call (.takeItemLock .delete owner) :: after)
    rw [hsplit] at hrespects hwhole
    have hc : c.Respects policy isList :=
      hrespects c (List.mem_append_right _ List.mem_cons_self)
    rw [List.flatMap_append, List.flatMap_cons] at hsplit
    change before.flatMap LibraryStep.parts ++ .call (.takeItemLock .delete owner) ::
      after.flatMap LibraryStep.parts = _ at hsplit
    -- The save came after the lock, or was the lock, or came before it.
    rcases List.append_eq_append_iff.1 hsplit with ⟨rest, rfl, hrest⟩ | ⟨rest, hbefore, hrest⟩
    · cases rest with
      | nil =>
        cases hrest
        cases hregistered
      | cons e rest =>
        obtain ⟨rfl, hlater⟩ := List.cons.inj hrest
        rw [hlater] at hparts
        have hmem (c : LibraryCall) (h : .call c ∈ rest) := hparts c (List.mem_append_left _ h)
        rw [Memory.served_append, Memory.served_append, Memory.served_flatMap_parts] at hwhole
        rw [Memory.served_append, Memory.served_flatMap_parts] at hregisters
        refine hroles.not_endsStored_after_delete hr howner hlock hmem ?_ hc
          (hparts c (List.mem_append_right _ List.mem_cons_self)).2 hregistered
          hregisters.endsStored
        refine htime.imp id fun hnow => Nat.lt_of_le_of_lt ?_ hnow
        rw [← hwhole]
        exact Memory.now_served hr _
    · cases rest with
      | nil =>
        cases hrest
        cases hregistered
      | cons e rest =>
        obtain ⟨rfl, hlater⟩ := List.cons.inj hrest
        rw [hlater] at hstays
        have hrolesFirst := hinit.served hr fun c hc => hrespects c (List.mem_append_left _ hc)
        refine hregisters.not_stays hr howner hrolesFirst (fun c hc => ?_) hc hvalue hstays
        refine hrespects c (List.mem_append_right _ (List.mem_cons_of_mem _ ?_))
        rw [hlater]
        exact hc
  · rw [Memory.served_append] at htime ⊢
    exact hroles.not_endsStored_after_delete hr howner hlock hafter htime hc hreopens hlist

end Runs

section Example
open Catalogue

def listOwner : Node where
  key := "test:o"
  secondary := []
  global := none
  collection := none
  deps := some "test:l"
  dependsOn := []
  modified := none
  invalid := false

/-- The listed node is locked again, and some time goes by. -/
def lateRun : List LibraryStep :=
  [.call (.takeItemLock (T := ⟨Node⟩) .update listedNode), .elapse 1]

def lateSave : LibraryCall :=
  .saveItem (T := ⟨Node⟩) listedNode (Token.issue LockKind.update.name 2) true []

theorem listOwner_respects :
    (LibraryCall.takeItemLock (T := ⟨Node⟩) .delete listOwner).Respects lasting
      (· = "test:l") where
  lists := fun k hk => List.mem_singleton.1 hk
  slots := by
    intro k hk
    obtain rfl : k = "test:o" := List.mem_singleton.1 hk
    decide

/-- The node that was saved before its owner was locked for deletion is gone, and it cannot be saved
again. -/
theorem deleted_owner_keeps_listedNode_out :
    (∀ k slot, ¬ HoldsDependent {} lasting "test:l" k slot
      (listedRun ++ .call (.takeItemLock (T := ⟨Node⟩) .delete listOwner) :: lateRun)) ∧
    ¬ lateSave.EndsStored {} lasting (Memory.served {} lasting {}
      (listedRun ++ .call (.takeItemLock (T := ⟨Node⟩) .delete listOwner) :: lateRun)) := by
  have htake : (LibraryCall.takeItemLock (T := ⟨Node⟩) .update listedNode).Respects lasting
      (· = "test:l") := listedRun_respects _ List.mem_cons_self
  have hsteps (c : LibraryCall) (hc : .call c ∈ listedRun ++
      .call (.takeItemLock (T := ⟨Node⟩) .delete listOwner) :: lateRun) :
      c.Respects lasting (· = "test:l") := by
    rcases List.mem_append.1 hc with hbefore | hc
    · exact listedRun_respects c hbefore
    · rcases List.mem_cons.1 hc with hlock | hafter
      · cases hlock
        exact listOwner_respects
      · simp only [lateRun, List.mem_cons, List.not_mem_nil, or_false, reduceCtorEq,
          LibraryStep.call.injEq] at hafter
        rw [hafter]
        exact htake
  have hkeeps (c : LibraryCall) (hc : .call c ∈ lateRun) : ¬ c.Reopens lasting "test:l" := by
    simp only [lateRun, List.mem_cons, List.not_mem_nil, or_false, reduceCtorEq,
      LibraryStep.call.injEq] at hc
    rw [hc]
    exact fun hreopens => hreopens
  have htime : (Memory.served {} lasting {} (listedRun ++
        .call (.takeItemLock (T := ⟨Node⟩) .delete listOwner) :: lateRun)).now <
      (Memory.served {} lasting {} listedRun).now + ({} : MemorySettings).tombstoneTtl := by
    decide +kernel
  obtain ⟨hgone, hlate⟩ := deleted_owner_keeps_dependents_out rfl (T := ⟨Node⟩) rfl hsteps hkeeps
    (.inr htime)
  have hsave : lateSave.Respects lasting (· = "test:l") :=
    ⟨htake.lists, fun k hk => htake.slots k (by simpa [lateSave, LibraryCall.slots] using hk)⟩
  have hreopens : ¬ lateSave.Reopens lasting "test:l" := by
    rintro ⟨-, hown⟩
    cases hown
  exact ⟨hgone, hlate lateSave hsave hreopens List.mem_cons_self⟩

end Example

end CacheCoherence
