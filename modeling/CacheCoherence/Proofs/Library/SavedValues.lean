import CacheCoherence.Proofs.Catalogue
import CacheCoherence.Proofs.Library.Coverage

/-!
# No saved value escapes its dependency lists

A save that ends stored registers what it wrote with dependency lists. As long as the value stays
in its slot, each of these lists has the slot's key on it and is live for as long as the value.
Clearing one of them therefore takes the value away, whatever was called since and whatever time has
passed.
-/
namespace CacheCoherence
open Operation
variable {cfg : MemorySettings} {policy : Policy} {isList : Key → Prop} {m : Memory}
  {list k : Key} {slot : Slot} {c : LibraryCall}

variable (cfg policy m list k) in
/-- Run on a store, a call is a save that ends stored, writes a key and registers it with a list. -/
def LibraryCall.Registers : LibraryCall → Prop
  | .saveItem item token clearCollections extra =>
    ((CacheCoherence.saveItem policy item token clearCollections extra).on cfg m).1 = .stored ∧
      k ∈ (ItemKeys.of policy.names item).cached ∧ list ∈ Cacheable.dependencyKeys policy.names item
  | .saveCollection owner items lockKey collectionKey token isGlobal =>
    ((CacheCoherence.saveCollection policy owner items lockKey collectionKey token isGlobal).on cfg
        m).1 = .stored ∧
      k = collectionKey ∧
      ((∃ item ∈ items, list ∈ listKeys policy.names item) ∨
        isGlobal = false ∧ Cacheable.dependenciesKey? policy.names owner = some list)
  | .saveMember item =>
    ((CacheCoherence.saveMember policy item).on cfg m).1 = true ∧
      k ∈ (ItemKeys.of policy.names item).cached ∧ list ∈ Cacheable.dependencyKeys policy.names item
  | _ => False

section Call
variable (hr : cfg.rules = Rules.standard) (hroles : m.Roles isList)
  (hc : c.Respects policy isList)
include hc

theorem LibraryCall.Registers.roles (h : c.Registers cfg policy m list k) :
    isList list ∧ ¬ isList k ∧ isUnder policy.names.root k = true := by
  cases c with
  | saveItem item token clearCollections extra =>
    obtain ⟨-, hk, hlist⟩ := h
    refine ⟨hc.lists list (List.mem_append_right _ hlist), hc.slots k (List.mem_append_left _ ?_)⟩
    exact ItemKeys.mem_deleted_of_cached hk
  | saveCollection owner items lockKey collectionKey token isGlobal =>
    obtain ⟨-, rfl, hlist⟩ := h
    refine ⟨hc.lists list (mem_collectionDependencies.2 hlist), hc.slots k ?_⟩
    exact List.mem_cons_of_mem _ List.mem_cons_self
  | saveMember item =>
    obtain ⟨-, hk, hlist⟩ := h
    refine ⟨hc.lists list (List.mem_append_right _ hlist), hc.slots k ?_⟩
    exact ItemKeys.mem_deleted_of_cached hk
  | _ => exact False.elim h

include hr hroles

/-- What a save writes for good is covered by the lists that it registers it with. -/
theorem LibraryCall.Registers.covers (h : c.Registers cfg policy m list k)
    (hlive : (m.serve cfg policy (.call c)).live? k = some slot)
    (hvalue : isToken slot.text = false) :
    (m.serve cfg policy (.call c)).Covers list k slot := by
  have hslots (key : Key) (hkey : key ∈ c.slots policy) : ¬ isList key := (hc.slots key hkey).1
  cases c with
  | saveItem item token clearCollections extra =>
    obtain ⟨hstored, hk, hlist⟩ := h
    exact covers_of_saveItem hr hroles hc.lists
      (fun key hkey => hslots key (List.mem_append_left _ hkey))
      (fun key hkey => hslots key (List.mem_append_right _ hkey)) (Prod.ext hstored rfl) hk hlive
      hvalue hlist
  | saveCollection owner items lockKey collectionKey token isGlobal =>
    obtain ⟨hstored, rfl, hlist⟩ := h
    exact covers_of_saveCollection hr hroles hc.lists hslots (Prod.ext hstored rfl) hlive
      (mem_collectionDependencies.2 hlist)
  | saveMember item =>
    obtain ⟨hstored, hk, hlist⟩ := h
    exact covers_of_saveMember hr hroles hc.lists hslots hstored hk hlive hvalue hlist
  | _ => exact False.elim h

variable (hlist : isList list) (hkey : ¬ isList k) (hk : isUnder policy.names.root k = true)
include hlist hkey hk

/-- No call ends a cover but for the value. -/
theorem Memory.Covers.call (h : m.Covers list k slot) :
    (m.serve cfg policy (.call c)).Covers list k slot ∨
      (m.serve cfg policy (.call c)).Valueless k := by
  have hcalls := LibraryCall.calls_operation hc
  cases c with
  | saveItem item token clearCollections extra =>
    have hslots (key : Key) (hmem : key ∈ (LibraryCall.saveItem item token clearCollections
        extra).slots policy) : ¬ isList key := (hc.slots key hmem).1
    exact h.saveItem hr hroles hc.lists (fun key hmem => hslots key (List.mem_append_left _ hmem))
      (fun key hmem => hslots key (List.mem_append_right _ hmem)) hlist hkey hk rfl
  | saveCollection owner items lockKey collectionKey token isGlobal =>
    exact .inl (h.on hr hroles hlist hcalls)
  | saveMember item => exact .inl (h.on hr hroles hlist hcalls)
  | saveMembers items => exact .inl (h.on hr hroles hlist hcalls)
  | _ => exact Memory.Covers.on_or_valueless hr hroles hlist hkey hk hcalls (.inl h)

end Call

section Runs

variable (cfg policy k slot) in
/-- A slot stays as it is from one state of a run on. -/
def Memory.Stays (m : Memory) : List LibraryStep → Prop
  | [] => m.live? k = some slot
  | e :: rest => m.live? k = some slot ∧ Stays (m.serve cfg policy e) rest

theorem Memory.Stays.here {steps : List LibraryStep} (h : m.Stays cfg policy k slot steps) :
    m.live? k = some slot := by
  cases steps with
  | nil => exact h
  | cons e rest => exact h.1

theorem Memory.Stays.last {steps : List LibraryStep} (h : m.Stays cfg policy k slot steps) :
    (m.served cfg policy steps).live? k = some slot := by
  induction steps generalizing m with
  | nil => exact h
  | cons e rest ih => exact ih h.2

theorem Memory.Stays.split {first second : List LibraryStep}
    (h : m.Stays cfg policy k slot (first ++ second)) :
    m.Stays cfg policy k slot first ∧
      (m.served cfg policy first).Stays cfg policy k slot second := by
  induction first generalizing m with
  | nil => exact ⟨h.here, h⟩
  | cons e rest ih => exact ⟨⟨h.1, (ih h.2).1⟩, (ih h.2).2⟩

theorem Memory.Stays.append {first second : List LibraryStep}
    (h : m.Stays cfg policy k slot first)
    (h' : (m.served cfg policy first).Stays cfg policy k slot second) :
    m.Stays cfg policy k slot (first ++ second) := by
  induction first generalizing m with
  | nil => exact h'
  | cons e rest ih => exact ⟨h.1, ih h.2 h'⟩

variable (cfg policy list k slot) in
/-- A run in which a save ended stored that wrote a key and registered it with a list, and the value
has stayed in the slot since. Members of a collection are saved one by one. -/
def SavedUnder (steps : List LibraryStep) : Prop :=
  ∃ before c later, steps.flatMap LibraryStep.parts = before ++ .call c :: later ∧
    c.Registers cfg policy (Memory.served cfg policy {} before) list k ∧
    isToken slot.text = false ∧
    (Memory.served cfg policy {} (before ++ [.call c])).Stays cfg policy k slot later

variable (hr : cfg.rules = Rules.standard)
include hr

theorem Memory.Covers.serve (hroles : m.Roles isList) {e : LibraryStep}
    (he : ∀ c, e = .call c → c.Respects policy isList) (hlist : isList list) (hkey : ¬ isList k)
    (hk : isUnder policy.names.root k = true) (hvalue : isToken slot.text = false)
    (hlive : (m.serve cfg policy e).live? k = some slot) (h : m.Covers list k slot) :
    (m.serve cfg policy e).Covers list k slot := by
  cases e with
  | call c =>
    rcases h.call hr hroles (he c rfl) hlist hkey hk with hcovers | hnone
    · exact hcovers
    · exact absurd hnone (not_valueless hlive hvalue)
  | elapse duration => exact h.advance (isLive_of_live? hlive)

/-- A run keeps a value covered that it keeps. -/
theorem Memory.Covers.served {steps : List LibraryStep} (hroles : m.Roles isList)
    (hsteps : ∀ c, .call c ∈ steps → c.Respects policy isList) (hlist : isList list)
    (hkey : ¬ isList k) (hk : isUnder policy.names.root k = true)
    (hvalue : isToken slot.text = false) (hstays : m.Stays cfg policy k slot steps)
    (h : m.Covers list k slot) : (m.served cfg policy steps).Covers list k slot := by
  induction steps generalizing m with
  | nil => exact h
  | cons e rest ih =>
    have he (c : LibraryCall) (hc : e = .call c) : c.Respects policy isList :=
      hsteps c (hc ▸ List.mem_cons_self)
    refine ih (hroles.serve hr he) (fun c hc => hsteps c (List.mem_cons_of_mem _ hc)) hstays.2 ?_
    exact h.serve hr hroles he hlist hkey hk hvalue hstays.2.here

/-- In every run that uses keys in their roles, a value that a save ended stored with is covered by
every list that the save registered it with, and clearing the list takes the value away. -/
theorem saved_value_covered {steps : List LibraryStep}
    (hsteps : ∀ c, .call c ∈ steps → c.Respects policy isList)
    (hsaved : SavedUnder cfg policy list k slot steps) :
    (Memory.served cfg policy {} steps).live? k = some slot ∧
    (Memory.served cfg policy {} steps).Covers list k slot ∧
    ∀ tombstone,
      ((Memory.served cfg policy {} steps).clearDependencies cfg list tombstone).answer = .ok () ∧
      ((Memory.served cfg policy {} steps).clearDependencies cfg list tombstone).memory.live? k =
        Memory.leftover cfg (Memory.served cfg policy {} steps).now tombstone := by
  obtain ⟨before, c, later, hparts, hregisters, hvalue, hstays⟩ := hsaved
  have hrespects := LibraryCall.respects_parts hsteps
  rw [hparts] at hrespects
  have hc : c.Respects policy isList :=
    hrespects c (List.mem_append_right _ List.mem_cons_self)
  have hinit : ({} : Memory).Roles isList := fun list hlist slot hslot => by cases hslot
  have hroles := hinit.served hr fun c hc => hrespects c (List.mem_append_left _ hc)
  obtain ⟨hlist, hkey, hk⟩ := hregisters.roles hc
  rw [Memory.served_append, Memory.served_cons, Memory.served_nil] at hstays
  have hsame : Memory.served cfg policy {} steps =
      ((Memory.served cfg policy {} before).serve cfg policy (.call c)).served cfg policy
        later := by
    rw [← Memory.served_flatMap_parts, hparts, Memory.served_append, Memory.served_cons]
  have hcovers : (Memory.served cfg policy {} steps).Covers list k slot := by
    rw [hsame]
    refine Memory.Covers.served hr (hroles.serve hr ?_) ?_ hlist hkey hk hvalue hstays
      (hregisters.covers hr hroles hc hstays.here hvalue)
    · rintro _ ⟨⟩
      exact hc
    · exact fun c' hc' => hrespects c' (List.mem_append_right _ (List.mem_cons_of_mem _ hc'))
  refine ⟨hsame ▸ hstays.last, hcovers, fun tombstone => ⟨?_, ?_⟩⟩
  · obtain ⟨members, hcontent, -⟩ := hcovers.lists
    rw [Memory.answer_clearDependencies, Memory.decoded_of_encode hcontent]
    rfl
  · rw [Memory.live?_clearDependencies, if_pos hcovers.lists.mem_cleared]

end Runs

section Example
open Catalogue

def listedNode : Node where
  key := "test:k"
  secondary := []
  global := none
  collection := none
  deps := none
  dependsOn := ["test:l"]
  modified := none
  invalid := false

/-- The node is locked and saved, and some time goes by. -/
def listedRun : List LibraryStep :=
  [.call (.takeItemLock (T := ⟨Node⟩) .update listedNode),
    .call (.saveItem (T := ⟨Node⟩) listedNode (Token.issue LockKind.update.name 0) true []),
    .elapse 1]

def listedSlot : Slot :=
  .lasting 0 (((Cacheable.toJson? listedNode).map Json.compact).getD "")
    (Cacheable.ttl Node lasting.ttls)

theorem listedRun_respects (c : LibraryCall) (hc : .call c ∈ listedRun) :
    c.Respects lasting (· = "test:l") := by
  have hlists (k : Key) (hk : k ∈ listKeys lasting.names listedNode) : k = "test:l" :=
    List.mem_singleton.1 hk
  have hslots (k : Key) (hk : k ∈ (ItemKeys.of lasting.names listedNode).deleted) :
      ¬ k = "test:l" ∧ isUnder lasting.names.root k = true := by
    obtain rfl : k = "test:k" := List.mem_singleton.1 hk
    decide
  rcases List.mem_cons.1 hc with htake | hc
  · cases htake
    exact ⟨hlists, hslots⟩
  · rcases List.mem_cons.1 hc with hsave | hc
    · cases hsave
      exact ⟨hlists, fun k hk => hslots k (by rwa [LibraryCall.slots, List.append_nil] at hk)⟩
    · cases List.mem_singleton.1 hc

theorem listedRun_savedUnder :
    SavedUnder {} lasting "test:l" "test:k" listedSlot listedRun := by
  refine ⟨[.call (.takeItemLock (T := ⟨Node⟩) .update listedNode)],
    .saveItem (T := ⟨Node⟩) listedNode (Token.issue LockKind.update.name 0) true [], [.elapse 1],
    rfl, ⟨?_, ?_, ?_⟩, ?_, ?_, ?_⟩
  · decide +kernel
  · exact List.mem_cons_self
  · exact List.mem_cons_self
  · decide +kernel
  · rfl
  · rfl

/-- The list has the saved node on it, and clearing the list takes the node away. -/
theorem saved_value_covered_of_listedNode :
    (Memory.served {} lasting {} listedRun).Covers "test:l" "test:k" listedSlot ∧
    ((Memory.served {} lasting {} listedRun).clearDependencies {} "test:l" false).memory.live?
      "test:k" = none := by
  obtain ⟨-, hcovers, hcleared⟩ := saved_value_covered rfl listedRun_respects listedRun_savedUnder
  exact ⟨hcovers, (hcleared false).2⟩

end Example

end CacheCoherence
