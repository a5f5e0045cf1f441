import CacheCoherence.Proofs.Cache.Save
import CacheCoherence.Proofs.Library.Basic
import CacheCoherence.Proofs.SlotEffects

/-!
# What clean-ups remove

A read removes an entry that must not be served, and a save removes its item again if it could not
settle it. Both go by the answer to an earlier call, and other clients may call the store before the
removal does. The removal is forced: it does not look at what has become of the slots. Whatever goes
on between the calls, it empties exactly the slots that it is meant for, of a lock or a tombstone
that another client has left there as of anything else, and changes no other slot.
-/
namespace CacheCoherence
open Operation

def Entry.serves {α : Type} (entry : Entry α) (raw : String) : Bool :=
  ((Json.parse? raw).bind entry).isSome

/-- Slots are removed one by one, each after a text was found in it that is not served. -/
def PurgesRejected (serves : String → Bool) (asked : List Asked) : Call → Prop
  | .deleteValue keys tombstone force =>
    tombstone = false ∧ force = true ∧ ∃ key raw, keys = [key] ∧ serves raw = false ∧
      ∃ a ∈ asked, (key, raw) ∈ a.call.found a.answer
  | _ => True

section Reads
variable {serves : String → Bool}

theorem lasting_purgesRejected : Lasting (PurgesRejected serves) := by
  intro asked later c hsub hreason
  cases c with
  | deleteValue keys tombstone force =>
    obtain ⟨htombstone, hforce, key, raw, hkeys, hserves, a, ha, hfound⟩ := hreason
    exact ⟨htombstone, hforce, key, raw, hkeys, hserves, a, hsub ha, hfound⟩
  | _ => trivial

/-- An operation that asks for slots and goes by the answer has reason for its removals if what it
makes of every answer has. -/
theorem reasoned_asking {α : Type} {c : Call} {next : c.Answer → Operation α}
    (hc : PurgesRejected serves [] c)
    (hnext : ∀ answer, Calls (PurgesRejected serves [⟨c, answer⟩]) (next answer)) :
    Reasoned (PurgesRejected serves) (fun _ _ => True)
      (do note .call; let answer ← call c; note .read; next answer) [] := by
  rw [reasoned_note_bind]
  refine reasoned_call_bind hc fun answer => ?_
  rw [reasoned_note_bind]
  exact ((hnext answer).reasoned lasting_purgesRejected).mono fun _ _ _ => trivial

theorem purgesRejected_of_found {α : Type} {entry : Entry α} {key : Key} {lookup : Lookup}
    {a : Asked} (hfound : ∀ raw, lookup.value = some raw → (key, raw) ∈ a.call.found a.answer)
    (raw : String) (hvalue : lookup.value = some raw)
    (hentry : (Json.parse? raw).bind entry = none) :
    PurgesRejected entry.serves [a] (.deleteValue [key] false true) :=
  ⟨rfl, rfl, key, raw, rfl, by rw [Entry.serves, hentry]; rfl, a, List.mem_cons_self,
    hfound raw hvalue⟩

theorem reasoned_fetch {α : Type} (entry : Entry α) (key : Key) (lock : Bool) :
    Reasoned (PurgesRejected entry.serves) (fun _ _ => True) (fetch entry key lock) [] := by
  rw [fetch_eq]
  refine reasoned_asking trivial fun answer => ?_
  cases answer with
  | error fault => exact calls_reported _ _ _
  | ok lookup =>
    refine calls_resolve entry key lookup (purgesRejected_of_found fun raw hvalue => ?_)
    exact List.mem_map.2 ⟨raw, Option.mem_toList.2 hvalue, rfl⟩

theorem mem_found_getValues {keys : List Key} {locks : List Bool} {lookups : List Lookup}
    {slot : Key × Lookup} (hslot : slot ∈ keys.zip lookups) {raw : String}
    (hvalue : slot.2.value = some raw) :
    (slot.1, raw) ∈ Call.found (.getValues keys locks) (.ok lookups) :=
  List.mem_flatMap.2 ⟨slot, hslot, List.mem_map.2 ⟨raw, Option.mem_toList.2 hvalue, rfl⟩⟩

variable {α : Type} [Cacheable α] (policy : Policy)

theorem reasoned_getItem (key : Key) (lock : Bool) :
    Reasoned (PurgesRejected (Entry.serves (servableItem (α := α)))) (fun _ _ => True)
      (getItem policy key lock : Operation (Found α)) [] := by
  unfold getItem
  split
  · trivial
  · exact reasoned_fetch servableItem key lock

theorem reasoned_getCollection (key : Key) (lock : Bool) :
    Reasoned (PurgesRejected (Entry.serves (servableItems (α := α)))) (fun _ _ => True)
      (getCollection policy key lock : Operation (Found (List α))) [] := by
  unfold getCollection
  split
  · trivial
  · exact reasoned_fetch servableItems key lock

theorem reasoned_getItemUnlessModified (key modifiedKey : Key) (lock : Bool) :
    Reasoned (PurgesRejected (Entry.serves (servableItem (α := α)))) (fun _ _ => True)
      (getItemUnlessModified policy key modifiedKey lock : Operation (Found α)) [] := by
  cases hskips : skips policy α with
  | true =>
    unfold getItemUnlessModified
    rw [if_pos hskips]
    trivial
  | false =>
    rw [getItemUnlessModified_eq key modifiedKey lock hskips]
    refine reasoned_asking trivial fun answer => ?_
    rcases answer with fault | (_ | ⟨lookup, _ | ⟨modified, rest⟩⟩)
    · exact calls_reported _ _ _
    · exact calls_reported _ _ _
    · exact calls_reported _ _ _
    unfold itemUnlessModifiedOf
    dsimp only
    split
    · exact Calls.bind ((calls_call _).2 trivial) fun _ => calls_reported _ _ _
    · refine calls_resolve servableItem key lookup (purgesRejected_of_found fun raw hvalue => ?_)
      have hslot : (key, lookup) ∈ [key, modifiedKey].zip (lookup :: modified :: rest) :=
        List.mem_cons_self
      exact mem_found_getValues hslot hvalue

theorem reasoned_getItems (keys : List Key) (lock : Bool) :
    Reasoned (PurgesRejected (Entry.serves (servableItem (α := α)))) (fun _ _ => True)
      (getItems policy keys lock : Operation (List (Found α))) [] := by
  cases hasked : keys.isEmpty || skips policy α with
  | true =>
    unfold getItems
    rw [if_pos hasked]
    trivial
  | false =>
    rw [getItems_eq lock hasked]
    refine reasoned_asking trivial fun answer => ?_
    cases answer with
    | error fault =>
      exact Calls.bind (calls_noteMisses keys) fun _ => Calls.bind (calls_log _) fun _ => trivial
    | ok lookups =>
      exact calls_resolveAll _ fun slot hslot => purgesRejected_of_found fun raw hvalue =>
        mem_found_getValues hslot hvalue

end Reads

namespace LibraryCall

def IsRead : LibraryCall → Prop
  | .getItem .. | .getItemUnlessModified .. | .getItems .. | .getCollection .. => True
  | _ => False

def serves : LibraryCall → String → Bool
  | .getItem T .. | .getItemUnlessModified T .. | .getItems T .. =>
    Entry.serves (servableItem (α := T.Item))
  | .getCollection T .. => Entry.serves (servableItems (α := T.Item))
  | _ => fun _ => false

theorem IsRead.reasoned {c : LibraryCall} (h : c.IsRead) (policy : Policy) :
    Reasoned (PurgesRejected c.serves) (fun _ _ => True) (c.operation policy) [] := by
  cases c with
  | getItem T key lock => exact reasoned_getItem policy key lock
  | getCollection T key lock => exact reasoned_getCollection policy key lock
  | getItemUnlessModified T key modifiedKey lock =>
    exact reasoned_getItemUnlessModified policy key modifiedKey lock
  | getItems T keys lock => exact reasoned_getItems policy keys lock
  | _ => exact h.elim

end LibraryCall

section Saves
variable {α : Type} [Cacheable α] (policy : Policy) (item : α) (clearCollections : Bool)
  (extra : List Key)

/-- The document of an item was written under all keys of the item. -/
def Wrote (asked : List Asked) : Prop :=
  ∃ document, Cacheable.toJson? item = some document ∧ ∃ a ∈ asked,
    ∀ key ∈ (ItemKeys.of policy.names item).cached,
      (key, document.compact) ∈ a.call.written a.answer

def Failed (asked : List Asked) : Prop := ∃ a ∈ asked, a.call.fault? a.answer ≠ none

/-- After an item was written, the slots are removed that the change makes out of date, and those of
the item if a call failed. -/
def RemovesSaved (asked : List Asked) : Call → Prop
  | .deleteValue keys tombstone force =>
    tombstone = false ∧ force = true ∧ Wrote policy item asked ∧
      (clearCollections = true ∧ keys = (ItemKeys.of policy.names item).stale extra ∨
        keys = (ItemKeys.of policy.names item).cached ∧ Failed asked)
  | _ => True

variable {policy item clearCollections extra} {asked later : List Asked}

theorem Wrote.mono (h : Wrote policy item asked) (hsub : asked ⊆ later) :
    Wrote policy item later := by
  obtain ⟨document, hdoc, a, ha, hwritten⟩ := h
  exact ⟨document, hdoc, a, hsub ha, hwritten⟩

theorem Failed.mono (h : Failed asked) (hsub : asked ⊆ later) : Failed later := by
  obtain ⟨a, ha, hfault⟩ := h
  exact ⟨a, hsub ha, hfault⟩

/-- Later an operation knows all that it knew, and if it was told of a failure there was one. -/
def Told (asked later : List Asked) (failed : Bool) : Prop :=
  asked ⊆ later ∧ (failed = true → Failed later)

theorem Told.refl : Told asked asked false := ⟨List.Subset.refl _, nofun⟩

theorem Told.extend {last : List Asked} {failed : Bool} (h : Told asked later failed)
    (hsub : later ⊆ last) : Told asked last failed :=
  ⟨fun _ ha => hsub (h.1 ha), fun hfailed => (h.2 hfailed).mono hsub⟩

theorem Told.trans {last : List Asked} {failed failed' : Bool} (h : Told asked later failed)
    (h' : Told later last failed') : Told asked last (failed || failed') := by
  refine ⟨(h.extend h'.1).1, fun hfailed => ?_⟩
  rw [Bool.or_eq_true] at hfailed
  exact hfailed.elim (h.extend h'.1).2 h'.2

/-- An operation is told of the failure of its last call by the answer. -/
theorem told_answer {c : Call} {answer : c.Answer} {outcome : Except Fault Unit}
    (h : ∀ fault, outcome = .error fault → c.fault? answer = some fault) :
    Told asked (asked ++ [⟨c, answer⟩]) (!outcome.isOk) := by
  refine ⟨fun _ ha => List.mem_append_left _ ha, fun hfailed => ?_⟩
  cases outcome with
  | ok u => cases hfailed
  | error fault =>
    refine ⟨_, List.mem_append_right _ List.mem_cons_self, ?_⟩
    rw [h fault rfl]
    exact Option.some_ne_none fault

section Steps
variable {reason : List Asked → Call → Prop}

theorem reasoned_failing {skip : Bool} {e : Event} {attempt : Operation (Except Fault Unit)}
    (h : attempt.Reasoned reason (fun later answer => Told asked later (!answer.isOk)) asked) :
    (failing skip e attempt).Reasoned reason (Told asked) asked := by
  cases skip with
  | true => exact Told.refl
  | false =>
    refine Reasoned.bind h fun answer later htold => ?_
    cases answer with
    | ok u => exact htold
    | error fault => exact (reasoned_log_bind _ _).2 htold

theorem reasoned_deleteValue {keys : List Key} {tombstone force : Bool}
    (h : reason asked (.deleteValue keys tombstone force)) :
    Reasoned (α := Except Fault Unit) reason (fun later answer => Told asked later (!answer.isOk))
      (call (.deleteValue keys tombstone force)) asked :=
  reasoned_call h fun _ => told_answer fun _ hfault => hfault ▸ rfl

theorem reasoned_clearDependencies {key : Key} {tombstone : Bool}
    (h : reason asked (.clearDependencies key tombstone)) :
    Reasoned (α := Except Fault Unit) reason (fun later answer => Told asked later (!answer.isOk))
      (call (.clearDependencies key tombstone)) asked :=
  reasoned_call h fun _ => told_answer fun _ hfault => hfault ▸ rfl

theorem reasoned_addDependency {lists dependents : List Key} {ttl : Nat}
    (h : reason asked (.addDependency lists dependents ttl)) :
    Reasoned (α := Except Fault Unit) reason (fun later answer => Told asked later (!answer.isOk))
      (call (.addDependency lists dependents ttl)) asked :=
  reasoned_call h fun _ => told_answer fun _ hfault => hfault ▸ rfl

end Steps

theorem reasoned_invalidateCollections (h : Wrote policy item asked) :
    (invalidateCollections (ItemKeys.of policy.names item) extra).Reasoned
      (RemovesSaved policy item true extra) (Told asked) asked := by
  refine Reasoned.bind (reasoned_failing (reasoned_deleteValue ⟨rfl, rfl, h, .inl ⟨rfl, rfl⟩⟩))
    fun collectionsFailed later htold => ?_
  cases (ItemKeys.of policy.names item).dependencies with
  | none => exact htold
  | some list =>
    exact Reasoned.bind (reasoned_failing (reasoned_clearDependencies trivial))
      fun dependentsFailed last htold' => htold.trans htold'

/-- A failure to register the secondary keys is not reported. -/
theorem reasoned_registerItem (ttl : Nat) :
    (registerItem policy item (ItemKeys.of policy.names item) ttl).Reasoned
      (RemovesSaved policy item clearCollections extra) (Told asked) asked := by
  refine Reasoned.bind (reasoned_failing (reasoned_addDependency trivial))
    fun failed later htold => ?_
  cases (ItemKeys.of policy.names item).dependencies with
  | none => exact htold
  | some list =>
    exact Reasoned.bind (reasoned_failing (reasoned_addDependency trivial))
      fun _ last htold' => htold.extend htold'.1

theorem reasoned_rollback (hwrote : Wrote policy item asked) (hfailed : Failed asked) :
    (rollback (ItemKeys.of policy.names item)).Reasoned
      (RemovesSaved policy item clearCollections extra) (fun _ _ => True) asked := by
  refine Reasoned.bind (reasoned_deleteValue ⟨rfl, rfl, hwrote, .inr ⟨rfl, hfailed⟩⟩)
    fun answer later _ => ?_
  rw [reasoned_note_bind]
  cases answer with
  | ok u => trivial
  | error fault => exact (reasoned_log_bind _ _).2 trivial

/-- A save removes nothing before its item is written, and the item only after a failure. -/
theorem reasoned_saveItem (token : Token) :
    (saveItem policy item token clearCollections extra).Reasoned
      (RemovesSaved policy item clearCollections extra) (fun _ _ => True) [] := by
  unfold saveItem
  simp only
  split
  · trivial
  split
  · exact (reasoned_log_bind _ _).2 trivial
  rename_i document hdoc
  rw [reasoned_note_bind]
  refine reasoned_call_bind trivial fun answer => ?_
  have hreported (e : Event) (asked : List Asked) (outcome : SaveOutcome) (stored : Bool) :
      Reasoned (RemovesSaved policy item clearCollections extra) (fun _ _ => True)
        (do note (.store stored); log e; return outcome) asked := by
    rw [reasoned_note_bind, reasoned_log_bind]
    trivial
  cases answer with
  | error fault => exact hreported _ _ _ _
  | ok result =>
    simp only
    split
    · rename_i hstored
      have hwrote : Wrote policy item [⟨.setValue (ItemKeys.of policy.names item).primary
          (ItemKeys.of policy.names item).cached document.compact token
          (Cacheable.ttl α policy.ttls), .ok result⟩] := by
        refine ⟨document, hdoc, _, List.mem_cons_self, fun key hkey => ?_⟩
        simp only [Call.written, hstored, if_true]
        exact List.mem_map_of_mem hkey
      -- Both ways of clearing go on alike.
      have hregister {asked later : List Asked} {clearFailed : Bool}
          (hwrote : Wrote policy item asked) (hcleared : Told asked later clearFailed) :
          Reasoned (RemovesSaved policy item clearCollections extra) (fun _ _ => True) (do
            let registerFailed ← registerItem policy item (ItemKeys.of policy.names item)
              (Cacheable.ttl α policy.ttls)
            if clearFailed || registerFailed then rollback (ItemKeys.of policy.names item)
            else
              note (.store true)
              log (.stored (ItemKeys.of policy.names item).primary)
              return .stored) later := by
        refine Reasoned.bind (reasoned_registerItem _) fun registerFailed last hregistered => ?_
        have htold := hcleared.trans hregistered
        split
        · rename_i hfailed
          exact reasoned_rollback (hwrote.mono htold.1) (htold.2 hfailed)
        · exact hreported _ _ _ _
      cases clearCollections with
      | true =>
        exact Reasoned.bind (reasoned_invalidateCollections hwrote)
          fun clearFailed later hcleared => hregister hwrote hcleared
      | false => exact hregister hwrote Told.refl
    · exact hreported _ _ _ _

end Saves

namespace Turn
variable {t : Turn} {key : Key} {keys : List Key} {text : String}

/-- A removal that failed changed nothing. Otherwise it emptied the slots of these keys, whatever
they held, and changed nothing else. -/
def Empties (t : Turn) (keys : List Key) : Prop :=
  t.call.fault? t.answer ≠ none ∧ t.left = t.reached ∨
    t.call.fault? t.answer = none ∧ t.reached.Emptied keys t.left

theorem Genuine.empties (h : t.Genuine) (hcall : t.call = .deleteValue keys false true) :
    t.Empties keys := by
  have hundisturbed := h.alone.undisturbed t.call
  rcases h.done with hdone | hdone
  · rw [hdone, hcall]
    exact .inl ⟨nofun, rfl⟩
  · rw [hcall] at hundisturbed
    obtain ⟨hanswer, hemptied⟩ := hundisturbed.emptied
    rw [hdone, hcall]
    exact .inr ⟨congrArg (Call.fault? (.deleteValue keys false true)) hanswer, hemptied⟩

theorem Genuine.held_of_found (h : t.Genuine) (hmem : (key, text) ∈ t.call.found t.answer) :
    isToken text = false ∧ t.left.held key = some text := by
  rcases h.done with hdone | hdone
  · rw [hdone] at hmem
    exact absurd hmem (by cases hcall : t.call <;> exact List.not_mem_nil)
  · rw [hdone] at hmem ⊢
    obtain ⟨htext, -, hheld⟩ := h.alone.held_of_found hmem
    exact ⟨htext, hheld⟩

theorem Genuine.held_of_written (h : t.Genuine) (hmem : (key, text) ∈ t.call.written t.answer) :
    t.left.held key = some text := by
  rcases h.done with hdone | hdone
  · rw [hdone] at hmem
    exact absurd hmem (by cases hcall : t.call <;> exact List.not_mem_nil)
  · rw [hdone] at hmem ⊢
    exact h.alone.held_of_written hmem

end Turn

/-- **What clean-ups remove.** Whatever other clients call between the calls of an operation, on a
store of either kind, and whichever of its calls fail: a read removes the one slot in which it found
a text that is no token and is not served, and which held that text when the finding was over. A
save removes the slots of its item only after it wrote them all and a call failed since, apart from
those that its change makes out of date. A removal that does not fail empties its slots, whatever
they hold by then, and changes no other slot. -/
theorem clean_ups_empty_their_slots {s : Store} (hs : s.Alone) (env : Company) (policy : Policy) :
    (∀ c : LibraryCall, c.IsRead → ∀ before t,
      before ++ [t] <+: (c.operation policy).turns env s → ∀ keys tombstone force,
      t.call = .deleteValue keys tombstone force →
      tombstone = false ∧ force = true ∧ ∃ key raw, keys = [key] ∧ t.Empties [key] ∧
        c.serves raw = false ∧ isToken raw = false ∧
        ∃ u ∈ before, (key, raw) ∈ u.call.found u.answer ∧ u.left.held key = some raw) ∧
    ∀ (T : ItemType) (item : T.Item) token clearCollections extra before t,
      before ++ [t] <+:
        (saveItem policy item token clearCollections extra).turns env s → ∀ keys tombstone force,
      t.call = .deleteValue keys tombstone force →
      tombstone = false ∧ force = true ∧ t.Empties keys ∧
        (∃ document, Cacheable.toJson? item = some document ∧ ∃ u ∈ before,
          ∀ key ∈ (ItemKeys.of policy.names item).cached,
            u.left.held key = some document.compact) ∧
        (clearCollections = true ∧ keys = (ItemKeys.of policy.names item).stale extra ∨
          keys = (ItemKeys.of policy.names item).cached ∧
            ∃ u ∈ before, u.call.fault? u.answer ≠ none) := by
  constructor
  · intro c hread before t hturn keys tombstone force hcall
    have hjustified := (hread.reasoned policy).turns env hs
    have hreason := hjustified.reason before t hturn
    have hgenuine (u : Turn) (hu : u ∈ before ++ [t]) : u.Genuine :=
      hjustified.genuine u (hturn.subset hu)
    rw [hcall] at hreason
    obtain ⟨rfl, rfl, key, raw, rfl, hserves, a, ha, hfound⟩ := hreason
    obtain ⟨u, hu, rfl⟩ := List.mem_map.1 ha
    obtain ⟨htext, hheld⟩ := (hgenuine u (List.mem_append_left _ hu)).held_of_found hfound
    have hempties := (hgenuine t (List.mem_append_right _ List.mem_cons_self)).empties hcall
    exact ⟨rfl, rfl, key, raw, rfl, hempties, hserves, htext, u, hu, hfound, hheld⟩
  · intro T item token clearCollections extra before t hturn keys tombstone force hcall
    have hjustified : Justified (RemovesSaved policy item clearCollections extra)
        ((saveItem policy item token clearCollections extra).turns env s) :=
      (reasoned_saveItem token).turns env hs
    have hreason := hjustified.reason before t hturn
    have hgenuine (u : Turn) (hu : u ∈ before ++ [t]) : u.Genuine :=
      hjustified.genuine u (hturn.subset hu)
    rw [hcall] at hreason
    obtain ⟨rfl, rfl, ⟨document, hdoc, a, ha, hwritten⟩, hkeys⟩ := hreason
    obtain ⟨u, hu, rfl⟩ := List.mem_map.1 ha
    have hempties := (hgenuine t (List.mem_append_right _ List.mem_cons_self)).empties hcall
    refine ⟨rfl, rfl, hempties, ⟨document, hdoc, u, hu, fun key hkey => ?_⟩,
      hkeys.imp_right fun hcached => ⟨hcached.1, ?_⟩⟩
    · exact (hgenuine u (List.mem_append_left _ hu)).held_of_written (hwritten key hkey)
    · obtain ⟨a, ha, hfault⟩ := hcached.2
      obtain ⟨w, hw, rfl⟩ := List.mem_map.1 ha
      exact ⟨w, hw, hfault⟩

section Example
open Catalogue

/-- Another client locks the key `k` before one of the calls, and calls to add dependencies fail. -/
def lockingBefore (n : Nat) : Company where
  meanwhile turns := if turns.length = n then [.call (.writeToken .update ["k"])] else []
  fails _ c := match c with
    | .addDependency .. => true
    | _ => false

/-- A store in which `k` holds a text that is no document, and `l` holds a lock. -/
def spoiled : Store :=
  .memory {} {
    slots := (Slots.put .empty 0 "k" "no document" 0).put 0 "l"
      (Token.issue LockKind.update.name 0) 0
    issued := 1 }

def claimed : Store :=
  .memory {} {
    slots := Slots.put .empty 0 "k" (Token.issue LockKind.update.name 0) 0
    issued := 1 }

def dependentNode : Node where
  key := "k"
  secondary := []
  global := none
  collection := none
  deps := none
  dependsOn := ["d"]
  modified := none
  invalid := false

/-- What the key `k` held when each turn came, and what it holds after it. -/
def history (turns : List Turn) : List (Call × Option String × Option String) :=
  turns.map fun t => (t.call, t.reached.held "k", t.left.held "k")

/-- The read of the text that is no document, while another client locks the slot. -/
def spoiledRead : List Turn :=
  (LibraryCall.getItem ⟨Node⟩ "k" false).operation lasting |>.turns (lockingBefore 1) spoiled

/-- The save of the node, while another client locks its slot before the save gives up. -/
def failedSave : List Turn :=
  (saveItem lasting dependentNode (Token.issue LockKind.update.name 0) false []).turns
    (lockingBefore 2) claimed

/-- The clean-ups of the read and of the save empty `k`, in which the text that they go by had stood
before. The lock in `l` stands. -/
theorem clean_ups_leave_other_slots :
    (∃ found purge, spoiledRead = [found, purge] ∧ purge.Empties ["k"] ∧
      purge.left.held "l" = some (Token.issue LockKind.update.name 0) ∧
      ∃ raw, isToken raw = false ∧ found.left.held "k" = some raw) ∧
    ∃ saved listed removed, failedSave = [saved, listed, removed] ∧ removed.Empties ["k"] ∧
      ∃ document, Cacheable.toJson? dependentNode = some document ∧
        ∃ u ∈ [saved, listed], u.left.held "k" = some document.compact := by
  constructor
  · obtain ⟨found, purge, hturns⟩ : ∃ found purge, spoiledRead = [found, purge] := ⟨_, _, rfl⟩
    have hcall : spoiledRead[1]?.map (fun t => (t.call, t.left.held "l")) = some
        (.deleteValue ["k"] false true, some (Token.issue LockKind.update.name 0)) := by
      decide +kernel
    rw [hturns] at hcall
    obtain ⟨hcall, hheld⟩ := Prod.mk.inj (Option.some.inj hcall)
    have hprefix : [found] ++ [purge] <+: spoiledRead := hturns ▸ List.prefix_rfl
    obtain ⟨-, -, key, raw, hkeys, hempties, -, htext, u, hu, -, hstood⟩ :=
      (clean_ups_empty_their_slots (s := spoiled) trivial (lockingBefore 1) lasting).1
        (.getItem ⟨Node⟩ "k" false) trivial [found] purge hprefix _ _ _ hcall
    obtain rfl := List.singleton_inj.1 hkeys
    obtain rfl := List.mem_singleton.1 hu
    exact ⟨u, purge, hturns, hempties, hheld, raw, htext, hstood⟩
  · obtain ⟨saved, listed, removed, hturns⟩ :
        ∃ saved listed removed, failedSave = [saved, listed, removed] := ⟨_, _, _, rfl⟩
    have hcall : failedSave[2]?.map (·.call) = some (.deleteValue ["k"] false true) := by
      decide +kernel
    rw [hturns] at hcall
    have hprefix : [saved, listed] ++ [removed] <+: failedSave := hturns ▸ List.prefix_rfl
    obtain ⟨-, -, hempties, ⟨document, hdoc, u, hu, hstood⟩, -⟩ :=
      (clean_ups_empty_their_slots (s := claimed) trivial (lockingBefore 2) lasting).2
        ⟨Node⟩ dependentNode _ _ _ [saved, listed] removed hprefix _ _ _ (Option.some.inj hcall)
    have hcached : "k" ∈ (ItemKeys.of lasting.names dependentNode).cached := by decide +kernel
    exact ⟨saved, listed, removed, hturns, hempties, document, hdoc, u, hu, hstood "k" hcached⟩

/-- Both clean-ups remove a lock that another client took in between. -/
theorem clean_ups_remove_foreign_locks :
    history spoiledRead =
      [(.getValue "k" false, some "no document", some "no document"),
        (.deleteValue ["k"] false true, some (Token.issue LockKind.update.name 1), none)] ∧
    (history failedSave).getLast? =
      some (.deleteValue ["k"] false true, some (Token.issue LockKind.update.name 1), none) := by
  exact ⟨by decide +kernel, by decide +kernel⟩

end Example

end CacheCoherence
