import CacheCoherence.Proofs.Deeds
import CacheCoherence.Proofs.Library.ReleasedTokens

/-!
# The order of calls

An item is written before anything else is called, under its lock; what the change makes out of date
is cleared next, the registration follows, and the item is removed again last of all if and only if
one of these failed. A collection is the other way round: it is written once it is registered on all
its lists, which are in ascending order. A delete lock is claimed first, and given back if and only
if what depends on the item could not be cleared. This is how it goes at any store, whichever calls
fail.
-/
namespace CacheCoherence
open Operation

/-- A value was written. -/
def Call.stored : (c : Call) → c.Answer → Bool
  | .setValue .., .ok result => result.stored
  | _, _ => false

namespace Asked
variable (a : Asked)

def stored : Bool := a.call.stored a.answer

def failed : Bool := (a.call.fault? a.answer).isSome

def taken? : Option Token := a.call.taken? a.answer

end Asked

/-- Calls were made of which the first ones are told of: whether one of them failed. -/
def Attempted (told untold : List Call) (deeds : List Deed) (failed : Bool) : Prop :=
  ∃ first second, Deed.asked deeds = first ++ second ∧ first.map (·.call) = told ∧
    second.map (·.call) = untold ∧ failed = first.any (·.failed)

namespace Attempted
variable {told told' untold : List Call} {deeds more : List Deed} {failed failed' : Bool}

theorem nothing : Attempted [] [] [] false := ⟨[], [], rfl, rfl, rfl, rfl⟩

theorem append (h : Attempted told [] deeds failed) (h' : Attempted told' untold more failed') :
    Attempted (told ++ told') untold (deeds ++ more) (failed || failed') := by
  obtain ⟨first, none, hasked, htold, hnone, rfl⟩ := h
  obtain ⟨second, last, hmore, htold', huntold, rfl⟩ := h'
  obtain rfl := List.map_eq_nil_iff.1 hnone
  refine ⟨first ++ second, last, ?_, ?_, huntold, ?_⟩
  · rw [Deed.asked_append, hasked, hmore, List.append_nil, List.append_assoc]
  · rw [List.map_append, htold, htold']
  · rw [List.any_append]

theorem append_untold (h : Attempted told [] deeds failed) (h' : Attempted untold [] more failed') :
    Attempted told untold (deeds ++ more) failed := by
  obtain ⟨first, none, hasked, htold, hnone, rfl⟩ := h
  obtain ⟨second, none', hmore, huntold, hnone', -⟩ := h'
  obtain rfl := List.map_eq_nil_iff.1 hnone
  obtain rfl := List.map_eq_nil_iff.1 hnone'
  refine ⟨first, second, ?_, htold, huntold, rfl⟩
  rw [Deed.asked_append, hasked, hmore, List.append_nil, List.append_nil]

end Attempted

/-- One call was made, which tells whether it failed. -/
def AskedOnce (c : Call) (deeds : List Deed) (answer : Except Fault Unit) : Prop :=
  ∃ a : Asked, Deed.asked deeds = [a] ∧ a.call = c ∧ a.failed = !answer.isOk

theorem always_failing {skip : Bool} {e : Event} {c : Call}
    {attempt : Operation (Except Fault Unit)} (h : attempt.Always (AskedOnce c)) :
    (failing skip e attempt).Always (Attempted (if skip then [] else [c]) []) := by
  cases skip with
  | true => exact .nothing
  | false =>
    refine Always.bind h fun deeds answer honce => ?_
    obtain ⟨a, hasked, rfl, hfailed⟩ := honce
    have hany (failed : Bool) (heq : a.failed = failed) : failed = [a].any (·.failed) := by
      rw [List.any_cons, List.any_nil, Bool.or_false, heq]
    have hdone (more : List Deed) (hnone : Deed.asked more = []) :
        Deed.asked (deeds ++ more) = [a] ++ [] := by
      rw [Deed.asked_append, hasked, hnone]
    cases answer with
    | ok u => exact ⟨[a], [], hdone [] rfl, rfl, rfl, hany false hfailed⟩
    | error fault => exact fun _ => ⟨[a], [], hdone _ rfl, rfl, rfl, hany true hfailed⟩

section AskedOnce
variable (keys lists : List Key) (key : Key) (tombstone force : Bool) (ttl : Nat)

theorem askedOnce_deleteValue : Always (α := Except Fault Unit)
    (AskedOnce (.deleteValue keys tombstone force)) (call (.deleteValue keys tombstone force)) :=
  fun answer => ⟨⟨_, answer⟩, rfl, rfl, by cases answer <;> rfl⟩

theorem askedOnce_clearDependencies : Always (α := Except Fault Unit)
    (AskedOnce (.clearDependencies key tombstone)) (call (.clearDependencies key tombstone)) :=
  fun answer => ⟨⟨_, answer⟩, rfl, rfl, by cases answer <;> rfl⟩

theorem askedOnce_addDependency : Always (α := Except Fault Unit)
    (AskedOnce (.addDependency lists keys ttl)) (call (.addDependency lists keys ttl)) :=
  fun answer => ⟨⟨_, answer⟩, rfl, rfl, by cases answer <;> rfl⟩

end AskedOnce

/-- The call that registers keys with lists, if there are any. -/
def registering (lists dependents : List Key) (ttl : Nat) : List Call :=
  if lists.isEmpty then [] else [.addDependency lists dependents ttl]

/-- The calls after the write of an item that remove what it makes out of date. -/
def ItemKeys.clearings (keys : ItemKeys) (extra : List Key) : List Call :=
  (if (keys.stale extra).isEmpty then [] else [.deleteValue (keys.stale extra) false true]) ++
    keys.dependencies.toList.map (.clearDependencies · false)

/-- The call that registers the secondary keys of an item with its own list. -/
def ItemKeys.secondaryRegistration (keys : ItemKeys) (ttl : Nat) : List Call :=
  if keys.secondary.isEmpty then []
  else keys.dependencies.toList.map (.addDependency [·] keys.secondary ttl)

section Save
variable (keys : ItemKeys) (extra : List Key)

theorem always_invalidateCollections :
    (invalidateCollections keys extra).Always (Attempted (keys.clearings extra) []) := by
  refine Always.bind (always_failing (askedOnce_deleteValue _ _ _)) fun deeds failed hfirst => ?_
  unfold ItemKeys.clearings
  cases keys.dependencies with
  | none =>
    have hend := hfirst.append .nothing
    rwa [Bool.or_false] at hend
  | some list =>
    refine Always.bind (always_failing (askedOnce_clearDependencies list false))
      fun more failed' hsecond => ?_
    have hend := hfirst.append hsecond
    rwa [← List.append_nil more] at hend

theorem always_registerItem {α : Type} [Cacheable α] (policy : Policy) (item : α) (ttl : Nat) :
    (registerItem policy item keys ttl).Always (Attempted
      (registering (Cacheable.dependencyKeys policy.names item) keys.cached ttl)
      (keys.secondaryRegistration ttl)) := by
  refine Always.bind (always_failing (askedOnce_addDependency _ _ _)) fun deeds failed hfirst => ?_
  unfold ItemKeys.secondaryRegistration
  cases keys.dependencies with
  | none =>
    rw [Option.toList_none, List.map_nil, ite_self]
    exact hfirst.append_untold .nothing
  | some list =>
    refine Always.bind (always_failing (askedOnce_addDependency keys.secondary [list] ttl))
      fun more failed' hsecond => ?_
    have hend := hfirst.append_untold hsecond
    rwa [← List.append_nil more] at hend

section Item
variable {α : Type} [Cacheable α] (policy : Policy) (item : α) (token : Token)
  (clearCollections : Bool)

/-- The calls after the write of an item whose failure has it removed again. -/
def ItemKeys.required (ttl : Nat) : List Call :=
  (if clearCollections then keys.clearings extra else []) ++
    registering (Cacheable.dependencyKeys policy.names item) keys.cached ttl

abbrev itemWrite (document : Json) : Call :=
  .setValue (ItemKeys.of policy.names item).primary (ItemKeys.of policy.names item).cached
    document.compact token (Cacheable.ttl α policy.ttls)

/-- What follows the write of an item that stored it: the calls that are required and those that are
not, and the removal of the item at the very end if a required one failed. -/
def FollowsWrite (later : List Asked) : Prop :=
  ∃ required optional removal, later = required ++ optional ++ removal ∧
    required.map (·.call) = (ItemKeys.of policy.names item).required extra policy item
      clearCollections (Cacheable.ttl α policy.ttls) ∧
    optional.map (·.call) = (ItemKeys.of policy.names item).secondaryRegistration
      (Cacheable.ttl α policy.ttls) ∧
    removal.map (·.call) = if required.any (·.failed) then
      [.deleteValue (ItemKeys.of policy.names item).cached false true] else []

structure SavesInOrder (asked : List Asked) : Prop where
  silent : asked = [] ↔
    Cacheable.ttl α policy.ttls = skipTtl ∨ token = Token.noLock ∨ Cacheable.toJson? item = none
  writes_first : ∀ a ∈ asked.head?, ∃ document, Cacheable.toJson? item = some document ∧
    a.call = itemWrite policy item token document
  stops_unstored : ∀ a ∈ asked.head?, a.stored = false → asked.tail = []
  follows : ∀ a ∈ asked.head?, a.stored = true →
    FollowsWrite extra policy item clearCollections asked.tail

section Constructors
variable {extra policy item token clearCollections}

theorem SavesInOrder.of_silent (h : Cacheable.ttl α policy.ttls = skipTtl ∨
    token = Token.noLock ∨ Cacheable.toJson? item = none) :
    SavesInOrder extra policy item token clearCollections [] where
  silent := ⟨fun _ => h, fun _ => rfl⟩
  writes_first := nofun
  stops_unstored := nofun
  follows := nofun

theorem SavesInOrder.of_write {document : Json} {answer : Except Fault SetResult}
    {later : List Asked}
    (hskip : ¬ (Cacheable.ttl α policy.ttls = skipTtl ∨ token = Token.noLock))
    (hdocument : Cacheable.toJson? item = some document)
    (hunstored : (itemWrite policy item token document).stored answer = false → later = [])
    (hstored : (itemWrite policy item token document).stored answer = true →
      FollowsWrite extra policy item clearCollections later) :
    SavesInOrder extra policy item token clearCollections
      (⟨itemWrite policy item token document, answer⟩ :: later) := by
  constructor
  · rw [← or_assoc, hdocument]
    simpa using hskip
  · rintro a ⟨⟩
    exact ⟨document, hdocument, rfl⟩
  · rintro a ⟨⟩
    exact hunstored
  · rintro a ⟨⟩
    exact hstored

end Constructors

/-- After the write of an item come the calls that are required and the registration of its
secondary keys. -/
theorem always_settleItem : (settleItem policy item clearCollections extra).Always (Attempted
    ((ItemKeys.of policy.names item).required extra policy item clearCollections
      (Cacheable.ttl α policy.ttls))
    ((ItemKeys.of policy.names item).secondaryRegistration (Cacheable.ttl α policy.ttls))) := by
  -- Both ways of clearing go on alike.
  have hregister {cleared : List Call} {deeds : List Deed} {clearFailed : Bool}
      (hcleared : Attempted cleared [] deeds clearFailed) :
      Always (fun more => Attempted (cleared ++ registering
          (Cacheable.dependencyKeys policy.names item) (ItemKeys.of policy.names item).cached
          (Cacheable.ttl α policy.ttls))
        ((ItemKeys.of policy.names item).secondaryRegistration (Cacheable.ttl α policy.ttls))
        (deeds ++ more)) (do
          let registerFailed ← registerItem policy item (ItemKeys.of policy.names item)
            (Cacheable.ttl α policy.ttls)
          return clearFailed || registerFailed) := by
    refine Always.bind (always_registerItem ..) fun more registerFailed hregistered => ?_
    have hboth := hcleared.append hregistered
    rwa [← List.append_nil more] at hboth
  cases clearCollections with
  | true =>
    exact Always.bind (always_invalidateCollections ..) fun _ _ hcleared => hregister hcleared
  | false => exact hregister .nothing

theorem always_saveItem : (saveItem policy item token clearCollections extra).Always
    fun deeds _ => SavesInOrder extra policy item token clearCollections (Deed.asked deeds) := by
  by_cases hskip : Cacheable.ttl α policy.ttls = skipTtl ∨ token = Token.noLock
  · rw [saveItem, if_pos hskip]
    exact .of_silent (hskip.imp_right .inl)
  cases hdocument : Cacheable.toJson? item with
  | none =>
    rw [saveItem, if_neg hskip, hdocument]
    exact always_log_bind (.of_silent (.inr (.inr hdocument)))
  | some document =>
    rw [saveItem_eq_settle policy item token clearCollections extra hskip hdocument]
    refine always_note_bind (always_call_bind fun answer => ?_)
    cases answer with
    | error fault =>
      exact always_note_bind (always_log_bind (.of_write hskip hdocument (fun _ => rfl)
        fun h => absurd h Bool.false_ne_true))
    | ok result =>
      by_cases hstored : result.stored = true
      · have hsettled := always_settleItem extra policy item clearCollections
        simp only [hstored, if_true]
        refine Always.bind hsettled fun deeds failed hattempted => ?_
        obtain ⟨required, optional, hasked, hrequired, hoptional, rfl⟩ := hattempted
        have hend (removal : List Deed) (hremoval : (Deed.asked removal).map (·.call) =
            if required.any (·.failed) then
              [.deleteValue (ItemKeys.of policy.names item).cached false true] else []) :
            SavesInOrder extra policy item token clearCollections
              (⟨itemWrite policy item token document, .ok result⟩ ::
                Deed.asked (deeds ++ removal)) := by
          refine .of_write hskip hdocument
            (fun h => absurd (h.symm.trans hstored) Bool.false_ne_true) fun _ =>
              ⟨required, optional, Deed.asked removal, ?_, hrequired, hoptional, hremoval⟩
          rw [Deed.asked_append, hasked]
        split
        · rename_i hfailed
          refine always_call_bind fun answer => always_note_bind ?_
          cases answer with
          | ok u => exact hend _ (if_pos hfailed).symm
          | error fault => exact always_log_bind (hend _ (if_pos hfailed).symm)
        · rename_i hpassed
          exact always_note_bind (always_log_bind (hend _ (if_neg hpassed).symm))
      · simp only [hstored]
        exact always_note_bind (always_log_bind (.of_write hskip hdocument (fun _ => rfl)
          fun h => absurd h hstored))

end Item
end Save

section Collection
variable {α β : Type} [Cacheable α] [Cacheable β] (policy : Policy) (owner : β) (items : List α)
  (lockKey collectionKey : Key) (token : Token) (isGlobal : Bool)

structure RegistersInOrder (asked : List Asked) : Prop where
  silent_if_wide : maxCollectionDependencies <
    (collectionDependencies policy owner items isGlobal).keys.length → asked = []
  registers_first : asked ≠ [] → ∃ document registration write,
    collectionJson? items = some document ∧ asked = registration ++ write ∧
    registration.map (·.call) = registering
      (collectionDependencies policy owner items isGlobal).keys [collectionKey]
      (Cacheable.ttl β policy.ttls) ∧
    write.map (·.call) = if registration.any (·.failed) then []
      else [.setValue lockKey [collectionKey] document.compact token (Cacheable.ttl β policy.ttls)]

theorem always_saveCollection :
    (saveCollection policy owner items lockKey collectionKey token isGlobal).Always fun deeds _ =>
      RegistersInOrder policy owner items lockKey collectionKey token isGlobal
        (Deed.asked deeds) := by
  have hsilent : RegistersInOrder policy owner items lockKey collectionKey token isGlobal [] :=
    ⟨fun _ => rfl, fun h => absurd rfl h⟩
  unfold saveCollection
  dsimp only
  split
  · exact hsilent
  split
  · exact always_log_bind hsilent
  rename_i hnarrow
  cases hdocument : collectionJson? items with
  | none => exact always_log_bind hsilent
  | some document =>
    -- Once the collection is registered the write is the last call.
    have hend (registration write : List Asked)
        (hregistration : registration.map (·.call) = registering
          (collectionDependencies policy owner items isGlobal).keys [collectionKey]
          (Cacheable.ttl β policy.ttls))
        (hwrite : write.map (·.call) = if registration.any (·.failed) then []
          else [.setValue lockKey [collectionKey] document.compact token
            (Cacheable.ttl β policy.ttls)]) :
        RegistersInOrder policy owner items lockKey collectionKey token isGlobal
          (registration ++ write) :=
      ⟨fun hwide => absurd hwide hnarrow,
        fun _ => ⟨document, registration, write, hdocument, rfl, hregistration, hwrite⟩⟩
    unfold registering at hend
    refine always_note_bind ?_
    split
    · rename_i hempty
      rw [if_pos hempty] at hend
      refine always_call_bind fun answer => ?_
      have hwritten := hend [] [⟨_, answer⟩] rfl rfl
      cases answer with
      | error fault => exact always_note_bind (always_log_bind hwritten)
      | ok result => dsimp only; split <;> exact always_note_bind (always_log_bind hwritten)
    · rename_i hlists
      rw [if_neg hlists] at hend
      refine always_call_bind fun registered => ?_
      cases registered with
      | error fault => exact always_note_bind (always_log_bind (hend [_] [] rfl rfl))
      | ok u =>
        refine always_call_bind fun answer => ?_
        have hwritten := hend [⟨.addDependency _ _ _, .ok u⟩] [⟨_, answer⟩] rfl rfl
        cases answer with
        | error fault => exact always_note_bind (always_log_bind hwritten)
        | ok result => dsimp only; split <;> exact always_note_bind (always_log_bind hwritten)

end Collection

section Lock
variable {α : Type} [Cacheable α] (policy : Policy) (kind : LockKind) (item : α)

/-- The call with which a delete lock clears what depends on the item. -/
def ItemKeys.dependentsCleared (keys : ItemKeys) : List Call :=
  if kind = .delete then keys.dependencies.toList.map (.clearDependencies · true) else []

structure ClaimsInOrder (claim : Asked) (later : List Asked) : Prop where
  claims_first : claim.call = .writeToken kind ((ItemKeys.of policy.names item).lockKeys kind)
  stops_unlocked : claim.taken? = none → later = []
  releases_last : ∀ token, claim.taken? = some token → ∃ clearing release,
    later = clearing ++ release ∧
    clearing.map (·.call) = (ItemKeys.of policy.names item).dependentsCleared kind ∧
    release.map (·.call) = if clearing.any (·.failed) then
      [.releaseToken ((ItemKeys.of policy.names item).lockKeys kind) token] else []

theorem always_takeItemLock : (takeItemLock policy kind item).Always fun deeds _ =>
    ∃ claim later, Deed.asked deeds = claim :: later ∧
      ClaimsInOrder policy kind item claim later := by
  unfold takeItemLock
  refine always_note_bind (always_call_bind fun answer => ?_)
  cases answer with
  | error fault => exact always_log_bind ⟨_, _, rfl, rfl, fun _ => rfl, nofun⟩
  | ok token =>
    dsimp only
    split
    · rename_i hnone
      refine always_log_bind ⟨_, _, rfl, rfl, fun _ => rfl, fun token' htaken => ?_⟩
      exact absurd ((if_pos hnone).symm.trans htaken) nofun
    · rename_i hlock
      have hend (clearing release : List Asked)
          (hclearing : clearing.map (·.call) =
            (ItemKeys.of policy.names item).dependentsCleared kind)
          (hrelease : release.map (·.call) = if clearing.any (·.failed) then
            [.releaseToken ((ItemKeys.of policy.names item).lockKeys kind) token] else []) :
          ClaimsInOrder policy kind item ⟨.writeToken kind
            ((ItemKeys.of policy.names item).lockKeys kind), .ok token⟩ (clearing ++ release) := by
        have htaken : Asked.taken? ⟨.writeToken kind
            ((ItemKeys.of policy.names item).lockKeys kind), .ok token⟩ = some token := if_neg hlock
        refine ⟨rfl, fun hnone => absurd (htaken.symm.trans hnone) nofun, fun token' htoken => ?_⟩
        obtain rfl := Option.some.inj (htaken.symm.trans htoken)
        exact ⟨clearing, release, rfl, hclearing, hrelease⟩
      unfold ItemKeys.dependentsCleared at hend
      split
      · rename_i list hlist
        rw [if_pos rfl, hlist] at hend
        refine always_call_bind fun cleared => ?_
        cases cleared with
        | error fault =>
          exact always_log_bind (always_call_bind fun u => ⟨_, _, rfl, hend [_] [_] rfl rfl⟩)
        | ok u => exact always_log_bind ⟨_, _, rfl, hend [_] [] rfl rfl⟩
      · rename_i hspared
        refine always_log_bind ⟨_, _, rfl, hend [] [] ?_ rfl⟩
        split
        · rename_i hdelete
          cases hlist : (ItemKeys.of policy.names item).dependencies with
          | none => rfl
          | some list => exact (hspared list hdelete hlist).elim
        · rfl

end Lock

/-- **Order of the calls.** A recorder keeps the calls of an operation in the order of its deeds. At
any store and whichever calls fail, those of a save of an item begin with its write, which nothing
follows unless it stored, and end with the removal of the item if and only if one of the required
calls in between failed. Those of a save of a collection are its registration on all its lists, in
ascending order, and its write only if the registration did not fail, and there are none if the
lists are too many. Those for a lock on an item begin with the claim, which nothing follows unless
it was granted, and end with its release if and only if the dependents could not be cleared. -/
theorem library_calls_in_order {σ : Type} (answer : (q : Action) → σ → q.Answer × σ) (s : σ)
    (policy : Policy) {α β : Type} [Cacheable α] [Cacheable β] (item : α) (items : List α)
    (owner : β) (token : Token) :
    (∀ (session : Session) name {γ : Type} (op : Operation γ),
      (session.run name op).2.recorder.calls = session.recorder.calls ++
        (Deed.asked (op.deeds (Session.answer (session.context name)) session)).map (·.call)) ∧
    (∀ clearCollections extra, SavesInOrder extra policy item token clearCollections
      (Deed.asked ((saveItem policy item token clearCollections extra).deeds answer s))) ∧
    (∀ lockKey collectionKey isGlobal,
      let lists := (collectionDependencies policy owner items isGlobal).keys
      lists.Pairwise (· < ·) ∧
      (∀ list, list ∈ lists ↔ (∃ item ∈ items, list ∈ listKeys policy.names item) ∨
        isGlobal = false ∧ Cacheable.dependenciesKey? policy.names owner = some list) ∧
      RegistersInOrder policy owner items lockKey collectionKey token isGlobal
        (Deed.asked ((saveCollection policy owner items lockKey collectionKey token isGlobal).deeds
          answer s))) ∧
    ∀ kind, ∃ claim later,
      Deed.asked ((takeItemLock policy kind item).deeds answer s) = claim :: later ∧
        ClaimsInOrder policy kind item claim later := by
  refine ⟨fun session name γ op => ?_, fun clearCollections extra => ?_,
    fun lockKey collectionKey isGlobal => ⟨Table.pairwise_keys _, fun list =>
      mem_collectionDependencies, ?_⟩, fun kind => ?_⟩
  · exact congrArg Recorder.calls (recorder_through (session.context name) op session)
  · exact (always_saveItem extra policy item token clearCollections).run answer s
  · exact (always_saveCollection policy owner items lockKey collectionKey token isGlobal).run
      answer s
  · exact (always_takeItemLock policy kind item).run answer s

/-- A failed registration has the item removed after all other calls. -/
example :
    let node : Catalogue.Node := ⟨"k", ["m"], none, none, some "d", ["l"], some "c", false⟩
    let s : Session :=
      { policy := Catalogue.lasting
        store := .memory {} {}
        recorder := { rules := [⟨"AddDependency", some "l"⟩] } }
    (s.run "" (do
      let answer ← takeItemLock Catalogue.lasting .update node
      match answer with
      | .ok token => saveItem Catalogue.lasting node token true []
      | .error _ => return .skipped)).2.recorder.calls.map Call.name =
        ["WriteSentinel", "SetValue", "DeleteValue", "ClearDependencies", "AddDependency",
          "AddDependency", "DeleteValue"] := by
  decide +kernel

end CacheCoherence
