import CacheCoherence.Proofs.Cache.Save
import CacheCoherence.Proofs.Deeds
import CacheCoherence.Proofs.Library.Basic

/-!
# What a call of the library tells the metrics

Every exit of a call of the library takes one note of the call and one of how long it took, unless
the call is for a lock, and the right notes of what came of it. So the notes of a call balance a
bill that is made out from its result, whatever the store answers. A save of the members of a
collection is billed for the locks and saves that it consists of.
-/
namespace CacheCoherence
open Operation

def Action.noted : Action → List Note
  | .note n => [n]
  | _ => []

namespace Deed

def noted (deeds : List Deed) : List Note := deeds.flatMap fun deed => deed.action.noted

@[simp] theorem noted_append (first second : List Deed) :
    noted (first ++ second) = noted first ++ noted second := List.flatMap_append

end Deed

/-- What is to be found in the metrics after a call. -/
@[ext] structure Bill where
  /-- Takes and releases of locks that called the store. -/
  locks : Nat := 0
  lookups : Nat := 0
  /-- Lookups that returned an item. -/
  hits : Nat := 0
  /-- Saves that stored. -/
  stores : Nat := 0
  deletions : Nat := 0
deriving DecidableEq

namespace Bill

instance : Zero Bill := ⟨{}⟩

instance : Add Bill :=
  ⟨fun a b => ⟨a.locks + b.locks, a.lookups + b.lookups, a.hits + b.hits, a.stores + b.stores,
    a.deletions + b.deletions⟩⟩

section Add
variable (a b : Bill)

@[simp] theorem locks_add : (a + b).locks = a.locks + b.locks := rfl

@[simp] theorem lookups_add : (a + b).lookups = a.lookups + b.lookups := rfl

@[simp] theorem hits_add : (a + b).hits = a.hits + b.hits := rfl

@[simp] theorem stores_add : (a + b).stores = a.stores + b.stores := rfl

@[simp] theorem deletions_add : (a + b).deletions = a.deletions + b.deletions := rfl

end Add
end Bill

/-- How many notes tell how long something took. -/
def Note.timed (noted : List Note) : Nat :=
  noted.count .read + (noted.count (.store true) + noted.count (.store false)) +
    (noted.count (.deletion true) + noted.count (.deletion false))

/-- Notes agree with a bill. -/
structure Bill.Balances (bill : Bill) (noted : List Note) : Prop where
  calls : noted.count .call = Note.timed noted + bill.locks
  lookups : noted.count (.lookup true) + noted.count (.lookup false) = bill.lookups
  hits : noted.count (.lookup true) = bill.hits
  stores : noted.count (.store true) = bill.stores
  deletions : noted.count (.deletion true) = bill.deletions

namespace Bill.Balances
variable {a b : Bill} {noted more : List Note}

theorem nothing : Balances 0 [] := ⟨rfl, rfl, rfl, rfl, rfl⟩

theorem append (ha : a.Balances noted) (hb : b.Balances more) :
    (a + b).Balances (noted ++ more) where
  calls := by
    have hcalls := ha.calls
    have hcalls' := hb.calls
    simp only [Note.timed, List.count_append, locks_add] at *
    omega
  lookups := by
    rw [lookups_add, ← ha.lookups, ← hb.lookups, List.count_append, List.count_append]
    omega
  hits := by rw [hits_add, ← ha.hits, ← hb.hits, List.count_append]
  stores := by rw [stores_add, ← ha.stores, ← hb.stores, List.count_append]
  deletions := by rw [deletions_add, ← ha.deletions, ← hb.deletions, List.count_append]

theorem flatMap {ι : Type*} {items : List ι} {bill : ι → Bill} {notes : ι → List Note}
    (h : ∀ x ∈ items, (bill x).Balances (notes x)) :
    (items.map bill).sum.Balances (items.flatMap notes) := by
  induction items with
  | nil => exact .nothing
  | cons x rest ih =>
    rw [List.map_cons, List.sum_cons, List.flatMap_cons]
    exact (h x List.mem_cons_self).append (ih fun y hy => h y (List.mem_cons_of_mem x hy))

theorem reading (h : a.Balances noted) : a.Balances (.call :: .read :: noted) := by
  have hreading : Balances 0 [.call, .read] := ⟨rfl, rfl, rfl, rfl, rfl⟩
  have hboth := hreading.append h
  have hzero : 0 + a = a := by
    ext
    all_goals exact Nat.zero_add _
  rwa [hzero] at hboth

end Bill.Balances

namespace Operation
variable {α β : Type}

/-- Whatever it is answered, an operation takes no notes. -/
def Unnoted (op : Operation α) : Prop := op.Always fun deeds _ => Deed.noted deeds = []

theorem unnoted_call (c : Call) : (call c).Unnoted := fun _ => rfl

theorem unnoted_log (e : Event) : (log e).Unnoted := fun _ => rfl

theorem unnoted_pure (a : α) : Unnoted (pure a) := rfl

theorem Unnoted.bind {op : Operation α} {next : α → Operation β} (h : op.Unnoted)
    (hnext : ∀ a, (next a).Unnoted) : (op >>= next).Unnoted := by
  refine Always.bind h fun deeds a hdeeds => (hnext a).mono fun more b hmore => ?_
  rw [Deed.noted_append, hdeeds, hmore]
  rfl

end Operation

section Saves
variable {α : Type} [Cacheable α] (policy : Policy) (item : α)

def SaveOutcome.bill (outcome : SaveOutcome) : Bill where
  stores := if outcome = .stored then 1 else 0

theorem SaveOutcome.bill_balances {outcome : SaveOutcome} {stored : Bool}
    (h : stored = decide (outcome = .stored)) : outcome.bill.Balances [.call, .store stored] := by
  cases outcome <;> subst h <;> exact ⟨rfl, rfl, rfl, rfl, rfl⟩

theorem unnoted_failing (skip : Bool) (e : Event) {attempt : Operation (Except Fault Unit)}
    (h : attempt.Unnoted) : (failing skip e attempt).Unnoted := by
  cases skip with
  | true => exact unnoted_pure false
  | false =>
    refine h.bind fun answer => ?_
    cases answer with
    | ok u => exact unnoted_pure false
    | error fault => exact (unnoted_log e).bind fun _ => unnoted_pure true

theorem unnoted_invalidateCollections (keys : ItemKeys) (extra : List Key) :
    (invalidateCollections keys extra).Unnoted := by
  refine (unnoted_failing _ _ (unnoted_call _)).bind fun collectionsFailed => ?_
  cases keys.dependencies with
  | none => exact unnoted_pure _
  | some list =>
    exact (unnoted_failing _ _ (unnoted_call _)).bind fun dependentsFailed => unnoted_pure _

theorem unnoted_registerItem (keys : ItemKeys) (ttl : Nat) :
    (registerItem policy item keys ttl).Unnoted := by
  refine (unnoted_failing _ _ (unnoted_call _)).bind fun failed => ?_
  cases keys.dependencies with
  | none => exact unnoted_pure _
  | some list => exact (unnoted_failing _ _ (unnoted_call _)).bind fun _ => unnoted_pure _

theorem unnoted_settleItem (clearCollections : Bool) (extra : List Key) :
    (settleItem policy item clearCollections extra).Unnoted := by
  have hregister (clearFailed : Bool) : Unnoted (do
      let registerFailed ← registerItem policy item (ItemKeys.of policy.names item)
        (Cacheable.ttl α policy.ttls)
      return clearFailed || registerFailed) :=
    (unnoted_registerItem ..).bind fun _ => unnoted_pure _
  cases clearCollections with
  | true => exact (unnoted_invalidateCollections ..).bind hregister
  | false => exact hregister false

theorem billed_saveItem (token : Token) (clearCollections : Bool) (extra : List Key) :
    (saveItem policy item token clearCollections extra).Always fun deeds outcome =>
      outcome.bill.Balances (Deed.noted deeds) := by
  by_cases hskip : Cacheable.ttl α policy.ttls = skipTtl ∨ token = Token.noLock
  · rw [saveItem, if_pos hskip]
    exact .nothing
  cases hdocument : Cacheable.toJson? item with
  | none =>
    rw [saveItem, if_neg hskip, hdocument]
    exact always_log_bind .nothing
  | some document =>
    rw [saveItem_eq_settle policy item token clearCollections extra hskip hdocument]
    refine always_note_bind (always_call_bind fun answer => ?_)
    cases answer with
    | error fault => exact always_note_bind (always_log_bind (SaveOutcome.bill_balances rfl))
    | ok result =>
      by_cases hstored : result.stored = true
      · simp only [hstored, if_true]
        refine Always.bind (unnoted_settleItem policy item clearCollections extra)
          fun deeds failed hsettled => ?_
        have hend (more : List Deed) (outcome : SaveOutcome)
            (hmore : Deed.noted more = [.store (decide (outcome = .stored))]) :
            outcome.bill.Balances (.call :: Deed.noted (deeds ++ more)) := by
          rw [Deed.noted_append, hsettled, hmore]
          exact SaveOutcome.bill_balances rfl
        split
        · refine always_call_bind fun answer => always_note_bind ?_
          cases answer with
          | ok u => exact hend _ _ rfl
          | error fault => exact always_log_bind (hend _ _ rfl)
        · exact always_note_bind (always_log_bind (hend _ _ rfl))
      · simp only [hstored]
        exact always_note_bind (always_log_bind (SaveOutcome.bill_balances rfl))

theorem billed_saveCollection {β : Type} [Cacheable β] (owner : β) (items : List α)
    (lockKey collectionKey : Key) (token : Token) (isGlobal : Bool) :
    (saveCollection policy owner items lockKey collectionKey token isGlobal).Always
      fun deeds outcome => outcome.bill.Balances (Deed.noted deeds) := by
  unfold saveCollection
  dsimp only
  split
  · exact .nothing
  split
  · exact always_log_bind .nothing
  cases collectionJson? items with
  | none => exact always_log_bind .nothing
  | some document =>
    refine always_note_bind ?_
    have hreported (n : Bool) (e : Event) (outcome : SaveOutcome)
        (h : n = decide (outcome = .stored)) :
        Always (fun deeds outcome => outcome.bill.Balances (.call :: Deed.noted deeds))
          (do note (.store n); log e; return outcome) :=
      always_note_bind (always_log_bind (SaveOutcome.bill_balances h))
    split
    · refine always_call_bind fun answer => ?_
      cases answer with
      | error fault => exact hreported _ _ _ rfl
      | ok result => dsimp only; split <;> exact hreported _ _ _ rfl
    · refine always_call_bind fun registered => ?_
      cases registered with
      | error fault => exact hreported _ _ _ rfl
      | ok u =>
        refine always_call_bind fun answer => ?_
        cases answer with
        | error fault => exact hreported _ _ _ rfl
        | ok result => dsimp only; split <;> exact hreported _ _ _ rfl

end Saves

section Locks
variable {α : Type} [Cacheable α] (policy : Policy) (kind : LockKind) (item : α)

/-- A lock or its release is billed if it called the store. -/
def Bill.ofLock (called : Bool) : Bill where
  locks := called.toNat

def Deed.called (deeds : List Deed) : Bool := !(Deed.asked deeds).isEmpty

theorem billed_takeItemLock : (takeItemLock policy kind item).Always fun deeds _ =>
    Deed.called deeds = true ∧ (Bill.ofLock true).Balances (Deed.noted deeds) := by
  have hcalled : true = true ∧ (Bill.ofLock true).Balances [.call] :=
    ⟨rfl, rfl, rfl, rfl, rfl, rfl⟩
  unfold takeItemLock
  refine always_note_bind (always_call_bind fun answer => ?_)
  cases answer with
  | error fault => exact always_log_bind hcalled
  | ok token =>
    dsimp only
    split
    · exact always_log_bind hcalled
    split
    · refine always_call_bind fun cleared => ?_
      cases cleared with
      | error fault => exact always_log_bind (always_call_bind fun _ => hcalled)
      | ok u => exact always_log_bind hcalled
    · exact always_log_bind hcalled

theorem billed_releaseItemLock (token : Token) :
    (releaseItemLock policy kind item token).Always fun deeds _ =>
      Deed.called deeds = decide (token ≠ Token.noLock) ∧
        (Bill.ofLock (Deed.called deeds)).Balances (Deed.noted deeds) := by
  unfold releaseItemLock
  split
  · rename_i hnone
    exact ⟨(decide_eq_false (not_not_intro hnone)).symm, .nothing⟩
  · rename_i hlock
    exact always_note_bind (always_call_bind fun _ =>
      ⟨(decide_eq_true hlock).symm, rfl, rfl, rfl, rfl, rfl⟩)

theorem billed_takeCollectionLock (extra : List Key) :
    (takeCollectionLock policy kind item extra).Always fun deeds _ =>
      (Bill.ofLock (Deed.called deeds)).Balances (Deed.noted deeds) := by
  unfold takeCollectionLock
  cases collectionLockKeys policy kind item extra with
  | error e => exact .nothing
  | ok keys =>
    refine always_note_bind (always_call_bind fun answer => ?_)
    cases answer with
    | error fault => exact always_log_bind ⟨rfl, rfl, rfl, rfl, rfl⟩
    | ok token => exact ⟨rfl, rfl, rfl, rfl, rfl⟩

theorem billed_releaseCollectionLock (extra : List Key) (token : Token) :
    (releaseCollectionLock policy kind item extra token).Always fun deeds _ =>
      (Bill.ofLock (Deed.called deeds)).Balances (Deed.noted deeds) := by
  unfold releaseCollectionLock
  cases collectionLockKeys policy kind item extra with
  | error e => exact .nothing
  | ok keys =>
    dsimp only
    split
    · exact .nothing
    · exact always_note_bind (always_call_bind fun _ => ⟨rfl, rfl, rfl, rfl, rfl⟩)

end Locks

section Reads
variable {α : Type}

def Found.bill (found : List (Found α)) : Bill where
  lookups := found.length
  hits := found.countP (·.isHit)

theorem Found.bill_cons (first : Found α) (others : List (Found α)) :
    Found.bill (first :: others) = Found.bill [first] + Found.bill others := by
  ext
  · rfl
  · exact Nat.add_comm _ _
  · rw [Bill.hits_add]
    change (first :: others).countP _ = [first].countP _ + others.countP _
    rw [← List.countP_append, List.singleton_append]
  · rfl
  · rfl

theorem billed_resolve (entry : Entry α) (key : Key) (lookup : Lookup) :
    (resolve entry key lookup).Always fun deeds found =>
      (Found.bill [found]).Balances (Deed.noted deeds) := by
  have hmissed (token : Token) :
      (Found.bill [(Found.miss token : Found α)]).Balances [.lookup false] :=
    ⟨rfl, rfl, rfl, rfl, rfl⟩
  unfold resolve
  cases lookup.value with
  | none => exact always_note_bind (always_log_bind (hmissed _))
  | some raw =>
    dsimp only
    split
    · exact always_note_bind (always_log_bind ⟨rfl, rfl, rfl, rfl, rfl⟩)
    · refine always_note_bind (always_log_bind ?_)
      have hpurge : (purge key).Unnoted := by
        refine (unnoted_call _).bind fun answer => ?_
        cases answer with
        | ok u => exact unnoted_pure u
        | error fault => exact unnoted_log _
      refine Always.bind hpurge fun deeds _ hdeeds => ?_
      change (Found.bill [Found.miss Token.noLock]).Balances
        (.lookup false :: Deed.noted (deeds ++ []))
      rw [List.append_nil, hdeeds]
      exact hmissed _

theorem billed_miss (e : Event) : Always (fun deeds found =>
      (Found.bill [found]).Balances (.call :: .read :: Deed.noted deeds))
    (do note (.lookup false); log e; return (Found.miss Token.noLock : Found α)) :=
  always_note_bind (always_log_bind (Bill.Balances.reading ⟨rfl, rfl, rfl, rfl, rfl⟩))

theorem billed_fetch (entry : Entry α) (key : Key) (lock : Bool) :
    (fetch entry key lock).Always fun deeds found =>
      (Found.bill [found]).Balances (Deed.noted deeds) := by
  refine always_note_bind (always_call_bind fun answer => always_note_bind ?_)
  cases answer with
  | error fault => exact billed_miss _
  | ok lookup => exact (billed_resolve entry key lookup).mono fun _ _ h => h.reading

theorem billed_noteMisses (keys : List Key) : (noteMisses keys).Always fun deeds _ =>
    (Found.bill (keys.map fun _ => (Found.miss Token.noLock : Found α))).Balances
      (Deed.noted deeds) := by
  induction keys with
  | nil => exact .nothing
  | cons key rest ih =>
    refine always_note_bind (ih.mono fun deeds _ h => ?_)
    rw [List.map_cons, Found.bill_cons]
    have hmiss : (Found.bill [(Found.miss Token.noLock : Found α)]).Balances [.lookup false] :=
      ⟨rfl, rfl, rfl, rfl, rfl⟩
    exact hmiss.append h

variable {γ : Type} [Cacheable α] (policy : Policy)

variable (α) in
/-- Reads of a type that is not cached are not billed. -/
def readBill (found : List (Found γ)) : Bill := if skips policy α then 0 else Found.bill found

theorem billed_unless_skipped {op : Operation (Found γ)} (token : Token)
    (h : op.Always fun deeds found => (Found.bill [found]).Balances (Deed.noted deeds)) :
    Always (fun deeds found => (readBill α policy [found]).Balances (Deed.noted deeds))
      (if skips policy α then return .miss token else op) := by
  unfold readBill
  cases skips policy α with
  | true => exact .nothing
  | false => exact h

theorem billed_getItem (key : Key) (lock : Bool) :
    (getItem policy key lock : Operation (Found α)).Always fun deeds found =>
      (readBill α policy [found]).Balances (Deed.noted deeds) :=
  billed_unless_skipped policy _ (billed_fetch servableItem key lock)

theorem billed_getCollection (key : Key) (lock : Bool) :
    (getCollection policy key lock : Operation (Found (List α))).Always fun deeds found =>
      (readBill α policy [found]).Balances (Deed.noted deeds) :=
  billed_unless_skipped policy _ (billed_fetch servableItems key lock)

theorem billed_getItemUnlessModified (key modifiedKey : Key) (lock : Bool) :
    (getItemUnlessModified policy key modifiedKey lock : Operation (Found α)).Always
      fun deeds found => (readBill α policy [found]).Balances (Deed.noted deeds) := by
  refine billed_unless_skipped policy _ (always_note_bind (always_call_bind fun answer =>
    always_note_bind ?_))
  rcases answer with fault | (_ | ⟨lookup, _ | ⟨modified, rest⟩⟩)
  · exact billed_miss _
  · exact billed_miss _
  · exact billed_miss _
  · dsimp only
    split
    · exact always_call_bind fun _ => billed_miss _
    · exact (billed_resolve servableItem key lookup).mono fun _ _ h => h.reading

theorem billed_resolveAll (entries : List (Key × Lookup)) :
    (resolveAll entries : Operation (List (Found α))).Always fun deeds found =>
      (Found.bill found).Balances (Deed.noted deeds) := by
  induction entries with
  | nil => exact .nothing
  | cons entry rest ih =>
    refine Always.bind (billed_resolve servableItem entry.1 entry.2) fun deeds first hfirst => ?_
    refine Always.bind ih fun more others hothers => ?_
    change (Found.bill (first :: others)).Balances (Deed.noted (deeds ++ (more ++ [])))
    rw [List.append_nil, Deed.noted_append, Found.bill_cons]
    exact hfirst.append hothers

theorem billed_getItems (keys : List Key) (lock : Bool) :
    (getItems policy keys lock : Operation (List (Found α))).Always fun deeds found =>
      (readBill α policy found).Balances (Deed.noted deeds) := by
  unfold getItems readBill
  cases skips policy α with
  | true =>
    rw [Bool.or_true]
    exact .nothing
  | false =>
    simp only [Bool.or_false, Bool.false_eq_true, if_false]
    cases hempty : keys.isEmpty with
    | true =>
      rw [List.isEmpty_iff.1 hempty]
      exact .nothing
    | false =>
      refine always_note_bind (always_call_bind fun answer => always_note_bind ?_)
      cases answer with
      | error fault =>
        refine Always.bind (billed_noteMisses (α := α) keys) fun deeds _ hmisses => ?_
        refine always_log_bind ?_
        change (Found.bill _).Balances (.call :: .read :: Deed.noted (deeds ++ [_]))
        rw [Deed.noted_append]
        exact (List.append_nil (Deed.noted deeds)).symm ▸ hmisses.reading
      | ok lookups => exact (billed_resolveAll (keys.zip lookups)).mono fun _ _ h => h.reading

end Reads

section Removals
variable {α : Type} [Cacheable α] (policy : Policy)

/-- A removal is billed if it had a lock and succeeded. -/
def deletionBill (token : Token) (answer : Except CacheError Unit) : Bill where
  deletions := if token ≠ Token.noLock ∧ answer.isOk = true then 1 else 0

theorem billed_deleteItem (item : α) (token : Token) :
    (deleteItem policy item token).Always fun deeds answer =>
      (deletionBill token answer).Balances (Deed.noted deeds) := by
  unfold deleteItem deletionBill
  by_cases hnone : token = Token.noLock
  · simp only [hnone, ne_eq, not_true_eq_false, false_and, if_true, if_false]
    exact .nothing
  · simp only [hnone, ne_eq, not_false_eq_true, true_and, if_false]
    refine always_note_bind (always_call_bind fun answer => ?_)
    cases answer with
    | ok u => exact always_note_bind (always_log_bind ⟨rfl, rfl, rfl, rfl, rfl⟩)
    | error fault => exact always_note_bind (always_log_bind ⟨rfl, rfl, rfl, rfl, rfl⟩)

theorem unnoted_flushNamespace (tombstones : Bool) :
    (flushNamespace policy tombstones).Unnoted := by
  refine (unnoted_log _).bind fun _ => (unnoted_call _).bind fun answer => ?_
  cases answer <;> exact unnoted_pure _

end Removals

section Members
variable {α : Type} [Cacheable α] (policy : Policy)

/-- Caches one member of a collection and reports the outcome of its save, if it got a lock. -/
def reportMember (item : α) : Operation (Option SaveOutcome) := do
  match ← takeItemLock policy .read item with
  | .error _ => return none
  | .ok token =>
    if token = Token.noLock then return none
    else
      let outcome ← saveItem policy item token false []
      releaseItemLock policy .read item token
      return some outcome

def reportMembers : List α → Operation (List (Option SaveOutcome))
  | [] => return []
  | item :: rest => do
    let report ← reportMember policy item
    let others ← reportMembers rest
    return report :: others

theorem saveMember_eq (item : α) :
    saveMember policy item = (·.any (·.isStored)) <$> reportMember policy item := by
  rw [map_eq_pure_bind, saveMember, reportMember, bind_assoc]
  refine bind_congr fun answer => ?_
  cases answer with
  | error e => rfl
  | ok token =>
    dsimp only
    split
    · rfl
    · simp only [bind_assoc, pure_bind, Option.any_some]

theorem saveMembers_eq (items : List α) :
    saveMembers policy items =
      List.countP (·.any (·.isStored)) <$> reportMembers policy items := by
  induction items with
  | nil => rfl
  | cons item rest ih =>
    rw [saveMembers, reportMembers, saveMember_eq, ih]
    simp only [map_eq_pure_bind, bind_assoc, pure_bind]
    refine bind_congr fun report => bind_congr fun others => ?_
    rw [List.countP_cons, Nat.add_comm]
    cases report.any (·.isStored) <;> rfl

/-- A member is billed for its lock and, if it was saved, for the save and the release. -/
def memberBill : Option SaveOutcome → Bill
  | none => .ofLock true
  | some outcome => .ofLock true + (outcome.bill + .ofLock true)

theorem billed_reportMember (item : α) : (reportMember policy item).Always fun deeds report =>
    (memberBill report).Balances (Deed.noted deeds) := by
  refine Always.bind (billed_takeItemLock policy .read item) fun deeds answer htaken => ?_
  have hnone : (memberBill none).Balances (Deed.noted (deeds ++ [])) := by
    rw [List.append_nil]
    exact htaken.2
  cases answer with
  | error e => exact hnone
  | ok token =>
    dsimp only
    split
    · exact hnone
    · rename_i hlock
      refine Always.bind (billed_saveItem policy item token false []) fun more outcome hsaved => ?_
      refine Always.bind (billed_releaseItemLock policy .read item token)
        fun last _ hreleased => ?_
      obtain ⟨hcalled, hreleased⟩ := hreleased
      rw [hcalled, decide_eq_true hlock] at hreleased
      change (memberBill (some outcome)).Balances (Deed.noted (deeds ++ (more ++ (last ++ []))))
      rw [List.append_nil, Deed.noted_append, Deed.noted_append]
      exact htaken.2.append (hsaved.append hreleased)

theorem billed_reportMembers (items : List α) : (reportMembers policy items).Always
    fun deeds reports => (reports.map memberBill).sum.Balances (Deed.noted deeds) := by
  induction items with
  | nil => exact .nothing
  | cons item rest ih =>
    refine Always.bind (billed_reportMember policy item) fun deeds report hfirst => ?_
    refine Always.bind ih fun more others hothers => ?_
    change ((report :: others).map memberBill).sum.Balances (Deed.noted (deeds ++ (more ++ [])))
    rw [List.append_nil, Deed.noted_append, List.map_cons, List.sum_cons]
    exact hfirst.append hothers

end Members

namespace LibraryCall

/-- The operation of a call, with a report on each member where it saves members. -/
def reported (policy : Policy) :
    (c : LibraryCall) → Operation (c.Answer × List (Option SaveOutcome))
  | .saveMember item =>
    (fun report => (report.any (·.isStored), [report])) <$> reportMember policy item
  | .saveMembers items =>
    (fun reports => (reports.countP (·.any (·.isStored)), reports)) <$> reportMembers policy items
  | c => (fun answer => (answer, [])) <$> c.operation policy

theorem fst_map_reported (policy : Policy) (c : LibraryCall) :
    Prod.fst <$> c.reported policy = c.operation policy := by
  cases c with
  | saveMember item =>
    refine (comp_map _ _ _).symm.trans ?_
    exact (saveMember_eq policy item).symm
  | saveMembers items =>
    refine (comp_map _ _ _).symm.trans ?_
    exact (saveMembers_eq policy items).symm
  | _ => exact (comp_map _ _ _).symm.trans (id_map (f := Operation) _)

/-- What a call is billed for, given whether it called the store. -/
def bill (policy : Policy) (called : Bool) :
    (c : LibraryCall) → c.Answer × List (Option SaveOutcome) → Bill
  | .takeItemLock .., _ | .releaseItemLock .., _ | .takeCollectionLock .., _
  | .releaseCollectionLock .., _ => .ofLock called
  | .getItem T .., (found, _) => readBill T.Item policy [found]
  | .getItemUnlessModified T .., (found, _) => readBill T.Item policy [found]
  | .getItems T .., (found, _) => readBill T.Item policy found
  | .getCollection T .., (found, _) => readBill T.Item policy [found]
  | .saveItem .., (outcome, _) | .saveCollection .., (outcome, _) => outcome.bill
  | .saveMember .., (_, members) | .saveMembers .., (_, members) => (members.map memberBill).sum
  | .deleteItem _ token, (answer, _) => deletionBill token answer
  | .flush .., _ => 0

/-- The notes of a call balance its bill. -/
theorem billed (policy : Policy) (c : LibraryCall) : (c.reported policy).Always fun deeds report =>
    (c.bill policy (Deed.called deeds) report).Balances (Deed.noted deeds) := by
  cases c with
  | takeItemLock kind item =>
    refine Always.map ((billed_takeItemLock policy kind item).mono fun deeds _ h => ?_)
    exact h.1.symm ▸ h.2
  | releaseItemLock kind item token =>
    exact Always.map ((billed_releaseItemLock policy kind item token).mono fun _ _ h => h.2)
  | takeCollectionLock kind item extra =>
    exact Always.map (billed_takeCollectionLock policy kind item extra)
  | releaseCollectionLock kind item extra token =>
    exact Always.map (billed_releaseCollectionLock policy kind item extra token)
  | getItem T key lock => exact Always.map (billed_getItem policy key lock)
  | getItemUnlessModified T key modifiedKey lock =>
    exact Always.map (billed_getItemUnlessModified policy key modifiedKey lock)
  | getItems T keys lock => exact Always.map (billed_getItems policy keys lock)
  | getCollection T key lock => exact Always.map (billed_getCollection policy key lock)
  | saveItem item token clearCollections extra =>
    exact Always.map (billed_saveItem policy item token clearCollections extra)
  | saveCollection owner items lockKey collectionKey token isGlobal =>
    exact Always.map (billed_saveCollection policy owner items lockKey collectionKey token isGlobal)
  | saveMember item =>
    refine Always.map ((billed_reportMember policy item).mono fun deeds report h => ?_)
    have hone := h.append .nothing
    rwa [List.append_nil] at hone
  | saveMembers items => exact Always.map (billed_reportMembers policy items)
  | deleteItem item token => exact Always.map (billed_deleteItem policy item token)
  | flush tombstones =>
    refine Always.map ((unnoted_flushNamespace policy tombstones).mono fun deeds _ h => ?_)
    exact h.symm ▸ .nothing

end LibraryCall
end CacheCoherence
