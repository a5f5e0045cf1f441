import CacheCoherence.Proofs.Cache.Read
import CacheCoherence.Proofs.Catalogue
import CacheCoherence.Proofs.SessionRuns

/-!
# Read locks are handed over

A read of a session passes through the recorder, which may fail calls and cut answers short, to a
store that may be on a failing server among other clients. Whatever goes wrong, a lock that the read
took and that still stands when it ends is in its result exactly if the read was told of it. It is
told of every lock that it took if the answer has a lookup for every slot that was asked for. Where
an answer is cut short, and where the server fails halfway through a batch, the locks behind the cut
or before the failure have no holder: they stand until they expire.
-/
namespace CacheCoherence
open Operation

section Rest
variable {α : Type} [Cacheable α]

/-- What a read of one slot makes of the answer of the store. -/
def fetched {β : Type} (entry : Entry β) (key : Key) : Except Fault Lookup → Operation (Found β)
  | .ok lookup => resolve entry key lookup
  | .error _ => do
    note (.lookup false)
    log (.getFailed key)
    return .miss Token.noLock

theorem fetch_eq {β : Type} (entry : Entry β) (key : Key) (lock : Bool) :
    fetch entry key lock = (do
      note .call
      let answer ← call (.getValue key lock)
      note .read
      fetched entry key answer) := by
  refine bind_congr fun _ => bind_congr fun answer => bind_congr fun _ => ?_
  cases answer <;> rfl

/-- What a read of several items makes of the answer of the store. -/
def itemsOf (keys : List Key) : Except Fault (List Lookup) → Operation (List (Found α))
  | .ok lookups => resolveAll (keys.zip lookups)
  | .error _ => do
    noteMisses keys
    log (.batchGetFailed keys)
    return keys.map fun _ => .miss Token.noLock

theorem itemsOf_ok (ctx : Context) (keys : List Key) (found : List Lookup) (s : Session) :
    ((itemsOf keys (.ok found) : Operation (List (Found α))).through ctx s).1 =
      (keys.zip found).map fun slot => resolved servableItem slot.2 :=
  run_resolveAll _ _ s

theorem itemsOf_error (ctx : Context) (keys : List Key) (fault : Fault) (s : Session) :
    ((itemsOf keys (.error fault) : Operation (List (Found α))).through ctx s).1 =
      keys.map fun _ => .miss Token.noLock := by
  simp only [itemsOf, through_bind, through_pure]

theorem getItems_eq {policy : Policy} {keys : List Key} (lock : Bool)
    (hasked : (keys.isEmpty || skips policy α) = false) :
    (getItems policy keys lock : Operation (List (Found α))) = (do
      note .call
      let answer ← call (.getValues keys (keys.map fun _ => lock))
      note .read
      itemsOf keys answer) := by
  unfold getItems
  rw [if_neg (by simp [hasked])]
  refine bind_congr fun _ => bind_congr fun answer => bind_congr fun _ => ?_
  cases answer <;> rfl

/-- What a read of an item makes of the answer of the store for the item and its modified key. -/
def itemUnlessModifiedOf (key modifiedKey : Key) :
    Except Fault (List Lookup) → Operation (Found α)
  | .error _ => do
    note (.lookup false)
    log (.getFailed key)
    return .miss Token.noLock
  | .ok (lookup :: modified :: _) =>
    if modified.value.isSome || modified.conflict.isSome then do
      call (.releaseToken [key] lookup.token)
      note (.lookup false)
      log (.modified key modifiedKey)
      return .miss Token.noLock
    else resolve servableItem key lookup
  | .ok _ => do
    note (.lookup false)
    log (.getTruncated key)
    return .miss Token.noLock

theorem getItemUnlessModified_eq {policy : Policy} (key modifiedKey : Key) (lock : Bool)
    (hasked : skips policy α = false) :
    (getItemUnlessModified policy key modifiedKey lock : Operation (Found α)) = (do
      note .call
      let answer ← call (.getValues [key, modifiedKey] [lock, false])
      note .read
      itemUnlessModifiedOf key modifiedKey answer) := by
  unfold getItemUnlessModified
  rw [if_neg (by simp [hasked])]
  refine bind_congr fun _ => bind_congr fun answer => bind_congr fun _ => ?_
  rcases answer with fault | (_ | ⟨lookup, _ | ⟨modified, rest⟩⟩) <;> rfl

end Rest

/-- A read of the cache, or a reading straight from the store. -/
inductive Read where
  | value (key : Key) (lock : Bool)
  | values (keys : List Key) (locks : List Bool)
  | item (key : Key) (lock : Bool)
  | itemUnlessModified (key modifiedKey : Key) (lock : Bool)
  | items (keys : List Key) (lock : Bool)
  | collection (key : Key) (lock : Bool)

namespace Read
variable (α : Type) [Cacheable α] (policy : Policy)

/-- A read of items of a type, with the locks in its result, each under its key. -/
def operation : Read → Operation (List (Key × Token))
  | value key lock => do
    let answer ← call (.getValue key lock)
    return Lookup.locks [key] (Call.lookups _ answer)
  | values keys locks => do
    let answer ← call (.getValues keys locks)
    return Lookup.locks keys (Call.lookups _ answer)
  | item key lock => do
    let found : Found α ← getItem policy key lock
    return [(key, found.token)]
  | itemUnlessModified key modifiedKey lock => do
    let found : Found α ← getItemUnlessModified policy key modifiedKey lock
    return [(key, found.token)]
  | items keys lock => do
    let found : List (Found α) ← getItems policy keys lock
    return keys.zip (found.map (·.token))
  | collection key lock => do
    let found : Found (List α) ← getCollection policy key lock
    return [(key, found.token)]

/-- What a read asks the store for, unless caching is disabled for the type. -/
def question : Read → Option Call
  | value key lock => some (.getValue key lock)
  | values keys locks => some (.getValues keys locks)
  | item key lock | collection key lock =>
    if skips policy α then none else some (.getValue key lock)
  | itemUnlessModified key modifiedKey lock =>
    if skips policy α then none else some (.getValues [key, modifiedKey] [lock, false])
  | items keys lock =>
    if keys.isEmpty || skips policy α then none
    else some (.getValues keys (keys.map fun _ => lock))

/-- The slots that a read can tell its caller of locks on. -/
def slots : Read → List Key
  | value key _ | item key _ | itemUnlessModified key _ _ | collection key _ => [key]
  | values keys _ | items keys _ => keys

/-- How many lookups a read must be told for it to go by any of them. -/
def needed : Read → Nat
  | itemUnlessModified _ _ _ => 2
  | _ => 0

/-- What a read finds out from the store. -/
def lookups (s : Session) (read : Read) : List Lookup :=
  match read.question α s.policy with
  | some c => c.lookups (s.perform c).1
  | none => []

def told (s : Session) (read : Read) : List (Key × Token) :=
  if read.needed ≤ (read.lookups α s).length then Lookup.locks read.slots (read.lookups α s)
  else []

/-- A read that asks for a batch is told of every slot of it. -/
def InFull (s : Session) (read : Read) : Prop :=
  ∀ keys locks, read.question α s.policy = some (.getValues keys locks) →
    (read.lookups α s).length = keys.length

section Told
variable {α policy} {s : Session} {read : Read}

theorem told_of_question {c : Call} (h : read.question α s.policy = some c)
    (hneeded : read.needed = 0) :
    read.told α s = Lookup.locks read.slots (c.lookups (s.perform c).1) := by
  rw [told, hneeded, if_pos (Nat.zero_le _), lookups, h]

theorem told_of_none (h : read.question α s.policy = none) : read.told α s = [] := by
  have hnone : read.lookups α s = [] := by rw [lookups, h]
  rw [told, hnone]
  split
  · exact List.zip_nil_right
  · rfl

end Told

/-- What a read ended with accounts for a token in a slot: it is in the result if the read was told
of it, and after the answer to its question the read put no token anywhere. -/
structure Accounts (read : Read) (s : Session) (slot : Key) (text : Token)
    (done : List (Key × Token) × Session) : Prop where
  told : s.ReleasesDone done.2 → ¬ done.2.store.Lacks slot text →
    ((slot, text) ∈ done.1 ↔ (slot, text) ∈ read.told α s)
  kept : (∀ c, read.question α s.policy = some c → (s.perform c).2.store.Lacks slot text) →
    s.store.Lacks slot text → done.2.store.Lacks slot text

section Accounts
variable {α} (ctx : Context) (s : Session) {slot : Key} {text : String}

theorem not_mem_noLock (htext : text ≠ Token.noLock) (key : Key) :
    (slot, text) ∉ [(key, Token.noLock)] :=
  fun hmem => htext (congrArg Prod.snd (List.mem_singleton.1 hmem))

theorem not_mem_misses {β : Type} (htext : text ≠ Token.noLock) (keys : List Key) :
    (slot, text) ∉ keys.zip
      ((keys.map fun _ => (Found.miss Token.noLock : Found β)).map (·.token)) := by
  intro hmem
  obtain ⟨found, hfound, rfl⟩ := List.mem_map.1 (List.of_mem_zip hmem).2
  obtain ⟨key, -, rfl⟩ := List.mem_map.1 hfound
  exact htext rfl

theorem accounts_of_none {read : Read} {done : List (Key × Token) × Session}
    (hasked : read.question α s.policy = none) (hnot : (slot, text) ∉ done.1)
    (hstore : done.2.store = s.store) : read.Accounts α s slot text done where
  told _ _ := by
    rw [told_of_none hasked]
    exact ⟨fun hmem => absurd hmem hnot, nofun⟩
  kept _ h := hstore ▸ h

theorem token_resolved {β : Type} (entry : Entry β) {found : Lookup} {lock : Bool}
    (h : found.Fits lock) : (resolved entry found).token = found.token := by
  unfold resolved
  cases hvalue : found.value with
  | none => rfl
  | some raw =>
    -- A lock comes only with an empty slot, so there is none to lose if the text does not decode.
    have hnone : found.token = Token.noLock := by
      by_contra htoken
      rw [(h htoken).2] at hvalue
      cases hvalue
    rw [hnone]
    simp only
    cases Json.parse? raw >>= entry <;> rfl

theorem calls_resolve_removes {β : Type} (entry : Entry β) (key : Key) (found : Lookup) :
    Calls Call.Removes (resolve entry key found) :=
  calls_resolve entry key found fun _ _ _ => rfl

theorem accounts_fetch {β : Type} (entry : Entry β) {read : Read} {key : Key} {lock : Bool}
    (hquestion : read.question α s.policy = some (.getValue key lock)) (hneeded : read.needed = 0)
    (hslots : read.slots = [key]) (htext : text ≠ Token.noLock) :
    read.Accounts α s slot text
      ([(key, ((fetch entry key lock).through ctx s).1.token)],
        ((fetch entry key lock).through ctx s).2) := by
  rw [fetch_eq]
  obtain ⟨s', hstore, -, -, hrun⟩ := through_asking ctx s (.getValue key lock) (fetched entry key)
  rw [hrun]
  constructor
  · intro _ _
    rw [told_of_question hquestion hneeded, hslots]
    cases hanswer : (s.perform (.getValue key lock)).1 with
    | ok found =>
      have htoken : ((fetched entry key (.ok found)).through ctx s').1.token = found.token :=
        (congrArg Found.token (run_resolve entry _ key found s')).trans
          (token_resolved entry (Session.fits_getValue hanswer))
      simp only [htoken]
      rfl
    | error fault => exact ⟨fun hmem => absurd hmem (not_mem_noLock htext key), nofun⟩
  · intro hasked _
    have hafter := hasked _ hquestion
    rw [← hstore] at hafter
    refine Calls.preserves_through ctx (S := Call.Removes) ?_ (fun c _ hc h => h.perform hc) hafter
    cases (s.perform (.getValue key lock)).1 with
    | ok found => exact calls_resolve_removes entry key found
    | error fault => exact calls_reported _ _ _

/-- The results of a batch have the tokens of the lookups that they were made of. -/
theorem zip_resolved {β : Type} (entry : Entry β) {locks : List Bool} {found : List Lookup}
    (h : List.Forall₂ (fun lock lookup => lookup.Fits lock) locks found) (keys : List Key) :
    keys.zip ((keys.zip found).map fun slot => (resolved entry slot.2).token) =
      Lookup.locks keys found := by
  induction h generalizing keys with
  | nil => cases keys <;> rfl
  | cons hfits _ ih =>
    cases keys with
    | nil => rfl
    | cons key rest =>
      rw [List.zip_cons_cons, List.map_cons, List.zip_cons_cons, ih, token_resolved entry hfits]
      rfl

theorem accounts_items {keys : List Key} {lock : Bool}
    (hasked : (keys.isEmpty || skips s.policy α) = false) (htext : text ≠ Token.noLock) :
    (items keys lock).Accounts α s slot text
      (((items keys lock).operation α s.policy).through ctx s) := by
  have hquestion : (items keys lock).question α s.policy =
      some (.getValues keys (keys.map fun _ => lock)) := by
    rw [question, hasked, if_neg nofun]
  obtain ⟨s', hstore, -, -, hrun⟩ :=
    through_asking ctx s (.getValues keys (keys.map fun _ => lock)) (itemsOf (α := α) keys)
  rw [operation, through_bind, getItems_eq lock hasked, hrun]
  constructor
  · intro _ _
    rw [told_of_question hquestion rfl]
    cases hanswer : (s.perform (.getValues keys (keys.map fun _ => lock))).1 with
    | ok found =>
      obtain ⟨n, hfits⟩ := Session.fits_getValues hanswer
      simp only [itemsOf_ok, through_pure, List.map_map, Function.comp_def]
      rw [zip_resolved servableItem hfits keys]
      rfl
    | error fault =>
      simp only [itemsOf_error, through_pure]
      refine ⟨fun hmem => absurd hmem (not_mem_misses htext keys), fun hmem => ?_⟩
      exact absurd (List.of_mem_zip hmem).2 (by simp [Call.lookups])
  · intro hasked' _
    have hafter := hasked' _ hquestion
    rw [← hstore] at hafter
    simp only [through_pure]
    refine Calls.preserves_through ctx (S := Call.Removes) ?_ (fun c _ hc h => h.perform hc) hafter
    cases (s.perform (.getValues keys (keys.map fun _ => lock))).1 with
    | ok found => exact calls_resolveAll _ fun _ _ _ _ _ => rfl
    | error fault =>
      exact Calls.bind (calls_noteMisses keys) fun _ => Calls.bind (calls_log _) fun _ => trivial

section Modified
variable {key modifiedKey : Key} {lock : Bool} {lookup modified : Lookup} {rest : List Lookup}

theorem question_itemUnlessModified (hasked : skips s.policy α = false) :
    (itemUnlessModified key modifiedKey lock).question α s.policy =
      some (.getValues [key, modifiedKey] [lock, false]) := by
  rw [question, hasked, if_neg nofun]

theorem lookups_itemUnlessModified (hasked : skips s.policy α = false) :
    (itemUnlessModified key modifiedKey lock).lookups α s =
      Call.lookups (.getValues [key, modifiedKey] [lock, false])
        (s.perform (.getValues [key, modifiedKey] [lock, false])).1 := by
  rw [lookups, question_itemUnlessModified s hasked]

/-- A read that finds the modified key in use releases the lock that it took. -/
theorem through_modified (key modifiedKey : Key) (s : Session)
    (hmodified : (modified.value.isSome || modified.conflict.isSome) = true) :
    ∃ s' : Session, (itemUnlessModifiedOf key modifiedKey (.ok (lookup :: modified :: rest)) :
        Operation (Found α)).through ctx s = (.miss Token.noLock, s') ∧
      s'.store = (s.perform (.releaseToken [key] lookup.token)).2.store ∧
      s'.recorder = (s.perform (.releaseToken [key] lookup.token)).2.recorder ∧
      s'.journal.events =
        (s.perform (.releaseToken [key] lookup.token)).2.journal.events ++
          [.modified key modifiedKey] := by
  unfold itemUnlessModifiedOf
  simp only [hmodified, if_true]
  exact ⟨_, rfl, rfl, rfl, rfl⟩

theorem accounts_itemUnlessModified (hasked : skips s.policy α = false)
    (htext : text ≠ Token.noLock) (hspared : s.store.Spared slot text) :
    (itemUnlessModified key modifiedKey lock).Accounts α s slot text
      (((itemUnlessModified key modifiedKey lock).operation α s.policy).through ctx s) := by
  obtain ⟨s', hstore, hrecorder, hjournal, hrun⟩ := through_asking ctx s
    (.getValues [key, modifiedKey] [lock, false]) (itemUnlessModifiedOf (α := α) key modifiedKey)
  rw [operation, through_bind, getItemUnlessModified_eq key modifiedKey lock hasked, hrun]
  simp only [through_pure]
  constructor
  · intro hdone hstands
    rw [told, lookups_itemUnlessModified s hasked]
    rcases hanswer : (s.perform (.getValues [key, modifiedKey] [lock, false])).1 with
      fault | (_ | ⟨lookup, _ | ⟨modified, rest⟩⟩)
    · exact ⟨fun hmem => absurd hmem (not_mem_noLock htext key), nofun⟩
    · exact ⟨fun hmem => absurd hmem (not_mem_noLock htext key), nofun⟩
    · exact ⟨fun hmem => absurd hmem (not_mem_noLock htext key), nofun⟩
    rw [hanswer] at hdone hstands
    have henough : 2 ≤ (lookup :: modified :: rest).length := Nat.le_add_left 2 rest.length
    rw [needed, Call.lookups, if_pos henough]
    change _ ↔ (slot, text) ∈ [(key, lookup.token)]
    by_cases hmodified : (modified.value.isSome || modified.conflict.isSome) = true
    · obtain ⟨s'', heq, hstore', hrecorder', hevents'⟩ :=
        through_modified (α := α) ctx key modifiedKey s' hmodified
      rw [heq] at hdone hstands ⊢
      refine ⟨fun hmem => absurd hmem (not_mem_noLock htext key), fun hmem => ?_⟩
      -- The lock that the read was told of is released here, so it does not stand.
      obtain ⟨rfl, rfl⟩ := Prod.mk.inj (List.mem_singleton.1 hmem)
      refine absurd ?_ hstands
      have hcalls : s''.recorder.calls.drop s.recorder.calls.length =
          [.getValues [slot, modifiedKey] [lock, false], .releaseToken [slot] lookup.token] := by
        rw [hrecorder', Session.recorder_perform, hrecorder, Session.recorder_perform]
        simp
      have hrules : s'.recorder.rules = s.recorder.rules := by
        rw [hrecorder, Session.recorder_perform]
      have hpassed := hdone.passed [slot] lookup.token (by rw [hcalls]; simp)
      have hspared' : s'.store.Spared slot lookup.token :=
        hstore ▸ s.store_perform _ hspared (hspared.perform _)
      rw [hstore']
      refine Session.released List.mem_cons_self htext hspared' (hrules ▸ hpassed)
        fun more hmore hmem => hdone.unlogged [slot] ?_
      obtain ⟨before, hbefore⟩ := s.events_perform (.getValues [slot, modifiedKey] [lock, false])
      rw [hevents', hmore, hjournal, ← hbefore, List.append_assoc, List.append_assoc,
        List.drop_left]
      exact List.mem_append_right _ (List.mem_append_left _ hmem)
    · have hresult : (itemUnlessModifiedOf key modifiedKey (.ok (lookup :: modified :: rest)) :
          Operation (Found α)) = resolve servableItem key lookup := by
        unfold itemUnlessModifiedOf
        exact if_neg hmodified
      obtain ⟨n, hfits⟩ := Session.fits_getValues hanswer
      obtain ⟨wanted, _, hfits, -, -⟩ := List.forall₂_cons_right_iff.1 hfits
      have htoken : ((resolve servableItem key lookup : Operation (Found α)).through ctx s').1.token
          = lookup.token :=
        (congrArg Found.token (run_resolve _ _ key lookup s')).trans (token_resolved _ hfits)
      rw [hresult, htoken]
  · intro hasked' _
    have hafter := hasked' _ (question_itemUnlessModified s hasked)
    rw [← hstore] at hafter
    refine Calls.preserves_through ctx (S := Call.Removes) ?_ (fun c _ hc h => h.perform hc) hafter
    rcases (s.perform (.getValues [key, modifiedKey] [lock, false])).1 with
      fault | (_ | ⟨lookup, _ | ⟨modified, rest⟩⟩)
    · exact calls_reported _ _ _
    · exact calls_reported _ _ _
    · exact calls_reported _ _ _
    · unfold itemUnlessModifiedOf
      simp only
      split
      · exact Calls.bind ((calls_call _).2 trivial) fun _ => calls_reported _ _ _
      · exact calls_resolve_removes servableItem key lookup

end Modified

end Accounts

section HandedOver
variable {α} (ctx : Context) (s : Session) {key : Key} {text : String}

theorem accounts (read : Read) (htext : text ≠ Token.noLock) (hspared : s.store.Spared key text) :
    read.Accounts α s key text ((read.operation α s.policy).through ctx s) := by
  cases read with
  | value k lock =>
    exact ⟨fun _ _ => Iff.rfl, fun hasked _ => hasked _ rfl⟩
  | values keys locks =>
    exact ⟨fun _ _ => Iff.rfl, fun hasked _ => hasked _ rfl⟩
  | item k lock =>
    rw [operation, through_bind, getItem]
    split
    · rename_i hskips
      exact accounts_of_none s (if_pos hskips) (not_mem_noLock htext k) rfl
    · rename_i hskips
      exact accounts_fetch ctx s servableItem (if_neg hskips) rfl rfl htext
  | itemUnlessModified k modifiedKey lock =>
    cases hskips : skips s.policy α with
    | true =>
      rw [operation, through_bind, getItemUnlessModified, if_pos hskips]
      exact accounts_of_none s (if_pos hskips) (not_mem_noLock htext k) rfl
    | false => exact accounts_itemUnlessModified ctx s hskips htext hspared
  | items keys lock =>
    cases hskips : keys.isEmpty || skips s.policy α with
    | true =>
      rw [operation, through_bind, getItems]
      simp only [hskips, if_true]
      exact accounts_of_none s (if_pos hskips) (not_mem_misses htext keys) rfl
    | false => exact accounts_items ctx s hskips htext
  | collection k lock =>
    rw [operation, through_bind, getCollection]
    split
    · rename_i hskips
      exact accounts_of_none s (if_pos hskips) (not_mem_noLock htext k) rfl
    · rename_i hskips
      exact accounts_fetch ctx s servableItems (if_neg hskips) rfl rfl htext

/-- A full answer for an item and its modified key tells of the lock on the item, which is the only
one that is wanted. -/
theorem told_itemUnlessModified {k modifiedKey : Key} {lock : Bool}
    (hasked : skips s.policy α = false) (htext : text ≠ Token.noLock)
    (hfull : ((itemUnlessModified k modifiedKey lock).lookups α s).length = 2)
    (hmem : (key, text) ∈ Lookup.locks [k, modifiedKey]
      ((itemUnlessModified k modifiedKey lock).lookups α s)) :
    (key, text) ∈ (itemUnlessModified k modifiedKey lock).told α s := by
  rw [told, needed, hfull, if_pos (Nat.le_refl 2)]
  rw [lookups_itemUnlessModified s hasked] at hfull hmem ⊢
  cases hanswer : (s.perform (.getValues [k, modifiedKey] [lock, false])).1 with
  | error fault =>
    rw [hanswer] at hfull
    cases hfull
  | ok found =>
    rw [hanswer] at hfull hmem
    obtain ⟨lookup, modified, rfl⟩ := List.length_eq_two.1 hfull
    obtain ⟨n, hfits⟩ := Session.fits_getValues hanswer
    -- An answer of two lookups was not cut, and the second of them was asked for without a lock.
    have htake : [lock, false].take n = [lock, false] := by
      have hlength := hfits.length_eq
      rw [List.length_take] at hlength
      exact List.take_of_length_le ((Nat.le_of_eq hlength.symm).trans (Nat.min_le_left _ _))
    rw [htake] at hfits
    obtain ⟨-, hfits⟩ := List.forall₂_cons.1 hfits
    obtain ⟨hmodified, -⟩ := List.forall₂_cons.1 hfits
    rcases List.mem_cons.1 hmem with hmem | hmem
    · exact List.mem_singleton.2 hmem
    · obtain ⟨-, rfl⟩ := Prod.mk.inj (List.mem_singleton.1 hmem)
      exact absurd (hmodified htext).1 nofun

/-- A read that is told of every slot that it asks for is told of every lock that it takes. -/
theorem took_or_told (read : Read) (h : s.store.Lacks key text) (htext : text ≠ Token.noLock)
    (hfull : read.InFull α s) {c : Call} (hquestion : read.question α s.policy = some c) :
    (s.perform c).2.store.Lacks key text ∨ (key, text) ∈ read.told α s := by
  cases read with
  | value k lock =>
    cases hquestion
    exact Session.getValue_took h
  | values keys locks =>
    cases hquestion
    exact Session.getValues_took h (hfull keys locks rfl)
  | item k lock | collection k lock =>
    have hsome := hquestion
    rw [question] at hquestion
    split at hquestion
    · cases hquestion
    · cases hquestion
      rw [told_of_question hsome rfl]
      exact Session.getValue_took h
  | items keys lock =>
    have hsome := hquestion
    rw [question] at hquestion
    split at hquestion
    · cases hquestion
    · cases hquestion
      have hlength := hfull _ _ hsome
      rw [lookups, hsome] at hlength
      rw [told_of_question hsome rfl]
      exact Session.getValues_took h hlength
  | itemUnlessModified k modifiedKey lock =>
    have hsome := hquestion
    rw [question] at hquestion
    split at hquestion
    · cases hquestion
    · rename_i hskips
      cases hquestion
      have hlength := hfull _ _ hsome
      have hasked := Bool.eq_false_of_not_eq_true hskips
      refine (Session.getValues_took h ?_).imp_right fun hmem =>
        told_itemUnlessModified s hasked htext hlength ?_
      · rwa [lookups, hsome] at hlength
      · rwa [lookups, hsome]

/-- **Standing locks are handed over.** Whatever calls and commands fail, whatever other clients
write meanwhile and however far an answer is cut: a read lock that did not stand in a slot before a
read and that no other client will write there is in the result of the read, if it stands afterwards
and no release failed, exactly if the read was told of it. It was told of it if it was told of every
slot that it asked for. -/
theorem standing_lock_handed_over (name : String) (read : Read) (n : Nat)
    (hnew : s.store.Lacks key (Token.issue LockKind.read.name n))
    (hdone : s.ReleasesDone (s.run name (read.operation α s.policy)).2)
    (hstands : (s.run name (read.operation α s.policy)).2.store.held key =
      some (Token.issue LockKind.read.name n)) :
    ((key, Token.issue LockKind.read.name n) ∈ (s.run name (read.operation α s.policy)).1 ↔
      (key, Token.issue LockKind.read.name n) ∈ read.told α s) ∧
    (read.InFull α s →
      (key, Token.issue LockKind.read.name n) ∈ (s.run name (read.operation α s.policy)).1) := by
  have htext := Token.issue_ne_noLock LockKind.read.name n
  have haccounts := accounts (α := α) (s.context name) s read htext hnew.spared
  have hnot : ¬ (s.run name (read.operation α s.policy)).2.store.Lacks key
      (Token.issue LockKind.read.name n) := fun h => h.absent hstands
  have htold := haccounts.told hdone hnot
  refine ⟨htold, fun hfull => htold.2 ?_⟩
  by_contra hnever
  refine hnot (haccounts.kept (fun c hquestion => ?_) hnew)
  exact (took_or_told s read hnew htext hfull hquestion).resolve_right hnever

end HandedOver

section Example

/-- A session on an empty store whose recorder answers for so many slots of a batch at most. -/
def answering (keep : Option Nat) : Session where
  policy := Catalogue.lasting
  store := .memory {} {}
  recorder := { keep }

/-- A read of an item that locks its slot unless its modified key is in use. -/
def ofPlain : Read := .itemUnlessModified "k" "m" true

def outcome (keep : Option Nat) : List (Key × Token) × Session :=
  (answering keep).run "" (ofPlain.operation Catalogue.Plain (answering keep).policy)

/-- The lock of a read whose answer is cut behind the item stands and has no holder. If the answer
is whole, the read hands the lock over. -/
theorem lock_without_holder_behind_cut :
    ((outcome (some 1)).2.store.held "k" = some (Token.issue LockKind.read.name 0) ∧
      ("k", Token.issue LockKind.read.name 0) ∉ (outcome (some 1)).1) ∧
    (outcome none).2.store.held "k" = some (Token.issue LockKind.read.name 0) ∧
      ("k", Token.issue LockKind.read.name 0) ∈ (outcome none).1 := by
  have hnew (keep : Option Nat) :
      (answering keep).store.Lacks "k" (Token.issue LockKind.read.name 0) :=
    ⟨nofun, trivial⟩
  have hcut : (outcome (some 1)).2.store.held "k" = some (Token.issue LockKind.read.name 0) := by
    decide +kernel
  have hwhole : (outcome none).2.store.held "k" = some (Token.issue LockKind.read.name 0) := by
    decide +kernel
  have hdone (keep : Option Nat) (e : Event) (hlogged : (outcome keep).2.journal.events = [e])
      (he : ∀ keys, e ≠ .releaseFailed keys) : (answering keep).ReleasesDone (outcome keep).2 := by
    refine ⟨fun _ _ _ => rfl, fun keys hmem => ?_⟩
    rw [hlogged] at hmem
    exact he keys (List.mem_singleton.1 hmem).symm
  have hdone₁ := hdone (some 1) (.getTruncated "k") (by decide +kernel) nofun
  have hdone₂ := hdone none (.miss "k" true) (by decide +kernel) nofun
  refine ⟨⟨hcut, fun hmem => ?_⟩, hwhole, ?_⟩
  · have hnever : ("k", Token.issue LockKind.read.name 0) ∉
        ofPlain.told Catalogue.Plain (answering (some 1)) := by
      decide +kernel
    have htold := (standing_lock_handed_over (answering (some 1)) "" ofPlain 0 (hnew _) hdone₁
      hcut).1
    exact hnever (htold.1 hmem)
  · refine (standing_lock_handed_over (answering none) "" ofPlain 0 (hnew _) hdone₂ hwhole).2 ?_
    rintro keys locks ⟨⟩
    decide +kernel

end Example

end Read
end CacheCoherence
