import CacheCoherence.Proofs.Catalogue
import CacheCoherence.Proofs.Library.Roles
import CacheCoherence.Proofs.SharedRuns

/-!
# No token outlives its release

The keys that a lock is released on are made from the item anew, and they are the keys that it was
taken on. Since a token stands nowhere else, its release takes it out of use for good. An operation
that takes a lock for itself gives it back on every path, whichever of its other calls fail: after
each of its calls all the tokens that it has taken were given back, but for one at most, which is
confined to the keys that the operation is to release.
-/
namespace CacheCoherence
open Operation

def Call.taken? : (c : Call) → c.Answer → Option Token
  | .writeToken .., .ok token => if token = Token.noLock then none else some token
  | _, _ => none

/-- A call asks for no lock but one that comes with a miss. -/
def Call.TakesNone : Call → Prop
  | .writeToken .. => False
  | _ => True

theorem Call.TakesNone.taken? {c : Call} (h : c.TakesNone) (answer : c.Answer) :
    c.taken? answer = none := by
  cases c with
  | writeToken kind keys => exact h.elim
  | _ => rfl

def Payload.SpellsJson (x : Payload) : Prop :=
  ∀ raw, x.text? = some raw → (Json.parse? raw).isSome = true

/-- All that a call of the library is to cache is saved as JSON texts. -/
def LibraryCall.SavesJson (policy : Policy) (c : LibraryCall) : Prop :=
  ∀ entry ∈ c.writes policy, entry.2.SpellsJson

namespace Course
variable (cfg : MemorySettings) (s : Course)

/-- An operation is about to begin on a store that started out empty. -/
def start (before : List Memory.Step) : Course := { memory := ({} : Memory).after cfg before }

def taken : List Token := s.answered.filterMap fun entry => entry.call.taken? entry.answer

/-- A token was released on a store, which took it out of use, and so it is. -/
def GivenBack (token : Token) : Prop :=
  ∃ m keys, ⟨m, .releaseToken keys token, ()⟩ ∈ s.answered ∧
    (m.Withdrawn cfg token fun m => (m.releaseToken keys token).memory) ∧
    s.memory.OutOfUse cfg token

/-- Of all the tokens that were taken only one may not have been given back, and it stands under no
other than some keys. -/
structure Owes (token : Token) (keys : List Key) : Prop where
  confined : s.memory.Confined token keys
  rest : ∀ other ∈ s.taken, other = token ∨ s.GivenBack cfg other

variable {cfg s} {env : Surroundings} {s' : Course} {token : Token} {keys : List Key}

theorem ne_noLock_of_taken (h : token ∈ s.taken) : token ≠ Token.noLock := by
  obtain ⟨⟨m, c, answer⟩, -, htaken⟩ := List.mem_filterMap.1 h
  cases c with
  | writeToken kind keys =>
    cases answer with
    | error fault => cases htaken
    | ok granted =>
      simp only [Call.taken?] at htaken
      split at htaken
      · cases htaken
      · rename_i hne
        exact Option.some.inj htaken ▸ hne
  | _ => cases htaken

theorem taken_ask (s : Course) (c : Call) :
    (s.ask cfg env c).2.taken = s.taken ++ (c.taken? (s.ask cfg env c).1).toList := by
  rcases ask_cases cfg env s c with ⟨hfailed, -, hsame⟩ | ⟨m, -, hanswer, -, hanswered⟩
  · have hnone : c.taken? (s.ask cfg env c).1 = none := by
      rw [hfailed]
      cases c <;> rfl
    rw [taken, hsame, hnone]
    exact (List.append_nil _).symm
  · rw [taken, hanswered, hanswer, List.filterMap_append, List.filterMap_cons, List.filterMap_nil]
    cases c.taken? (m.perform cfg c).answer <;> rfl

variable (cfg env) in
theorem ask_follows (s : Course) {c : Call} (hj : c.StoresJson) :
    ∃ steps, Memory.StoreJson steps ∧ (s.ask cfg env c).2.memory = s.memory.after cfg steps ∧
      s.answered ⊆ (s.ask cfg env c).2.answered := by
  rcases ask_cases cfg env s c with ⟨-, hmemory, hsame⟩ | ⟨m, hm, -, hmemory, hanswered⟩
  · exact ⟨env.meanwhile s.made, env.json s.made, hmemory, hsame ▸ List.Subset.refl _⟩
  · refine ⟨env.meanwhile s.made ++ [.call c], (env.json s.made).append (.call hj), ?_, ?_⟩
    · rw [hmemory, hm, Memory.after_append]
      rfl
    · exact hanswered ▸ List.subset_append_left _ _

theorem GivenBack.ask {c : Call} (hj : c.StoresJson) (h : s.GivenBack cfg token) :
    (s.ask cfg env c).2.GivenBack cfg token := by
  obtain ⟨m, keys, hreleased, hwithdrawn, hout⟩ := h
  obtain ⟨steps, hsteps, hmemory, hanswered⟩ := ask_follows cfg env s hj
  exact ⟨m, keys, hanswered hreleased, hwithdrawn, hmemory ▸ hout.after hsteps⟩

theorem owes_start (hr : cfg.rules = Rules.standard) {before : List Memory.Step}
    (hbefore : Memory.StoreJson before) : (start cfg before).Owes cfg Token.noLock [] :=
  ⟨(Memory.orderly_empty.after hr hbefore).confined_noLock, fun _ h => by cases h⟩

theorem Owes.noLock (h : s.Owes cfg Token.noLock keys) : s.Owes cfg Token.noLock [] :=
  ⟨h.confined.orderly.confined_noLock, h.rest⟩

theorem Owes.settled (h : s.Owes cfg Token.noLock keys) :
    ∀ token ∈ s.taken, s.GivenBack cfg token :=
  fun token htoken => (h.rest token htoken).resolve_left (ne_noLock_of_taken htoken)

section Ask
variable (env) (hr : cfg.rules = Rules.standard)
include hr

/-- A call that is granted no token changes nothing about what is owed. -/
theorem Owes.ask {c : Call} (hj : c.StoresJson) (h : s.Owes cfg token keys)
    (hnone : c.taken? (s.ask cfg env c).1 = none) : (s.ask cfg env c).2.Owes cfg token keys where
  confined := by
    obtain ⟨steps, hsteps, hmemory, -⟩ := ask_follows cfg env s hj
    exact hmemory ▸ h.confined.after hr hsteps
  rest := by
    intro other hother
    rw [taken_ask, hnone, Option.toList_none, List.append_nil] at hother
    exact (h.rest other hother).imp_right fun hback => hback.ask hj

theorem Owes.claim {kind : LockKind} {claimed : List Key} (h : s.Owes cfg Token.noLock keys)
    (hanswer : (s.ask cfg env (.writeToken kind claimed)).1 = .ok token) :
    (s.ask cfg env (.writeToken kind claimed)).2.Owes cfg token claimed where
  confined := by
    rcases ask_cases cfg env s (.writeToken kind claimed) with ⟨hfailed, -⟩ |
      ⟨m, rfl, hgranted, hmemory, -⟩
    · cases hfailed.symm.trans hanswer
    · rw [hmemory]
      exact (h.confined.orderly.after hr (env.json s.made)).confined hr
        (hgranted.symm.trans hanswer)
  rest := by
    intro other hother
    rw [taken_ask, List.mem_append, hanswer] at hother
    rcases hother with hother | hother
    · exact .inr ((h.settled other hother).ask (c := .writeToken kind claimed) trivial)
    · simp only [Call.taken?] at hother
      split at hother
      · cases hother
      · exact .inl (List.mem_singleton.1 hother)

/-- A claim that fails leaves nothing to be owed. -/
theorem Owes.refused {kind : LockKind} {claimed : List Key} {fault : Fault}
    (h : s.Owes cfg token keys)
    (hanswer : (s.ask cfg env (.writeToken kind claimed)).1 = .error fault) :
    (s.ask cfg env (.writeToken kind claimed)).2.Owes cfg token keys := by
  refine h.ask (c := .writeToken kind claimed) env hr trivial ?_
  rw [hanswer]
  rfl

theorem Owes.release (h : s.Owes cfg token keys) (hspared : env.SparesReleases) :
    (s.ask cfg env (.releaseToken keys token)).2.Owes cfg Token.noLock [] := by
  obtain ⟨m, hm, -, hmemory, hanswered⟩ := ask_reached cfg env (hspared s.made keys token)
  have hconfined : m.Confined token keys := hm ▸ h.confined.after hr (env.json s.made)
  have hreleased : (s.ask cfg env (.releaseToken keys token)).2.memory =
      (m.releaseToken keys token).memory := hmemory
  have hback : (s.ask cfg env (.releaseToken keys token)).2.GivenBack cfg token := by
    refine ⟨m, keys, ?_, hconfined.withdrawn hr, ?_⟩
    · rw [hanswered]
      exact List.mem_append_right _ List.mem_cons_self
    · rw [hreleased]
      exact (hconfined.withdrawn hr).outOfUse
  refine ⟨hreleased ▸ (hconfined.release hr).orderly.confined_noLock, fun other hother => ?_⟩
  have hbefore : other ∈ s.taken := by
    rw [taken_ask] at hother
    exact (List.mem_append.1 hother).resolve_right fun h => by cases h
  rcases h.rest other hbefore with rfl | hgiven
  · exact .inr hback
  · exact .inr (hgiven.ask (c := .releaseToken keys token) trivial)

end Ask

end Course

section Locks
variable {cfg : MemorySettings} {env : Surroundings} {policy : Policy} {T : ItemType} {s : Course}
  (hr : cfg.rules = Rules.standard)
include hr

/-- Taking a lock on an item leaves the token owed that it answers, and none if it fails. -/
theorem takeItemLock_amid {kind : LockKind} {item : T.Item} {answer : Except CacheError Token}
    {s' : Course} (h : (takeItemLock policy kind item).amid cfg env s = (answer, s'))
    (hs : s.Owes cfg Token.noLock []) :
    (∀ token, answer = .ok token →
      s'.Owes cfg token ((ItemKeys.of policy.names item).lockKeys kind)) ∧
    ∀ e, answer = .error e → env.SparesReleases → s'.Owes cfg Token.noLock [] := by
  simp only [takeItemLock, amid_bind, amid_note, amid_writeToken] at h
  cases hclaim : (s.ask cfg env
      (.writeToken kind ((ItemKeys.of policy.names item).lockKeys kind))).1 with
  | error fault =>
    have howes := hs.refused env hr hclaim
    rw [hclaim] at h
    obtain ⟨rfl, rfl⟩ := Prod.mk.inj h
    exact ⟨fun token htoken => (by cases htoken), fun _ _ _ => howes⟩
  | ok token =>
    have howes := hs.claim env hr hclaim
    rw [hclaim] at h
    simp only at h
    split at h
    · obtain ⟨rfl, rfl⟩ := Prod.mk.inj h
      exact ⟨fun token' htoken => Except.ok.inj htoken ▸ howes, fun e he => by cases he⟩
    split at h
    · rename_i list hlist
      simp only [amid_bind, amid_clearDependencies] at h
      have hcleared := howes.ask (c := .clearDependencies list true) env hr trivial rfl
      split at h
      · simp only [amid_bind, amid_log, amid_releaseToken] at h
        obtain ⟨rfl, rfl⟩ := Prod.mk.inj h
        exact ⟨fun token htoken => (by cases htoken),
          fun _ _ hspared => hcleared.release env hr hspared⟩
      · obtain ⟨rfl, rfl⟩ := Prod.mk.inj h
        exact ⟨fun token' htoken => Except.ok.inj htoken ▸ hcleared, fun e he => by cases he⟩
    · obtain ⟨rfl, rfl⟩ := Prod.mk.inj h
      exact ⟨fun token' htoken => Except.ok.inj htoken ▸ howes, fun e he => by cases he⟩

theorem takeCollectionLock_amid {kind : LockKind} {item : T.Item} {extra : List Key} {token : Token}
    {s' : Course} (h : (takeCollectionLock policy kind item extra).amid cfg env s = (.ok token, s'))
    (hs : s.Owes cfg Token.noLock []) :
    ∃ keys, collectionLockKeys policy kind item extra = .ok keys ∧ s'.Owes cfg token keys := by
  unfold takeCollectionLock at h
  cases hkeys : collectionLockKeys policy kind item extra with
  | error e =>
    rw [hkeys] at h
    cases h
  | ok keys =>
    rw [hkeys] at h
    simp only [amid_bind, amid_note, amid_writeToken] at h
    cases hclaim : (s.ask cfg env (.writeToken kind keys)).1 with
    | error fault =>
      rw [hclaim] at h
      cases h
    | ok granted =>
      have howes := hs.claim env hr hclaim
      rw [hclaim] at h
      cases h
      exact ⟨keys, rfl, howes⟩

end Locks

section Members
variable {cfg : MemorySettings} {env : Surroundings} (policy : Policy) {T : ItemType} {s : Course}

/-- A save of an item takes no locks, and what it stores is what it was to cache. -/
theorem calls_saveItem_quiet {item : T.Item} (hjson : (Payload.one item).SpellsJson) (token : Token)
    (clearCollections : Bool) (extra : List Key) :
    Calls (fun c => c.StoresJson ∧ c.TakesNone)
      (saveItem policy item token clearCollections extra) := by
  refine calls_saveItem_document policy item token clearCollections extra (fun document hdoc => ?_)
    (fun _ c hc => ?_) ⟨trivial, trivial⟩
  · refine ⟨hjson document.compact ?_, trivial⟩
    rw [Payload.text?, Payload.document?, hdoc]
    rfl
  · cases c with
    | deleteValue ks tombstone force => exact ⟨trivial, trivial⟩
    | clearDependencies list tombstone => exact ⟨trivial, trivial⟩
    | addDependency lists dependents ttl => exact ⟨trivial, trivial⟩
    | _ => cases hc

theorem saveMember_amid (hr : cfg.rules = Rules.standard) (hspared : env.SparesReleases)
    {item : T.Item} (hjson : (Payload.one item).SpellsJson) (hs : s.Owes cfg Token.noLock []) :
    ((saveMember policy item).amid cfg env s).2.Owes cfg Token.noLock [] := by
  unfold saveMember
  rw [amid_bind]
  cases htake : (takeItemLock policy .read item).amid cfg env s with
  | mk answer s₁ =>
    obtain ⟨hok, herror⟩ := takeItemLock_amid hr htake hs
    cases answer with
    | error e => exact herror e rfl hspared
    | ok token =>
      have howes := hok token rfl
      simp only
      split
      · rename_i hnone
        subst hnone
        exact howes.noLock
      rename_i hne
      have hsaved := (calls_saveItem_quiet policy hjson token false []).preserves_amid cfg
        env (P := fun s => s.Owes cfg token ((ItemKeys.of policy.names item).lockKeys .read))
        (fun c s hc hs => hs.ask env hr hc.1 (hc.2.taken? _)) howes
      simp only [amid_bind, releaseItemLock, if_neg hne, amid_note, amid_releaseToken, amid_pure]
      exact hsaved.release env hr hspared

theorem saveMembers_amid (hr : cfg.rules = Rules.standard) (hspared : env.SparesReleases)
    {items : List T.Item} (hjson : ∀ item ∈ items, (Payload.one item).SpellsJson)
    (hs : s.Owes cfg Token.noLock []) :
    ((saveMembers policy items).amid cfg env s).2.Owes cfg Token.noLock [] := by
  induction items generalizing s with
  | nil => exact hs
  | cons item rest ih =>
    have hfirst := saveMember_amid policy hr hspared (hjson item List.mem_cons_self) hs
    simp only [saveMembers, amid_bind, amid_pure]
    exact ih (fun other hother => hjson other (List.mem_cons_of_mem _ hother)) hfirst

end Members

namespace LibraryCall
variable {policy : Policy}

/-- Whatever a call of the library is answered, it stores nothing but what it was to cache. -/
theorem calls_storesJson {c : LibraryCall} (h : c.SavesJson policy) :
    Calls Call.StoresJson (c.operation policy) := by
  have hitem {T : ItemType} {item : T.Item} (hjson : (Payload.one item).SpellsJson) (token : Token)
      (clearCollections : Bool) (extra : List Key) :
      Calls Call.StoresJson (CacheCoherence.saveItem policy item token clearCollections extra) :=
    (calls_saveItem_quiet policy hjson token clearCollections extra).mono fun _ hc => hc.1
  have hmember {T : ItemType} {item : T.Item} (hjson : (Payload.one item).SpellsJson) :
      Calls Call.StoresJson (CacheCoherence.saveMember policy item) :=
    calls_saveMember item trivial (fun _ => trivial) fun token => hitem hjson token false []
  cases c with
  | takeItemLock kind item =>
    exact calls_takeItemLock policy item trivial (fun _ _ _ => trivial) fun _ => trivial
  | releaseItemLock kind item token => exact calls_releaseItemLock policy kind item token trivial
  | takeCollectionLock kind item extra => exact calls_takeCollectionLock trivial
  | releaseCollectionLock kind item extra token => exact calls_releaseCollectionLock token trivial
  | getItem T key lock => exact calls_getItem key lock trivial trivial
  | getItemUnlessModified T key modifiedKey lock =>
    exact calls_getItemUnlessModified key modifiedKey lock trivial (fun _ => trivial) trivial
  | getItems T keys lock => exact calls_getItems keys lock trivial fun _ _ => trivial
  | getCollection T key lock => exact calls_getCollection key lock trivial trivial
  | saveItem item token clearCollections extra =>
    exact hitem (h (_, .one item) List.mem_cons_self) token clearCollections extra
  | saveCollection owner items lockKey collectionKey token isGlobal =>
    refine calls_saveCollection_document (fun _ => trivial) fun document hdoc => ?_
    refine h (collectionKey, .many items) List.mem_cons_self document.compact ?_
    rw [Payload.text?, Payload.document?, hdoc]
    rfl
  | saveMember item => exact hmember (h (_, .one item) List.mem_cons_self)
  | saveMembers items =>
    refine calls_saveMembers items fun item hitem => hmember ?_
    exact h (_, .one item) (List.mem_flatMap.2 ⟨item, hitem, List.mem_cons_self⟩)
  | deleteItem item token => exact calls_deleteItem item token trivial
  | flush tombstones => exact calls_flushNamespace tombstones trivial

end LibraryCall

/-- On a store that starts out empty and that any clients use, amid whatever they do: once a lock is
released that was taken on an item or its collection, no slot holds the token from then on, all
slots that did not hold it are left alone, and to release it again changes nothing. A lock that a
failing delete lock or a save of members has taken for itself was given back to that effect. The
clients may make any calls to the store that store JSON texts, and the library makes no others,
however it is answered, if what it is to cache is spelled in JSON. -/
theorem token_never_outlives_release {cfg : MemorySettings} (hr : cfg.rules = Rules.standard)
    {before : List Memory.Step} (hbefore : Memory.StoreJson before) (env : Surroundings)
    (policy : Policy) {T : ItemType} :
    (∀ (kind : LockKind) (item : T.Item) (token : Token) (s : Course),
      (takeItemLock policy kind item).amid cfg env (.start cfg before) = (.ok token, s) →
      ∀ between, Memory.StoreJson between →
        (s.memory.after cfg between).Withdrawn cfg token fun m =>
          ((releaseItemLock policy kind item token).on cfg m).2) ∧
    (∀ (kind : LockKind) (item : T.Item) (extra : List Key) (token : Token) (s : Course),
      (takeCollectionLock policy kind item extra).amid cfg env (.start cfg before) =
        (.ok token, s) →
      ∀ between, Memory.StoreJson between →
        (s.memory.after cfg between).Withdrawn cfg token fun m =>
          ((releaseCollectionLock policy kind item extra token).on cfg m).2) ∧
    (env.SparesReleases →
      (∀ (item : T.Item) (e : CacheError) (s : Course),
        (takeItemLock policy .delete item).amid cfg env (.start cfg before) = (.error e, s) →
        ∀ token ∈ s.taken, s.GivenBack cfg token) ∧
      ∀ (items : List T.Item) (stored : Nat) (s : Course),
        (∀ item ∈ items, (Payload.one item).SpellsJson) →
        (saveMembers policy items).amid cfg env (.start cfg before) = (stored, s) →
        ∀ token ∈ s.taken, s.GivenBack cfg token) ∧
    ∀ (owner : Policy) (c : LibraryCall), c.SavesJson owner →
      Calls Call.StoresJson (c.operation owner) := by
  have hstart := Course.owes_start hr hbefore
  refine ⟨?items, ?collections, ?internal, fun owner c hc => c.calls_storesJson hc⟩
  case items =>
    intro kind item token s htake between hbetween
    have howes := (takeItemLock_amid hr htake hstart).1 token rfl
    have hconfined := (howes.confined.after hr hbetween).withdrawn hr
    simpa only [releaseItemLock_on] using hconfined
  case collections =>
    intro kind item extra token s htake between hbetween
    obtain ⟨keys, hkeys, howes⟩ := takeCollectionLock_amid hr htake hstart
    have hconfined := (howes.confined.after hr hbetween).withdrawn hr
    simpa only [releaseCollectionLock_on cfg policy _ hkeys] using hconfined
  case internal =>
    intro hspared
    constructor
    · intro item e s htake
      exact ((takeItemLock_amid hr htake hstart).2 e rfl hspared).settled
    · intro items stored s hjson hsave
      have howes := saveMembers_amid policy hr hspared hjson hstart
      rw [hsave] at howes
      exact howes.settled

section Example
open Catalogue

/-- Time goes by before every call, and neither values can be stored nor dependencies cleared. -/
def hampered : Surroundings where
  meanwhile := fun _ => [.elapse 1]
  json := fun _ c hc => by cases List.mem_singleton.1 hc
  fails := fun _ c => c.name = "SetValue" || c.name = "ClearDependencies"

/-- An update lock on a node, a delete lock that fails, and a save of a collection with the node as
its only member. -/
def lockedAmid : Except CacheError Token × Course :=
  (takeItemLock lasting .update (nodeVersion 1)).amid {} hampered (.start {} [])

def deletedAmid : Except CacheError Token × Course :=
  (takeItemLock lasting .delete (nodeVersion 1)).amid {} hampered (.start {} [])

def savedAmid : Nat × Course :=
  (saveMembers lasting [nodeVersion 1]).amid {} hampered (.start {} [])

theorem token_never_outlives_release_of_node :
    lockedAmid.2.memory.content "k" = some (Token.issue LockKind.update.name 0) ∧
    (∀ between, Memory.StoreJson between →
      (lockedAmid.2.memory.after {} between).Withdrawn {} (Token.issue LockKind.update.name 0)
        fun m => ((releaseItemLock lasting .update (nodeVersion 1)
          (Token.issue LockKind.update.name 0)).on {} m).2) ∧
    deletedAmid.1 = .error (.lockConflict ["k"] (some (.backend .injected))) ∧
    deletedAmid.2.GivenBack {} (Token.issue LockKind.delete.name 0) ∧
    savedAmid.2.GivenBack {} (Token.issue LockKind.read.name 0) := by
  have hlocked : lockedAmid.1 = .ok (Token.issue LockKind.update.name 0) := by decide +kernel
  have hdeleted : deletedAmid.1 = .error (.lockConflict ["k"] (some (.backend .injected))) := by
    decide +kernel
  have hdelete : Token.issue LockKind.delete.name 0 ∈ deletedAmid.2.taken := by decide +kernel
  have hread : Token.issue LockKind.read.name 0 ∈ savedAmid.2.taken := by decide +kernel
  have hspared : hampered.SparesReleases := fun _ _ _ => rfl
  have hjson (item : Node) : (Payload.one (T := ⟨Node⟩) item).SpellsJson := by
    intro raw htext
    have hfaithful : (Payload.one (T := ⟨Node⟩) item).Faithful := Node.faithful item
    obtain ⟨document, -, hparse⟩ := Payload.parse?_text hfaithful.wellFormed htext
    exact Option.isSome_of_eq_some hparse
  have hbefore : Memory.StoreJson [] := fun _ hc => by cases hc
  obtain ⟨hitems, -, hinternal, -⟩ := token_never_outlives_release
    (show ({} : MemorySettings).rules = Rules.standard from rfl) hbefore hampered lasting
    (T := ⟨Node⟩)
  obtain ⟨hfailed, hmembers⟩ := hinternal hspared
  refine ⟨by decide +kernel, ?_, hdeleted, ?_, ?_⟩
  · exact hitems .update (nodeVersion 1) _ lockedAmid.2 (Prod.ext hlocked rfl)
  · exact hfailed (nodeVersion 1) _ deletedAmid.2 (Prod.ext hdeleted rfl) _ hdelete
  · exact hmembers [nodeVersion 1] savedAmid.1 savedAmid.2 (fun item _ => hjson item) rfl _ hread

end Example
end CacheCoherence
