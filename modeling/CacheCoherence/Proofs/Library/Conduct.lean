import CacheCoherence.Proofs.Library.Roles

/-!
# What is rejected and what a call fails with

An operation is sound if it rejects only entries that it found and that are to be refused, and ends
as it should, as long as nothing that it calls turns out corrupt. Every call of the library is sound
in this sense: it rejects entries only under keys that it reads, where it found a text that is no
item to be served, and it fails with no faults but those that the store answered.
-/
namespace CacheCoherence

/-- A text under a key in a role is refused: whatever was saved as this text must not be served. -/
def Role.Refuses (role : Role) (raw : String) : Prop :=
  role ≠ .list ∧
    ∀ x : Payload, x.role = role → x.Faithful → x.text? = some raw → x.isValid = false

def CacheError.fault? : CacheError → Option Fault
  | .lockConflict _ source => source
  | .store fault => some fault
  | _ => none

def faultOf? {α : Type} : Except CacheError α → Option Fault
  | .ok _ => none
  | .error e => e.fault?

def LibraryCall.fault? : (c : LibraryCall) → c.Answer → Option Fault
  | .takeItemLock .., answer | .takeCollectionLock .., answer => faultOf? answer
  | .releaseCollectionLock .., answer | .deleteItem .., answer | .flush .., answer =>
    faultOf? answer
  | _, _ => none

/-- An entry is rejected only if it was found and is to be refused. -/
def Action.Permitted (refuses : Key → String → Prop) (seen : List (Key × String)) : Action → Prop
  | .log (.entryRejected key) => ∃ raw, (key, raw) ∈ seen ∧ refuses key raw
  | _ => True

namespace Operation
variable {α β : Type} {refuses : Key → String → Prop} {ends middle : α → Prop} {last : β → Prop}
  {seen : List (Key × String)}

variable (refuses) in
/-- Having found some values, an operation rejects only what it has found and is to be refused, and
ends as it should, unless something that it calls is corrupt. -/
def Sound (ends : α → Prop) : Operation α → List (Key × String) → Prop
  | .done a, _ => ends a
  | .ask q next, seen =>
    q.Permitted refuses seen ∧
      ∀ answer, (∀ key, q.fault? answer ≠ some (.corrupt key)) →
        Sound ends (next answer) (seen ++ q.found answer)

@[simp] theorem sound_pure (a : α) : Sound refuses ends (pure a) seen ↔ ends a := Iff.rfl

theorem Sound.call {c : Call} {next : c.Answer → Operation α}
    (h : ∀ answer, (∀ key, c.fault? answer ≠ some (.corrupt key)) →
      Sound refuses ends (next answer) (seen ++ c.found answer)) :
    Sound refuses ends (Operation.call c >>= next) seen :=
  ⟨trivial, h⟩

@[simp] theorem sound_note_bind (n : Note) (next : Unit → Operation α) :
    Sound refuses ends (note n >>= next) seen ↔ Sound refuses ends (next ()) seen := by
  have hseen : Sound refuses ends (next ()) (seen ++ []) ↔ Sound refuses ends (next ()) seen := by
    rw [List.append_nil]
  exact ⟨fun h => hseen.1 (h.2 () fun _ hfault => by cases hfault),
    fun h => ⟨trivial, fun _ _ => hseen.2 h⟩⟩

@[simp] theorem sound_log_bind (e : Event) (next : Unit → Operation α) :
    Sound refuses ends (log e >>= next) seen ↔
      (Action.log e).Permitted refuses seen ∧ Sound refuses ends (next ()) seen := by
  have hseen : Sound refuses ends (next ()) (seen ++ []) ↔ Sound refuses ends (next ()) seen := by
    rw [List.append_nil]
  exact ⟨fun h => ⟨h.1, hseen.1 (h.2 () fun _ hfault => by cases hfault)⟩,
    fun h => ⟨h.1, fun _ _ => hseen.2 h.2⟩⟩

theorem sound_reported (n : Note) {e : Event} {a : α}
    (he : (Action.log e).Permitted refuses seen) (ha : ends a) :
    Sound refuses ends (do note n; log e; return a) seen := by
  rw [sound_note_bind, sound_log_bind]
  exact ⟨he, ha⟩

theorem Sound.bind {op : Operation α} {next : α → Operation β} (h : op.Sound refuses middle seen)
    (hnext : ∀ a later, seen ⊆ later → middle a → (next a).Sound refuses last later) :
    (op >>= next).Sound refuses last seen := by
  induction op generalizing seen with
  | done a => exact hnext a seen (List.Subset.refl _) h
  | ask q rest ih =>
    refine ⟨h.1, fun answer hanswer => ih answer (h.2 answer hanswer) fun a later hsub => ?_⟩
    exact hnext a later fun entry hentry => hsub (List.mem_append_left _ hentry)

theorem Sound.mono {op : Operation α} (h : op.Sound refuses middle seen)
    (hends : ∀ a, middle a → ends a) : op.Sound refuses ends seen := by
  induction op generalizing seen with
  | done a => exact hends a h
  | ask q rest ih => exact ⟨h.1, fun answer hanswer => ih answer (h.2 answer hanswer)⟩

theorem Sound.faultless {op : Operation α} {fault? : α → Option Fault}
    (h : op.Sound refuses (fun _ => True) seen) (hnone : ∀ a, fault? a = none) :
    op.Sound refuses (fun a => ∀ key, fault? a ≠ some (.corrupt key)) seen :=
  h.mono fun a _ key hfault => by
    rw [hnone] at hfault
    cases hfault

theorem sound_call (c : Call) : Sound refuses (fun _ => True) (call c) seen :=
  ⟨trivial, fun _ _ => trivial⟩

end Operation

open Operation
variable {refuses : Key → String → Prop} {seen : List (Key × String)} {policy : Policy}
  {roles : Key → Role}

section Reads
variable {β : Type} {entry : Entry β} {key : Key}

theorem sound_purge : Sound refuses (fun _ => True) (purge key) seen := by
  refine Sound.call fun answer _ => ?_
  cases answer with
  | ok u => trivial
  | error fault => exact ⟨trivial, fun _ _ => trivial⟩

theorem sound_resolve {lookup : Lookup} (hseen : ∀ raw ∈ lookup.value, (key, raw) ∈ seen)
    (hrefuses : ∀ raw, (Json.parse? raw).bind entry = none → refuses key raw) :
    Sound refuses (fun _ => True) (resolve entry key lookup) seen := by
  unfold resolve
  cases hvalue : lookup.value with
  | none => exact sound_reported _ trivial trivial
  | some raw =>
    simp only [Option.bind_eq_bind]
    cases hentry : (Json.parse? raw).bind entry with
    | some item => exact sound_reported _ trivial trivial
    | none =>
      simp only [sound_note_bind, sound_log_bind]
      refine ⟨⟨raw, hseen raw hvalue, hrefuses raw hentry⟩, ?_⟩
      exact sound_purge.bind fun _ _ _ _ => trivial

theorem sound_fetch (hrefuses : ∀ raw, (Json.parse? raw).bind entry = none → refuses key raw)
    (lock : Bool) : Sound refuses (fun _ => True) (fetch entry key lock) seen := by
  unfold fetch
  rw [sound_note_bind]
  refine Sound.call fun answer _ => ?_
  rw [sound_note_bind]
  cases answer with
  | ok lookup =>
    refine sound_resolve (fun raw hraw => List.mem_append_right _ ?_) hrefuses
    exact List.mem_map.2 ⟨raw, Option.mem_toList.2 hraw, rfl⟩
  | error fault => exact sound_reported _ trivial trivial

section Item
variable {T : ItemType}

theorem refuses_item (hkey : roles key = .item T) {raw : String}
    (hentry : (Json.parse? raw).bind (servableItem (α := T.Item)) = none) :
    (roles key).Refuses raw := by
  rw [hkey]
  refine ⟨by simp, fun x hrole hfaithful htext => ?_⟩
  cases x with
  | many items => cases hrole
  | one item =>
    cases hrole
    obtain ⟨document, hdoc, rfl⟩ := Option.map_eq_some_iff.1 htext
    rw [CacheCoherence.Faithful.served hfaithful hdoc] at hentry
    split at hentry
    · cases hentry
    · rename_i hvalid
      exact Bool.not_eq_true _ ▸ hvalid

theorem refuses_collection (hkey : roles key = .collection T) {raw : String}
    (hentry : (Json.parse? raw).bind (servableItems (α := T.Item)) = none) :
    (roles key).Refuses raw := by
  rw [hkey]
  refine ⟨by simp, fun x hrole hfaithful htext => ?_⟩
  cases x with
  | one item => cases hrole
  | many items =>
    cases hrole
    obtain ⟨document, hdoc, rfl⟩ := Option.map_eq_some_iff.1 htext
    rw [served_collection hfaithful hdoc] at hentry
    split at hentry
    · cases hentry
    · rename_i hvalid
      exact Bool.not_eq_true _ ▸ hvalid

theorem sound_getItem (hkey : roles key = .item T) (lock : Bool) :
    Sound (fun key raw => (roles key).Refuses raw) (fun _ => True)
      (getItem policy key lock : Operation (Found T.Item)) seen := by
  unfold getItem
  split
  · trivial
  · exact sound_fetch (fun raw => refuses_item hkey) lock

theorem sound_getCollection (hkey : roles key = .collection T) (lock : Bool) :
    Sound (fun key raw => (roles key).Refuses raw) (fun _ => True)
      (getCollection policy key lock : Operation (Found (List T.Item))) seen := by
  unfold getCollection
  split
  · trivial
  · exact sound_fetch (fun raw => refuses_collection hkey) lock

theorem sound_resolveAll {found : List (Key × Lookup)}
    (hkeys : ∀ slot ∈ found, roles slot.1 = .item T)
    (hseen : ∀ slot ∈ found, ∀ raw ∈ slot.2.value, (slot.1, raw) ∈ seen) :
    Sound (fun key raw => (roles key).Refuses raw) (fun _ => True)
      (resolveAll found : Operation (List (Found T.Item))) seen := by
  induction found generalizing seen with
  | nil => trivial
  | cons first rest ih =>
    refine Sound.bind (sound_resolve (hseen first List.mem_cons_self)
      fun raw => refuses_item (hkeys first List.mem_cons_self)) fun _ later hsub _ => ?_
    refine Sound.bind (ih (fun slot hslot => hkeys slot (List.mem_cons_of_mem _ hslot))
      fun slot hslot raw hraw => hsub ?_) fun _ _ _ _ => trivial
    exact hseen slot (List.mem_cons_of_mem _ hslot) raw hraw

theorem sound_noteMisses (keys : List Key) :
    Sound refuses (fun _ => True) (noteMisses keys) seen := by
  induction keys with
  | nil => trivial
  | cons key rest ih => exact (sound_note_bind _ _).2 ih

theorem sound_getItems {keys : List Key} (hkeys : ∀ key ∈ keys, roles key = .item T) (lock : Bool) :
    Sound (fun key raw => (roles key).Refuses raw) (fun _ => True)
      (getItems policy keys lock : Operation (List (Found T.Item))) seen := by
  unfold getItems
  simp only
  split
  · trivial
  rw [sound_note_bind]
  refine Sound.call fun answer _ => ?_
  rw [sound_note_bind]
  cases answer with
  | ok lookups =>
    refine sound_resolveAll (fun slot hslot => hkeys slot.1 (List.of_mem_zip hslot).1)
      fun slot hslot raw hraw => List.mem_append_right _ ?_
    refine List.mem_flatMap.2 ⟨slot, hslot, List.mem_map.2 ⟨raw, ?_, rfl⟩⟩
    exact Option.mem_toList.2 hraw
  | error fault =>
    refine (sound_noteMisses keys).bind fun _ _ _ _ => ?_
    simp only [sound_log_bind, sound_pure, and_true]
    trivial

theorem sound_getItemUnlessModified (hkey : roles key = .item T) (modifiedKey : Key) (lock : Bool) :
    Sound (fun key raw => (roles key).Refuses raw) (fun _ => True)
      (getItemUnlessModified policy key modifiedKey lock : Operation (Found T.Item)) seen := by
  unfold getItemUnlessModified
  split
  · trivial
  rw [sound_note_bind]
  refine Sound.call fun answer _ => ?_
  rw [sound_note_bind]
  split
  · exact sound_reported _ trivial trivial
  · rename_i lookup modified rest hanswer
    split
    · exact Sound.call fun _ _ => sound_reported _ trivial trivial
    · refine sound_resolve (fun raw hraw => List.mem_append_right _ ?_) fun raw => refuses_item hkey
      refine List.mem_flatMap.2 ⟨(key, lookup), List.mem_cons_self, List.mem_map.2 ⟨raw, ?_, rfl⟩⟩
      exact Option.mem_toList.2 hraw
  · exact sound_reported _ trivial trivial

end Item
end Reads

section Locks
variable {α : Type} [Cacheable α]

theorem sound_takeItemLock (kind : LockKind) (item : α) :
    Sound refuses (fun taken => ∀ key, faultOf? taken ≠ some (.corrupt key))
      (takeItemLock policy kind item) seen := by
  unfold takeItemLock
  rw [sound_note_bind]
  refine Sound.call fun answer hanswer => ?_
  cases answer with
  | error fault => exact (sound_log_bind _ _).2 ⟨trivial, hanswer⟩
  | ok token =>
    have hdone {e : Event} (seen : List (Key × String))
        (he : (Action.log e).Permitted refuses seen) :
        Sound refuses (fun taken => ∀ key, faultOf? taken ≠ some (.corrupt key))
          (do log e; return .ok token : Operation (Except CacheError Token)) seen :=
      (sound_log_bind _ _).2 ⟨he, fun key hfault => by cases hfault⟩
    simp only
    split
    · exact hdone _ trivial
    · split
      · refine Sound.call fun cleared hcleared => ?_
        cases cleared with
        | ok u => exact hdone _ trivial
        | error fault => exact (sound_log_bind _ _).2 ⟨trivial, Sound.call fun _ _ => hcleared⟩
      · exact hdone _ trivial

/-- A collection cannot be locked to create or update it, which is no fault of the store. -/
theorem collectionLockKeys_fault {kind : LockKind} {item : α} {extra : List Key} {e : CacheError}
    (h : collectionLockKeys policy kind item extra = .error e) : e.fault? = none := by
  cases kind with
  | create | update =>
    cases h
    rfl
  | delete | read => cases h

theorem sound_takeCollectionLock (kind : LockKind) (item : α) (extra : List Key) :
    Sound refuses (fun taken => ∀ key, faultOf? taken ≠ some (.corrupt key))
      (takeCollectionLock policy kind item extra) seen := by
  unfold takeCollectionLock
  cases hkeys : collectionLockKeys policy kind item extra with
  | error e =>
    intro key hfault
    rw [faultOf?, collectionLockKeys_fault hkeys] at hfault
    cases hfault
  | ok keys =>
    simp only
    rw [sound_note_bind]
    refine Sound.call fun answer hanswer => ?_
    cases answer with
    | error fault => exact (sound_log_bind _ _).2 ⟨trivial, hanswer⟩
    | ok token => exact fun key hfault => by cases hfault

theorem sound_releaseCollectionLock (kind : LockKind) (item : α) (extra : List Key)
    (token : Token) :
    Sound refuses (fun answer => ∀ key, faultOf? answer ≠ some (.corrupt key))
      (releaseCollectionLock policy kind item extra token) seen := by
  unfold releaseCollectionLock
  cases hkeys : collectionLockKeys policy kind item extra with
  | error e =>
    intro key hfault
    rw [faultOf?, collectionLockKeys_fault hkeys] at hfault
    cases hfault
  | ok keys =>
    simp only
    split
    · exact fun key hfault => by cases hfault
    · rw [sound_note_bind]
      exact Sound.call fun _ _ key hfault => by cases hfault

theorem sound_deleteItem (item : α) (token : Token) :
    Sound refuses (fun answer => ∀ key, faultOf? answer ≠ some (.corrupt key))
      (deleteItem policy item token) seen := by
  unfold deleteItem
  split
  · exact fun key hfault => by cases hfault
  rw [sound_note_bind]
  refine Sound.call fun answer hanswer => ?_
  cases answer with
  | ok u => exact sound_reported _ trivial fun key hfault => by cases hfault
  | error fault => exact sound_reported _ trivial hanswer

theorem sound_flushNamespace (tombstones : Bool) :
    Sound refuses (fun answer => ∀ key, faultOf? answer ≠ some (.corrupt key))
      (flushNamespace policy tombstones) seen := by
  refine (sound_log_bind _ _).2 ⟨trivial, Sound.call fun answer hanswer => ?_⟩
  cases answer with
  | ok u => exact fun key hfault => by cases hfault
  | error fault => exact hanswer

theorem sound_releaseItemLock (kind : LockKind) (item : α) (token : Token) :
    Sound refuses (fun _ => True) (releaseItemLock policy kind item token) seen := by
  unfold releaseItemLock
  split
  · trivial
  · exact (sound_note_bind _ _).2 (sound_call _)

end Locks

section Saves
variable {α : Type} [Cacheable α]

theorem sound_failing {skip : Bool} {e : Event} {attempt : Operation (Except Fault Unit)}
    (he : ∀ seen, (Action.log e).Permitted refuses seen)
    (h : Sound refuses (fun _ => True) attempt seen) :
    Sound refuses (fun _ => True) (failing skip e attempt) seen := by
  cases skip with
  | true => trivial
  | false =>
    refine Sound.bind h fun answer _ _ _ => ?_
    cases answer with
    | ok u => trivial
    | error fault => exact (sound_log_bind _ _).2 ⟨he _, trivial⟩

theorem sound_invalidateCollections (keys : ItemKeys) (extra : List Key) :
    Sound refuses (fun _ => True) (invalidateCollections keys extra) seen := by
  refine Sound.bind (sound_failing (fun _ => trivial) (sound_call _))
    fun collectionsFailed _ _ _ => ?_
  cases keys.dependencies with
  | none => trivial
  | some list =>
    exact Sound.bind (sound_failing (fun _ => trivial) (sound_call _)) fun _ _ _ _ => trivial

theorem sound_registerItem (item : α) (keys : ItemKeys) (ttl : Nat) :
    Sound refuses (fun _ => True) (registerItem policy item keys ttl) seen := by
  refine Sound.bind (sound_failing (fun _ => trivial) (sound_call _)) fun failed _ _ _ => ?_
  cases keys.dependencies with
  | none => trivial
  | some list =>
    exact Sound.bind (sound_failing (fun _ => trivial) (sound_call _)) fun _ _ _ _ => trivial

theorem sound_rollback (keys : ItemKeys) :
    Sound refuses (fun _ => True) (rollback keys) seen := by
  refine Sound.call fun answer _ => ?_
  rw [sound_note_bind]
  cases answer with
  | ok u => trivial
  | error fault => exact (sound_log_bind _ _).2 ⟨trivial, trivial⟩

theorem sound_saveItem (item : α) (token : Token) (clearCollections : Bool) (extra : List Key) :
    Sound refuses (fun _ => True) (saveItem policy item token clearCollections extra) seen := by
  unfold saveItem
  simp only
  split
  · trivial
  split
  · exact (sound_log_bind _ _).2 ⟨trivial, trivial⟩
  rw [sound_note_bind]
  refine Sound.call fun answer _ => ?_
  cases answer with
  | error fault => exact sound_reported _ trivial trivial
  | ok result =>
    simp only
    split
    · have hregister (clearFailed : Bool) (seen : List (Key × String)) :
          Sound refuses (fun _ => True) (do
            let registerFailed ← registerItem policy item (ItemKeys.of policy.names item)
              (Cacheable.ttl α policy.ttls)
            if clearFailed || registerFailed then rollback (ItemKeys.of policy.names item)
            else
              note (.store true)
              log (.stored (ItemKeys.of policy.names item).primary)
              return .stored) seen := by
        refine Sound.bind (sound_registerItem item _ _) fun registerFailed _ _ _ => ?_
        split
        · exact sound_rollback _
        · exact sound_reported _ trivial trivial
      cases clearCollections with
      | true =>
        exact Sound.bind (sound_invalidateCollections _ extra) fun clearFailed _ _ _ =>
          hregister clearFailed _
      | false => exact hregister false _
    · exact sound_reported _ trivial trivial

theorem sound_saveCollection {γ : Type} [Cacheable γ] (owner : γ) (items : List α)
    (lockKey collectionKey : Key) (token : Token) (isGlobal : Bool) :
    Sound refuses (fun _ => True)
      (saveCollection policy owner items lockKey collectionKey token isGlobal) seen := by
  unfold saveCollection
  simp only
  split
  · trivial
  split
  · exact (sound_log_bind _ _).2 ⟨trivial, trivial⟩
  split
  · exact (sound_log_bind _ _).2 ⟨trivial, trivial⟩
  rw [sound_note_bind]
  -- Both ways of registering go on alike.
  split
  all_goals
    refine Sound.bind (show Sound refuses (fun _ => True) _ _ by
      first | exact trivial | exact sound_call _) fun registered _ _ _ => ?_
    cases registered with
    | error fault => exact sound_reported _ trivial trivial
    | ok u =>
      refine Sound.call fun answer _ => ?_
      cases answer with
      | error fault => exact sound_reported _ trivial trivial
      | ok result =>
        simp only
        split <;> exact sound_reported _ trivial trivial

theorem sound_saveMember (item : α) :
    Sound refuses (fun _ => True) (saveMember policy item) seen := by
  refine Sound.bind (sound_takeItemLock .read item) fun taken _ _ _ => ?_
  cases taken with
  | error e => trivial
  | ok token =>
    simp only
    split
    · trivial
    · exact Sound.bind (sound_saveItem item token false []) fun _ _ _ _ =>
        Sound.bind (sound_releaseItemLock .read item token) fun _ _ _ _ => trivial

theorem sound_saveMembers (items : List α) :
    Sound refuses (fun _ => True) (saveMembers policy items) seen := by
  induction items generalizing seen with
  | nil => trivial
  | cons item rest ih =>
    exact Sound.bind (sound_saveMember item) fun _ _ _ _ => Sound.bind ih fun _ _ _ _ => trivial

end Saves

/-- Every call of the library that uses keys in their roles rejects only entries that it found and
that must not be served, and fails with no fault but one that the store answered. -/
theorem LibraryCall.KeepsRoles.sound {c : LibraryCall} (h : c.KeepsRoles policy roles) :
    Sound (fun key raw => (roles key).Refuses raw)
      (fun answer => ∀ key, c.fault? answer ≠ some (.corrupt key)) (c.operation policy) seen := by
  cases c with
  | takeItemLock kind item => exact sound_takeItemLock kind item
  | releaseItemLock kind item token =>
    exact (sound_releaseItemLock kind item token).faultless fun _ => rfl
  | takeCollectionLock kind item extra => exact sound_takeCollectionLock kind item extra
  | releaseCollectionLock kind item extra token =>
    exact sound_releaseCollectionLock kind item extra token
  | getItem T key lock =>
    have hkey : roles key = .item T := h.reads (key, .item T) List.mem_cons_self
    exact (sound_getItem hkey lock).faultless fun _ => rfl
  | getItemUnlessModified T key modifiedKey lock =>
    have hkey : roles key = .item T := h.reads (key, .item T) List.mem_cons_self
    exact (sound_getItemUnlessModified hkey modifiedKey lock).faultless fun _ => rfl
  | getItems T keys lock =>
    refine (sound_getItems (fun key hkey => ?_) lock).faultless fun _ => rfl
    exact h.reads (key, .item T) (List.mem_map.2 ⟨key, hkey, rfl⟩)
  | getCollection T key lock =>
    have hkey : roles key = .collection T := h.reads (key, .collection T) List.mem_cons_self
    exact (sound_getCollection hkey lock).faultless fun _ => rfl
  | saveItem item token clearCollections extra =>
    exact (sound_saveItem item token clearCollections extra).faultless fun _ => rfl
  | saveCollection owner items lockKey collectionKey token isGlobal =>
    exact (sound_saveCollection owner items lockKey collectionKey token isGlobal).faultless
      fun _ => rfl
  | saveMember item => exact (sound_saveMember item).faultless fun _ => rfl
  | saveMembers items => exact (sound_saveMembers items).faultless fun _ => rfl
  | deleteItem item token => exact sound_deleteItem item token
  | flush tombstones => exact sound_flushNamespace tombstones

end CacheCoherence
