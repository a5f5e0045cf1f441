import CacheCoherence.Cache.Read
import CacheCoherence.Proofs.Json.RoundTrip
import CacheCoherence.Proofs.Operations

/-!
# Reading one slot of a store in memory

What a read of one slot results in and leaves behind, by what the slot holds: nothing, a token, a
value that may be served, or a value that may not and is removed.
-/
namespace CacheCoherence
open Operation
variable (cfg : MemorySettings) {α : Type} (entry : Entry α) (m : Memory) (key : Key)

theorem fetch_on_vacant (h : m.content key = none) (lock : Bool) :
    (fetch entry key lock).on cfg m =
      (.miss (m.lookup cfg key lock).1.token, (m.lookup cfg key lock).2) := by
  cases lock <;> simp [fetch, resolve, Memory.getValue, Memory.lookup_of_empty cfg m key _ h]

theorem fetch_on_empty (h : m.content key = none) :
    (fetch entry key true).on cfg m =
      (.miss (Token.issue LockKind.read.name m.issued), (m.lookup cfg key true).2) := by
  rw [fetch_on_vacant cfg entry m key h, Memory.lookup_of_empty cfg m key true h, if_pos rfl]

variable {key} {raw : String}

theorem fetch_on_token (h : m.content key = some raw) (ht : isToken raw = true) (lock : Bool) :
    (fetch entry key lock).on cfg m = (.miss Token.noLock, m) := by
  simp [fetch, resolve, Memory.getValue, Memory.lookup_of_content cfg m key lock h,
    Lookup.observed, ht]

theorem fetch_on_value (h : m.content key = some raw) (ht : isToken raw = false) (lock : Bool) :
    (fetch entry key lock).on cfg m =
      match (Json.parse? raw).bind entry with
      | some item => (.hit item, m)
      | none => (.miss Token.noLock, (m.deleteValue cfg [key] false true).memory) := by
  simp only [fetch, resolve, on_bind, on_note, on_getValue, Memory.getValue,
    Memory.lookup_of_content cfg m key lock h, Lookup.observed, ht, Option.bind_eq_bind]
  cases hentry : (Json.parse? raw).bind entry with
  | some item => simp [hentry]
  | none => simp [hentry, purge]

/-- What a read makes of what a store found, whatever the removal of an entry comes to. -/
def resolved (entry : Entry α) (lookup : Lookup) : Found α :=
  match lookup.value with
  | none => .miss lookup.token
  | some raw =>
    match Json.parse? raw >>= entry with
    | some item => .hit item
    | none => .miss Token.noLock

theorem run_resolve {σ : Type} (answer : (q : Action) → σ → q.Answer × σ) (key : Key)
    (lookup : Lookup) (s : σ) :
    (Program.run answer (resolve entry key lookup) s).1 = resolved entry lookup := by
  unfold resolve resolved
  cases lookup.value with
  | none => rfl
  | some raw =>
    simp only
    cases Json.parse? raw >>= entry with
    | some item => rfl
    | none =>
      simp only [Program.run_bind_eq]
      rfl

theorem resolve_result (key : Key) (lookup : Lookup) :
    ((resolve entry key lookup).on cfg m).1 = resolved entry lookup :=
  run_resolve entry _ key lookup m

theorem fetch_result (key : Key) (lock : Bool) :
    ((fetch entry key lock).on cfg m).1 = resolved entry (m.lookup cfg key lock).1 := by
  simp [fetch, Memory.getValue, resolve_result]

theorem exists_value_of_hit {key : Key} {lock : Bool} {item : α}
    (h : ((fetch entry key lock).on cfg m).1.item = some item) :
    ∃ raw, m.content key = some raw ∧ isToken raw = false ∧
      (Json.parse? raw).bind entry = some item := by
  rw [fetch_result] at h
  cases hcontent : m.content key with
  | none =>
    have hvalue : (m.lookup cfg key lock).1.value = none := by
      cases lock <;> simp [Memory.lookup, hcontent]
    rw [resolved, hvalue] at h
    cases h
  | some raw =>
    rw [Memory.lookup_of_content cfg m key lock hcontent] at h
    cases ht : isToken raw with
    | true =>
      simp only [Lookup.observed, ht, if_true, resolved] at h
      cases h
    | false =>
      refine ⟨raw, rfl, ht, ?_⟩
      simp only [Lookup.observed, ht, Bool.false_eq_true, if_false, resolved,
        Option.bind_eq_bind] at h
      cases hentry : (Json.parse? raw).bind entry with
      | none =>
        rw [hentry] at h
        cases h
      | some found =>
        rw [hentry] at h
        exact h

section Batch
variable [Cacheable α]

theorem run_resolveAll {σ : Type} (answer : (q : Action) → σ → q.Answer × σ)
    (found : List (Key × Lookup)) (s : σ) :
    (Program.run answer (resolveAll found : Operation (List (Found α))) s).1 =
      found.map fun slot => resolved servableItem slot.2 := by
  induction found generalizing s with
  | nil => rfl
  | cons first rest ih =>
    rw [resolveAll, Program.run_bind_eq, Program.run_bind_eq, run_resolve, ih]
    rfl

theorem resolveAll_result (found : List (Key × Lookup)) :
    ((resolveAll found : Operation (List (Found α))).on cfg m).1 =
      found.map fun slot => resolved servableItem slot.2 :=
  run_resolveAll _ found m

theorem getItems_on (policy : Policy) {keys : List Key} (lock : Bool)
    (h : (keys.isEmpty || skips policy α) = false) :
    (getItems policy keys lock : Operation (List (Found α))).on cfg m =
      (resolveAll (keys.zip (Memory.lookups cfg (keys.map fun key => (key, lock)) m).1)).on cfg
        (Memory.lookups cfg (keys.map fun key => (key, lock)) m).2 := by
  have hzip : keys.zip (keys.map fun _ => lock) = keys.map fun key => (key, lock) :=
    List.map_prod_left_eq_zip.symm
  simp only [getItems, h, Bool.false_eq_true, ↓reduceIte, ExceptT.stM_eq, bind_pure_comp, on_bind,
    on_note, on_getValues, Memory.getValues, List.length_map, hzip]

theorem getItemUnlessModified_on (policy : Policy) (key modifiedKey : Key) (lock : Bool)
    (h : skips policy α = false) :
    (getItemUnlessModified policy key modifiedKey lock : Operation (Found α)).on cfg m =
      let found := m.lookup cfg key lock
      let modified := found.2.lookup cfg modifiedKey false
      if modified.1.value.isSome || modified.1.conflict.isSome then
        (.miss Token.noLock, (modified.2.releaseToken [key] found.1.token).memory)
      else (resolve servableItem key found.1).on cfg modified.2 := by
  simp only [getItemUnlessModified, h, Bool.false_eq_true, if_false, on_bind, on_note,
    on_getValues, Memory.getValues, List.length_cons, List.length_nil, if_true,
    List.zip_cons_cons, List.zip_nil_left, Memory.lookups]
  split <;> simp

end Batch

/-- The document of an item, if it has one, is spelled properly and describes the item. -/
structure Faithful {α : Type} [Cacheable α] (item : α) : Prop where
  wellFormed : ∀ document, Cacheable.toJson? item = some document → document.WellFormed
  reads : ∀ document, Cacheable.toJson? item = some document →
    Cacheable.ofJson? document = some item

section Faithful
variable {α : Type} [Cacheable α] {item : α} {document : Json}

theorem Faithful.isToken_compact (h : Faithful item)
    (hdoc : Cacheable.toJson? item = some document) : isToken document.compact = false := by
  refine Json.isToken_of_parse? ?_
  rw [Json.parse?_compact (h.wellFormed document hdoc)]
  rfl

/-- The text that an item is saved as is served as that item, if it may be served at all. -/
theorem Faithful.served (h : Faithful item) (hdoc : Cacheable.toJson? item = some document) :
    (Json.parse? document.compact).bind servableItem =
      if Cacheable.isValid item then some item else none := by
  rw [Json.parse?_compact (h.wellFormed document hdoc), Option.bind_some, servableItem,
    h.reads document hdoc]
  rfl

end Faithful

/-- An entry is removed only if it was found and must not be served. -/
theorem calls_resolve {S : Call → Prop} (key : Key) (lookup : Lookup)
    (hpurge : ∀ raw, lookup.value = some raw → (Json.parse? raw).bind entry = none →
      S (.deleteValue [key] false true)) :
    Calls S (resolve entry key lookup) := by
  unfold resolve
  cases hvalue : lookup.value with
  | none => exact calls_reported _ _ _
  | some raw =>
    simp only [Option.bind_eq_bind]
    cases hentry : (Json.parse? raw).bind entry with
    | some item => exact calls_reported _ _ _
    | none =>
      have hremoves := (calls_call _).2 (hpurge raw hvalue hentry)
      refine Calls.bind (calls_note _) fun _ => Calls.bind (calls_log _) fun _ => ?_
      refine Calls.bind (Calls.bind hremoves fun answer => ?_) fun _ => trivial
      cases answer with
      | ok u => trivial
      | error fault => exact calls_log _

theorem calls_fetch {S : Call → Prop} (key : Key) (lock : Bool) (hget : S (.getValue key lock))
    (hpurge : S (.deleteValue [key] false true)) : Calls S (fetch entry key lock) := by
  refine Calls.bind (calls_note _) fun _ => Calls.bind ((calls_call _).2 hget) fun answer => ?_
  refine Calls.bind (calls_note _) fun _ => ?_
  cases answer with
  | ok lookup => exact calls_resolve entry key lookup fun _ _ _ => hpurge
  | error fault => exact calls_reported _ _ _

section Calls
variable {S : Call → Prop} [Cacheable α] {policy : Policy}

theorem calls_getItem (key : Key) (lock : Bool) (hget : S (.getValue key lock))
    (hpurge : S (.deleteValue [key] false true)) :
    Calls S (getItem policy key lock : Operation (Found α)) := by
  unfold getItem
  split
  · trivial
  · exact calls_fetch servableItem key lock hget hpurge

theorem calls_getCollection (key : Key) (lock : Bool) (hget : S (.getValue key lock))
    (hpurge : S (.deleteValue [key] false true)) :
    Calls S (getCollection policy key lock : Operation (Found (List α))) := by
  unfold getCollection
  split
  · trivial
  · exact calls_fetch servableItems key lock hget hpurge

theorem calls_getItemUnlessModified (key modifiedKey : Key) (lock : Bool)
    (hget : S (.getValues [key, modifiedKey] [lock, false]))
    (hrelease : ∀ token, S (.releaseToken [key] token))
    (hpurge : S (.deleteValue [key] false true)) :
    Calls S (getItemUnlessModified policy key modifiedKey lock : Operation (Found α)) := by
  unfold getItemUnlessModified
  split
  · trivial
  refine Calls.bind (calls_note _) fun _ => Calls.bind ((calls_call _).2 hget) fun answer =>
    Calls.bind (calls_note _) fun _ => ?_
  split
  · exact calls_reported _ _ _
  · rename_i lookup modified rest
    split
    · exact Calls.bind ((calls_call _).2 (hrelease _)) fun _ =>
        calls_reported _ _ _
    · exact calls_resolve servableItem key lookup fun _ _ _ => hpurge
  · exact calls_reported _ _ _

theorem calls_resolveAll (found : List (Key × Lookup))
    (hpurge : ∀ slot ∈ found, ∀ raw, slot.2.value = some raw →
      (Json.parse? raw).bind (servableItem (α := α)) = none →
        S (.deleteValue [slot.1] false true)) :
    Calls S (resolveAll found : Operation (List (Found α))) := by
  induction found with
  | nil => trivial
  | cons first rest ih =>
    have hfirst := hpurge first List.mem_cons_self
    have hrest := ih fun slot hslot => hpurge slot (List.mem_cons_of_mem _ hslot)
    exact Calls.bind (calls_resolve servableItem first.1 first.2 hfirst) fun _ =>
      Calls.bind hrest fun _ => trivial

theorem calls_noteMisses (keys : List Key) : Calls S (noteMisses keys) := by
  induction keys with
  | nil => trivial
  | cons key rest ih => exact Calls.bind (calls_note _) fun _ => ih

theorem calls_getItems (keys : List Key) (lock : Bool)
    (hget : S (.getValues keys (keys.map fun _ => lock)))
    (hpurge : ∀ key ∈ keys, S (.deleteValue [key] false true)) :
    Calls S (getItems policy keys lock : Operation (List (Found α))) := by
  unfold getItems
  simp only
  split
  · trivial
  refine Calls.bind (calls_note _) fun _ => Calls.bind ((calls_call _).2 hget) fun answer =>
    Calls.bind (calls_note _) fun _ => ?_
  cases answer with
  | error fault =>
    exact Calls.bind (calls_noteMisses keys) fun _ => Calls.bind (calls_log _) fun _ => trivial
  | ok lookups =>
    exact calls_resolveAll _ fun slot hslot _ _ _ => hpurge slot.1 (List.of_mem_zip hslot).1

end Calls

end CacheCoherence
