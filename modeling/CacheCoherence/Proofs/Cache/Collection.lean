import CacheCoherence.Proofs.Cache.Lock
import CacheCoherence.Proofs.Cache.Read
import CacheCoherence.Proofs.Cache.Save

/-!
# Collections, saved and read back

A collection is served as the items that it was saved from, provided that every one of them may be
served. What a save of a collection may call, and what it depends on.
-/
namespace CacheCoherence
open Operation
variable {α : Type} [Cacheable α]

section Documents
variable {items : List α} {document : Json}

theorem collectionJson?_eq_some (h : collectionJson? items = some document) :
    ∃ documents, items.mapM Cacheable.toJson? = some documents ∧ document = .array documents := by
  obtain ⟨documents, hdocuments, rfl⟩ := Option.map_eq_some_iff.1 h
  exact ⟨documents, hdocuments, rfl⟩

theorem wellFormed_of_members (hfaithful : ∀ item ∈ items, Faithful item)
    {documents : List Json} (h : items.mapM Cacheable.toJson? = some documents) :
    (∀ d ∈ documents, d.WellFormed) ∧ documents.mapM Cacheable.ofJson? = some items := by
  induction items generalizing documents with
  | nil =>
    cases h
    exact ⟨fun d hd => (by cases hd), rfl⟩
  | cons item rest ih =>
    rw [List.mapM_cons] at h
    obtain ⟨d, hd, h⟩ := Option.bind_eq_some_iff.1 h
    obtain ⟨others, hothers, h⟩ := Option.bind_eq_some_iff.1 h
    cases h
    have hitem := hfaithful item List.mem_cons_self
    obtain ⟨hwell, hreads⟩ := ih (fun i hi => hfaithful i (List.mem_cons_of_mem _ hi)) hothers
    constructor
    · intro d' hd'
      rcases List.mem_cons.1 hd' with rfl | hd'
      · exact hitem.wellFormed d' hd
      · exact hwell d' hd'
    · rw [List.mapM_cons, hitem.reads d hd, hreads]
      rfl

variable (hfaithful : ∀ item ∈ items, Faithful item)
  (hdoc : collectionJson? items = some document)
include hfaithful hdoc

theorem parse?_collection : Json.parse? document.compact = some document := by
  obtain ⟨documents, hdocuments, rfl⟩ := collectionJson?_eq_some hdoc
  refine Json.parse?_compact ?_
  change Json.WellFormedItems documents
  rw [Json.wellFormedItems_iff]
  exact (wellFormed_of_members hfaithful hdocuments).1

theorem isToken_collection : isToken document.compact = false := by
  refine Json.isToken_of_parse? ?_
  rw [parse?_collection hfaithful hdoc]
  rfl

/-- The text that a collection is saved as is served as its items, if all of them may be served. -/
theorem served_collection :
    (Json.parse? document.compact).bind servableItems =
      if items.all Cacheable.isValid then some items else none := by
  rw [parse?_collection hfaithful hdoc, Option.bind_some]
  obtain ⟨documents, hdocuments, rfl⟩ := collectionJson?_eq_some hdoc
  have hread : (Json.array documents).toList? Cacheable.ofJson? = some items :=
    (wellFormed_of_members hfaithful hdocuments).2
  rw [servableItems, hread]
  rfl

end Documents

section Save
variable {β : Type} [Cacheable β] {cfg : MemorySettings} {policy : Policy} {owner : β}
  {items : List α} {isGlobal : Bool} {lockKey collectionKey : Key} {token : Token}
  {outcome : SaveOutcome} {m m' : Memory}

theorem mem_collectionDependencies {k : Key} :
    k ∈ (collectionDependencies policy owner items isGlobal).keys ↔
      (∃ item ∈ items, k ∈ listKeys policy.names item) ∨
        isGlobal = false ∧ Cacheable.dependenciesKey? policy.names owner = some k := by
  rw [Table.mem_keys_iff, collectionDependencies]
  have hof (ks : List Key) : (∃ u, (KeySet.ofList ks).get? k = some u) ↔ k ∈ ks := by
    rw [KeySet.ofList, KeySet.get?_addAll, Table.get?_empty]
    by_cases hk : k ∈ ks <;> simp [hk]
  rw [hof, List.mem_append, List.mem_flatMap]
  refine or_congr ?_ ?_
  · constructor
    · rintro ⟨item, hitem, hk⟩
      exact ⟨item, hitem, by rw [listKeys, List.mem_append]; exact (List.mem_append.1 hk).symm⟩
    · rintro ⟨item, hitem, hk⟩
      refine ⟨item, hitem, ?_⟩
      rw [listKeys, List.mem_append] at hk
      exact List.mem_append.2 hk.symm
  · cases isGlobal <;> simp

theorem calls_saveCollection_document {S : Call → Prop}
    (hadd : Cacheable.ttl β policy.ttls ≠ skipTtl →
      S (.addDependency (collectionDependencies policy owner items isGlobal).keys [collectionKey]
        (Cacheable.ttl β policy.ttls)))
    (hset : ∀ document, collectionJson? items = some document →
      S (.setValue lockKey [collectionKey] document.compact token (Cacheable.ttl β policy.ttls))) :
    Calls S (saveCollection policy owner items lockKey collectionKey token isGlobal) := by
  unfold saveCollection
  simp only
  split
  · trivial
  rename_i hskip
  have hadd := hadd fun ht => hskip (.inl ht)
  split
  · exact calls_logged _ _
  split
  · exact calls_logged _ _
  rename_i document hdoc
  refine Calls.bind (calls_note _) fun _ => ?_
  -- Both ways of registering go on alike.
  split
  all_goals
    refine Calls.bind (by first | exact calls_pure _ | exact (calls_call _).2 hadd)
      fun registered => ?_
    cases registered with
    | error fault => exact calls_reported _ _ _
    | ok u =>
      refine Calls.bind ((calls_call _).2 (hset document hdoc)) fun answer => ?_
      cases answer with
      | error fault => exact calls_reported _ _ _
      | ok result =>
        simp only
        split <;> exact calls_reported _ _ _

theorem calls_saveCollection {S : Call → Prop}
    (hadd : Cacheable.ttl β policy.ttls ≠ skipTtl →
      S (.addDependency (collectionDependencies policy owner items isGlobal).keys [collectionKey]
        (Cacheable.ttl β policy.ttls)))
    (hset : ∀ value, S (.setValue lockKey [collectionKey] value token
      (Cacheable.ttl β policy.ttls))) :
    Calls S (saveCollection policy owner items lockKey collectionKey token isGlobal) :=
  calls_saveCollection_document hadd fun document _ => hset document.compact

/-- A save of a collection leaves the store alone, or it registers the collection and then tries to
write it. -/
theorem saveCollection_cases (hr : cfg.rules = Rules.standard)
    (h : (saveCollection policy owner items lockKey collectionKey token isGlobal).on cfg m =
      (outcome, m')) :
    (m' = m ∧ (outcome = .skipped ∨ outcome = .notCached)) ∨
    ∃ document registered, collectionJson? items = some document ∧
      Cacheable.ttl β policy.ttls ≠ skipTtl ∧ Cacheable.ttl α policy.ttls ≠ skipTtl ∧
      m.addDependency (collectionDependencies policy owner items isGlobal).keys [collectionKey]
        (Cacheable.ttl β policy.ttls) = registered ∧ registered.answer = .ok () ∧
      m' = (registered.memory.setValue cfg lockKey [collectionKey] document.compact token
        (Cacheable.ttl β policy.ttls)).memory ∧
      outcome = if registered.memory.MayStore lockKey token then .stored else .conflict := by
  unfold saveCollection at h
  simp only at h
  split at h
  · obtain ⟨rfl, rfl⟩ := Prod.mk.inj h
    exact .inl ⟨rfl, .inl rfl⟩
  rename_i hskip
  split at h
  · obtain ⟨rfl, rfl⟩ := Prod.mk.inj h
    exact .inl ⟨rfl, .inr rfl⟩
  split at h
  · obtain ⟨rfl, rfl⟩ := Prod.mk.inj h
    exact .inl ⟨rfl, .inr rfl⟩
  rename_i document hdoc
  have hcached : Cacheable.ttl β policy.ttls ≠ skipTtl := fun ht => hskip (.inl ht)
  have hmembers : Cacheable.ttl α policy.ttls ≠ skipTtl := fun ht => hskip (.inr (.inl ht))
  have hwrite (m₁ : Memory) := Memory.answer_setValue cfg m₁ lockKey [collectionKey]
    document.compact token (Cacheable.ttl β policy.ttls) hr
  simp only [on_bind, on_note] at h
  split at h
  · rename_i hempty
    rw [List.isEmpty_iff.1 hempty]
    obtain ⟨conflict, hanswer⟩ := hwrite m
    simp only [on_bind, on_pure, on_setValue, hanswer, decide_eq_true_eq] at h
    refine .inr ⟨document, _, hdoc, hcached, hmembers, rfl, rfl, ?_⟩
    change m' = (m.setValue cfg lockKey [collectionKey] document.compact token
        (Cacheable.ttl β policy.ttls)).memory ∧
      outcome = if m.MayStore lockKey token then .stored else .conflict
    by_cases hstore : m.MayStore lockKey token
    all_goals
      simp only [hstore, if_true, if_false, on_bind, on_note, on_log, on_pure] at h
      obtain ⟨rfl, rfl⟩ := Prod.mk.inj h
      simp [hstore]
  · cases hok : (m.addDependency (collectionDependencies policy owner items isGlobal).keys
        [collectionKey] (Cacheable.ttl β policy.ttls)).answer with
    | error fault =>
      simp only [on_bind, on_addDependency, hok, Memory.addDependency_failed m _ _ _ hok] at h
      obtain ⟨rfl, rfl⟩ := Prod.mk.inj h
      exact .inl ⟨rfl, .inr rfl⟩
    | ok u =>
      obtain ⟨conflict, hanswer⟩ := hwrite (m.addDependency
        (collectionDependencies policy owner items isGlobal).keys [collectionKey]
        (Cacheable.ttl β policy.ttls)).memory
      simp only [on_bind, on_addDependency, hok, on_setValue, hanswer, decide_eq_true_eq] at h
      refine .inr ⟨document, _, hdoc, hcached, hmembers, rfl, hok, ?_⟩
      by_cases hstore : (m.addDependency (collectionDependencies policy owner items isGlobal).keys
        [collectionKey] (Cacheable.ttl β policy.ttls)).memory.MayStore lockKey token
      all_goals
        simp only [hstore, if_true, if_false, on_bind, on_note, on_log, on_pure] at h
        obtain ⟨rfl, rfl⟩ := Prod.mk.inj h
        simp [hstore]

/-- A collection is stored if nothing about it stands in the way, every list takes it and its lock
is still there. -/
theorem saveCollection_on_stored (hr : cfg.rules = Rules.standard)
    (howner : Cacheable.ttl β policy.ttls ≠ skipTtl)
    (hmembers : Cacheable.ttl α policy.ttls ≠ skipTtl)
    (hnarrow : (collectionDependencies policy owner items isGlobal).keys.length ≤
      maxCollectionDependencies)
    {document : Json} (hdoc : collectionJson? items = some document)
    (hanswer : (m.addDependency (collectionDependencies policy owner items isGlobal).keys
      [collectionKey] (Cacheable.ttl β policy.ttls)).answer = .ok ())
    (hstore : (m.addDependency (collectionDependencies policy owner items isGlobal).keys
      [collectionKey] (Cacheable.ttl β policy.ttls)).memory.MayStore lockKey token) :
    ((saveCollection policy owner items lockKey collectionKey token isGlobal).on cfg m).1 =
      .stored := by
  have hskip : ¬ (Cacheable.ttl β policy.ttls = skipTtl ∨ Cacheable.ttl α policy.ttls = skipTtl ∨
      token = Token.noLock) := by
    rintro (h | h | h)
    · exact howner h
    · exact hmembers h
    · exact hstore.1 h
  have hwide : ¬ (collectionDependencies policy owner items isGlobal).keys.length >
      maxCollectionDependencies := Nat.not_lt.2 hnarrow
  obtain ⟨conflict, hset⟩ := Memory.answer_setValue cfg _ lockKey [collectionKey]
    document.compact token (Cacheable.ttl β policy.ttls) hr
  rw [decide_eq_true hstore] at hset
  unfold saveCollection
  simp only [hskip, hwide, if_false, hdoc, on_bind, on_note]
  split
  · rename_i hempty
    rw [List.isEmpty_iff.1 hempty, addDependency_nil] at hset
    simp [hset]
  · simp [hanswer, hset]

end Save

section Members
variable {policy : Policy} {cfg : MemorySettings}

theorem calls_saveMember {S : Call → Prop} (item : α)
    (hwrite : S (.writeToken .read ((ItemKeys.of policy.names item).lockKeys .read)))
    (hrelease : ∀ token,
      S (.releaseToken ((ItemKeys.of policy.names item).lockKeys .read) token))
    (hsave : ∀ token, Calls S (saveItem policy item token false [])) :
    Calls S (saveMember policy item) := by
  refine Calls.bind (calls_takeItemLock policy item hwrite (fun _ _ h => by cases h) hrelease)
    fun taken => ?_
  cases taken with
  | error e => trivial
  | ok token =>
    simp only
    split
    · trivial
    · exact Calls.bind (hsave token) fun _ =>
        Calls.bind (calls_releaseItemLock policy .read item token (hrelease token)) fun _ => trivial

theorem calls_saveMembers {S : Call → Prop} (items : List α)
    (h : ∀ item ∈ items, Calls S (saveMember policy item)) :
    Calls S (saveMembers policy items) := by
  induction items with
  | nil => trivial
  | cons item rest ih =>
    have hrest := ih fun other hother => h other (List.mem_cons_of_mem _ hother)
    exact Calls.bind (h item List.mem_cons_self) fun _ => Calls.bind hrest fun _ => trivial

theorem saveMembers_on (items : List α) (m : Memory) :
    ((saveMembers policy items).on cfg m).2 =
      items.foldl (fun m item => ((saveMember policy item).on cfg m).2) m := by
  induction items generalizing m with
  | nil => rfl
  | cons item rest ih => simp [saveMembers, ih]

theorem saveMember_stored (hr : cfg.rules = Rules.standard) {item : α} {m : Memory}
    (h : ((saveMember policy item).on cfg m).1 = true) :
    ∃ token m₁ m₂, (takeItemLock policy .read item).on cfg m = (.ok token, m₁) ∧
      (saveItem policy item token false []).on cfg m₁ = (.stored, m₂) ∧
      ((saveMember policy item).on cfg m).2 =
        ((releaseItemLock policy .read item token).on cfg m₂).2 := by
  unfold saveMember at h ⊢
  rw [on_bind] at h ⊢
  cases htake : (takeItemLock policy .read item).on cfg m with
  | mk taken m₁ =>
    rw [htake] at h
    cases taken with
    | error e => cases h
    | ok token =>
      simp only at h ⊢
      split at h
      · cases h
      rename_i hne
      cases hsave : (saveItem policy item token false []).on cfg m₁ with
      | mk outcome m₂ =>
        simp only [on_bind, on_pure, hsave] at h
        have hstored : outcome = .stored := by
          rcases saveItem_cases hr hsave with ⟨-, rfl | rfl⟩ | ⟨-, -, -, ⟨-, rfl, -⟩ |
            ⟨-, -, -, -, ⟨-, rfl, -⟩ | ⟨-, rfl, -⟩⟩⟩
          · cases h
          · cases h
          · cases h
          · rfl
          · cases h
        subst hstored
        refine ⟨token, m₁, m₂, rfl, hsave, ?_⟩
        simp only [hne, if_false, on_bind, on_pure, hsave]

end Members

end CacheCoherence
