import CacheCoherence.Proofs.Library.Calls

/-!
# No value escapes its dependency lists

A save that ends stored has registered what it wrote with every list that it depends on. From then
on each of these lists covers the value, until the value is gone: no operation shortens a list or
its life without taking the value away.
-/
namespace CacheCoherence
open Operation
variable {cfg : MemorySettings} {policy : Policy} {isList : Key → Prop} {m m' : Memory}
  {list k : Key} {slot : Slot} {lists : List Key}

section Roles
variable (hr : cfg.rules = Rules.standard)
include hr

theorem Memory.Roles.on {root : String} {γ : Type} {op : Operation γ}
    (hop : Calls (Call.Respects isList root) op) (h : m.Roles isList) :
    (op.on cfg m).2.Roles isList :=
  hop.preserves cfg (fun _ _ hc hm => hm.perform hr hc) h

theorem Memory.Roles.serve_of_separates {e : LibraryStep}
    (he : ∀ c, e = .call c → c.Separates policy isList) (h : m.Roles isList) :
    (m.serve cfg policy e).Roles isList := by
  cases e with
  | call c =>
    exact h.on hr ((LibraryCall.calls_of_separates (he c rfl) fun _ _ => rfl).mono fun q hq => hq.1)
  | elapse duration =>
    intro list hlist slot hslot
    exact h list hlist slot (Memory.live?_of_live?_advance hslot)

theorem Memory.Roles.served_of_separates {steps : List LibraryStep}
    (hsteps : ∀ c, .call c ∈ steps → c.Separates policy isList) (h : m.Roles isList) :
    (m.served cfg policy steps).Roles isList := by
  induction steps generalizing m with
  | nil => exact h
  | cons e rest ih =>
    refine ih (fun c hc => hsteps c (List.mem_cons_of_mem _ hc)) (h.serve_of_separates hr ?_)
    rintro c rfl
    exact hsteps c List.mem_cons_self

theorem Memory.Roles.serve {e : LibraryStep} (he : ∀ c, e = .call c → c.Respects policy isList)
    (h : m.Roles isList) : (m.serve cfg policy e).Roles isList :=
  h.serve_of_separates hr fun c hc => (he c hc).separates

theorem Memory.Roles.served {steps : List LibraryStep}
    (hsteps : ∀ c, .call c ∈ steps → c.Respects policy isList) (h : m.Roles isList) :
    (m.served cfg policy steps).Roles isList :=
  h.served_of_separates hr fun c hc => (hsteps c hc).separates

end Roles

section Kept
variable (hr : cfg.rules = Rules.standard) (hroles : m.Roles isList) (hlist : isList list)
include hr hroles hlist

/-- An operation that clears and flushes nothing ends no cover. -/
theorem Memory.Covers.on {root : String} {γ : Type} {op : Operation γ}
    (hop : Calls (fun q => q.Respects isList root ∧ ¬ q.Sweeps) op) (h : m.Covers list k slot) :
    (op.on cfg m).2.Covers list k slot := by
  refine (hop.preserves cfg
    (P := fun m => m.Roles isList ∧ m.Covers list k slot) ?_ ⟨hroles, h⟩).2
  rintro q m₁ ⟨hq, hsweep⟩ ⟨hroles₁, hcovers⟩
  exact ⟨hroles₁.perform hr hq, hcovers.perform hr hq hroles₁ hlist hsweep⟩

variable (hkey : ¬ isList k) {root : String} (hk : isUnder root k = true)
include hkey hk

/-- An operation that writes no value ends a cover only with the value. -/
theorem Memory.Covers.on_or_valueless {γ : Type} {op : Operation γ}
    (hop : Calls (fun q => q.Respects isList root ∧ ¬ q.Stores) op)
    (h : m.Covers list k slot ∨ m.Valueless k) :
    (op.on cfg m).2.Covers list k slot ∨ (op.on cfg m).2.Valueless k := by
  refine (hop.preserves cfg
    (P := fun m => m.Roles isList ∧ (m.Covers list k slot ∨ m.Valueless k)) ?_ ⟨hroles, h⟩).2
  rintro q m₁ ⟨hq, hstore⟩ ⟨hroles₁, hcovers⟩
  exact ⟨hroles₁.perform hr hq,
    Memory.Covers.perform_or_valueless hr hq hroles₁ hlist hk hstore hkey hcovers⟩

end Kept

theorem Memory.unwritten_on (hr : cfg.rules = Rules.standard) {root : String} {γ : Type}
    {op : Operation γ} (hop : Calls (fun q => q.Respects isList root ∧ ¬ q.Stores) op)
    (hkey : ¬ isList k) : m.Unwritten (op.on cfg m).2 k := by
  refine hop.preserves cfg (P := fun m' => m.Unwritten m' k) ?_ (.inl rfl)
  rintro q m₁ ⟨hq, hstore⟩ hunwritten
  refine hunwritten.trans (unwritten_perform hr hstore fun lists dependents ttl hadd hmem => ?_)
  exact hkey ((hq.adds lists dependents ttl hadd).2.1 k hmem)

section SaveItem
variable {α : Type} [Cacheable α] {item : α} {token : Token} {clearCollections : Bool}
  {extra : List Key} {outcome : SaveOutcome}
  (hr : cfg.rules = Rules.standard) (hroles : m.Roles isList)
  (hlists : ∀ k ∈ listKeys policy.names item, isList k)
  (hslots : ∀ k ∈ (ItemKeys.of policy.names item).deleted, ¬ isList k)
  (hextra : ∀ k ∈ extra, ¬ isList k)
include hlists hslots hextra

variable (clearCollections) in
theorem calls_settleItem_respects (httl : Cacheable.ttl α policy.ttls ≠ skipTtl) (root : String) :
    Calls (fun q => q.Respects isList root ∧ ¬ q.Stores)
      (settleItem policy item clearCollections extra) :=
  (calls_settleItem policy item clearCollections extra).mono fun _ hq =>
    respects_settle hlists hslots httl hextra hq

include hr hroles

/-- A save of an item writes before it clears anything, so it ends a cover only with the value. -/
theorem Memory.Covers.saveItem {root : String} (hlist : isList list) (hkey : ¬ isList k)
    (hk : isUnder root k = true)
    (hop : (saveItem policy item token clearCollections extra).on cfg m = (outcome, m'))
    (h : m.Covers list k slot) : m'.Covers list k slot ∨ m'.Valueless k := by
  rcases saveItem_cases hr hop with ⟨rfl, -⟩ | ⟨document, -, httl, hcases⟩
  · exact .inl h
  have hwrite : (Call.setValue (ItemKeys.of policy.names item).primary
      (ItemKeys.of policy.names item).cached document.compact token
      (Cacheable.ttl α policy.ttls)).Respects isList root :=
    respects_write hslots _ _ _
  have hroles₁ : (m.setValue cfg (ItemKeys.of policy.names item).primary
      (ItemKeys.of policy.names item).cached document.compact token
      (Cacheable.ttl α policy.ttls)).memory.Roles isList := hroles.perform hr hwrite
  have hcovers₁ : (m.setValue cfg (ItemKeys.of policy.names item).primary
      (ItemKeys.of policy.names item).cached document.compact token
      (Cacheable.ttl α policy.ttls)).memory.Covers list k slot :=
    h.perform hr hwrite hroles hlist fun hs => hs
  generalize (m.setValue cfg (ItemKeys.of policy.names item).primary
    (ItemKeys.of policy.names item).cached document.compact token
    (Cacheable.ttl α policy.ttls)).memory = m₁ at *
  rcases hcases with ⟨-, -, rfl⟩ | ⟨-, failed, settled, hsettle, hend⟩
  · exact .inl hcovers₁
  have hcalls := calls_settleItem_respects clearCollections hlists hslots hextra httl root
  have hsettled := Memory.Covers.on_or_valueless hr hroles₁ hlist hkey hk hcalls (.inl hcovers₁)
  have hroles₂ := hroles₁.on hr (hcalls.mono fun q hq => hq.1)
  rw [hsettle] at hsettled hroles₂
  rcases hend with ⟨-, -, rfl⟩ | ⟨-, -, rfl⟩
  · exact hsettled
  · exact Memory.Covers.perform_or_valueless hr (respects_remove hslots) hroles₂ hlist hk
      (fun hs => hs) hkey hsettled

omit hextra in
/-- The registration that settles an item comes last, and reaches every list of the item. -/
theorem covers_of_registerItem (httl : Cacheable.ttl α policy.ttls ≠ skipTtl)
    (hop : (registerItem policy item (ItemKeys.of policy.names item)
      (Cacheable.ttl α policy.ttls)).on cfg m = (false, m'))
    (hk : k ∈ (ItemKeys.of policy.names item).cached) (text : String)
    (hlist : list ∈ Cacheable.dependencyKeys policy.names item) :
    m'.Covers list k (.lasting m.now text (Cacheable.ttl α policy.ttls)) := by
  have hisList : isList list := hlists list (List.mem_append_right _ hlist)
  rw [registerItem_on] at hop
  obtain ⟨hregistered, rfl⟩ := Prod.mk.inj hop
  cases hanswer : (m.addDependency (Cacheable.dependencyKeys policy.names item)
      (ItemKeys.of policy.names item).cached (Cacheable.ttl α policy.ttls)).answer with
  | error fault =>
    rw [hanswer] at hregistered
    cases hregistered
  | ok u =>
    have hcovers := (hroles list hisList).covers_of_added httl hanswer hlist hk text
    have hadds : (Call.addDependency (Cacheable.dependencyKeys policy.names item)
        (ItemKeys.of policy.names item).cached (Cacheable.ttl α policy.ttls)).Respects isList
        policy.names.root :=
      Call.respects_addDependency httl (fun d hd => hlists d (List.mem_append_right _ hd))
        fun d hd => hslots d (ItemKeys.mem_deleted_of_cached hd)
    have hroles₁ := hroles.perform hr hadds
    split
    · exact hcovers
    · split
      · exact hcovers
      · exact hcovers.addDependency (hroles₁ list hisList) _ _ httl

/-- What a save of an item that ends stored leaves under a key of the item is the item's document.
The registration comes last, when the item's own list, if it was cleared or held no tombstone to
begin with, holds none. -/
theorem registration_of_saveItem
    (hop : (saveItem policy item token clearCollections extra).on cfg m = (.stored, m'))
    (hk : k ∈ (ItemKeys.of policy.names item).cached) (hlive : m'.live? k = some slot)
    (hvalue : isToken slot.text = false) :
    ∃ document m₁, Cacheable.toJson? item = some document ∧
      Cacheable.ttl α policy.ttls ≠ skipTtl ∧
      slot = .lasting m₁.now document.compact (Cacheable.ttl α policy.ttls) ∧ m₁.Roles isList ∧
      (∀ own, Cacheable.dependenciesKey? policy.names item = some own →
        clearCollections = true ∨ m.content own ≠ some Token.tombstone →
        m₁.content own ≠ some Token.tombstone) ∧
      (registerItem policy item (ItemKeys.of policy.names item)
        (Cacheable.ttl α policy.ttls)).on cfg m₁ = (false, m') := by
  obtain ⟨document, m₁, hdoc, httl, hm₁, hwritten, hsettle⟩ := saveItem_stored hop
  have hkey : ¬ isList k := hslots k (ItemKeys.mem_deleted_of_cached hk)
  have hwrite : (Call.setValue (ItemKeys.of policy.names item).primary
      (ItemKeys.of policy.names item).cached document.compact token
      (Cacheable.ttl α policy.ttls)).Respects isList policy.names.root :=
    respects_write hslots _ _ _
  have hroles₁ : m₁.Roles isList := hm₁ ▸ hroles.perform hr hwrite
  have hnow₁ : m₁.now = m.now := hm₁ ▸ (Memory.perform_rest cfg m hr _).1
  -- Settling writes no value, so what is left under the key is what was written.
  have hslot : slot = .lasting m.now document.compact (Cacheable.ttl α policy.ttls) := by
    have hunwritten := Memory.unwritten_on (m := m₁) hr
      (calls_settleItem_respects clearCollections hlists hslots hextra httl policy.names.root) hkey
    rw [hsettle] at hunwritten
    have hbefore := Memory.live?_of_unwritten hunwritten hlive hvalue
    rw [hwritten k hk] at hbefore
    exact (Option.some.inj hbefore).symm
  have hinvalidate : Calls (Call.Respects isList policy.names.root)
      (if clearCollections then invalidateCollections (ItemKeys.of policy.names item) extra
        else pure false) := by
    split
    · exact (calls_invalidateCollections policy item extra).mono fun q hq =>
        (respects_settle hlists hslots httl hextra hq).1
    · trivial
  have hnow₂ := (Operation.on_rest cfg hr (if clearCollections then
    invalidateCollections (ItemKeys.of policy.names item) extra else pure false) m₁).1
  refine ⟨document, _, hdoc, httl, ?_, hroles₁.on hr hinvalidate, ?_,
    registerItem_of_settled hsettle⟩
  · rw [hslot, hnow₂, hnow₁]
  · intro own hown hopen
    have hisList : isList own := hlists own (List.mem_append_left _ (Option.mem_toList.2 hown))
    cases clearCollections with
    | true =>
      have hkeys : (ItemKeys.of policy.names item).dependencies = some own := hown
      rw [if_pos rfl, invalidateCollections_on cfg m₁ _ extra hkeys]
      intro htombstone
      have hgone := Memory.live?_clearDependencies cfg (m₁.deleteValue cfg
        ((ItemKeys.of policy.names item).stale extra) false true).memory own false own
      rw [if_pos ((Memory.mem_cleared_iff _ _ _).2 (.inr rfl))] at hgone
      rw [(Memory.live?_eq_none_iff _ _).1 hgone] at htombstone
      cases htombstone
    | false =>
      rcases hopen with hclear | hopen
      · cases hclear
      · rw [hm₁]
        refine Memory.content_ne_tombstone_perform hr hopen (fun hmem => ?_) fun key hkey => ?_
        · exact hwrite.slots own hmem hisList
        · cases hkey

/-- A save of an item that ends stored has every list of the item cover what it wrote. -/
theorem covers_of_saveItem
    (hop : (saveItem policy item token clearCollections extra).on cfg m = (.stored, m'))
    (hk : k ∈ (ItemKeys.of policy.names item).cached) (hlive : m'.live? k = some slot)
    (hvalue : isToken slot.text = false)
    (hlist : list ∈ Cacheable.dependencyKeys policy.names item) : m'.Covers list k slot := by
  obtain ⟨document, m₁, -, httl, rfl, hroles₁, -, hregister⟩ :=
    registration_of_saveItem hr hroles hlists hslots hextra hop hk hlive hvalue
  exact covers_of_registerItem hr hroles₁ hlists hslots httl hregister hk document.compact hlist

omit hextra in
theorem covers_of_saveMember (hstored : ((saveMember policy item).on cfg m).1 = true)
    (hk : k ∈ (ItemKeys.of policy.names item).cached)
    (hlive : ((saveMember policy item).on cfg m).2.live? k = some slot)
    (hvalue : isToken slot.text = false)
    (hlist : list ∈ Cacheable.dependencyKeys policy.names item) :
    ((saveMember policy item).on cfg m).2.Covers list k slot := by
  have hkey : ¬ isList k := hslots k (ItemKeys.mem_deleted_of_cached hk)
  have hisList : isList list := hlists list (List.mem_append_right _ hlist)
  have hextra (k : Key) (hk : k ∈ []) : ¬ isList k := by cases hk
  have hkeys : (Call.writeToken .read ((ItemKeys.of policy.names item).lockKeys .read)).Respects
        isList policy.names.root ∧
      ∀ token, (Call.releaseToken ((ItemKeys.of policy.names item).lockKeys .read) token).Respects
        isList policy.names.root := respects_lockKeys hslots
  obtain ⟨token, m₁, m₂, htake, hsave, hend⟩ := saveMember_stored hr hstored
  rw [hend] at hlive ⊢
  have hroles₁ : m₁.Roles isList := by
    have hroles₁ := hroles.on hr
      (calls_takeItemLock policy item hkeys.1 (fun _ _ hdelete => by cases hdelete) hkeys.2)
    rwa [htake] at hroles₁
  have hroles₂ : m₂.Roles isList := by
    have hcalls : Calls (Call.Respects isList policy.names.root)
        (saveItem policy item token false []) :=
      calls_saveItem policy item token false [] (fun value => respects_write hslots value token _)
        (fun httl q hq => (respects_settle hlists hslots httl hextra hq).1) (respects_remove hslots)
    have hroles₂ := hroles₁.on hr hcalls
    rwa [hsave] at hroles₂
  have hlive₂ : m₂.live? k = some slot :=
    Memory.live?_of_unwritten (Memory.unwritten_on hr (calls_releaseItemLock policy .read item token
      ⟨hkeys.2 token, fun hs => hs⟩) hkey) hlive hvalue
  exact (covers_of_saveItem hr hroles₁ hlists hslots hextra hsave hk hlive₂ hvalue hlist).on hr
    hroles₂ hisList (calls_releaseItemLock policy .read item token
      ⟨hkeys.2 token, fun hs => hs⟩)

end SaveItem

section SaveCollection
variable {α β : Type} [Cacheable α] [Cacheable β] {owner : β} {items : List α}
  {lockKey collectionKey : Key} {token : Token} {isGlobal : Bool}

/-- A save of a collection registers before it writes, and time stands still in between. So a save
that ends stored has every list cover the collection. -/
theorem covers_of_saveCollection (hr : cfg.rules = Rules.standard) (hroles : m.Roles isList)
    (hlists : ∀ k ∈ (collectionDependencies policy owner items isGlobal).keys, isList k)
    (hslots : ∀ k ∈ [lockKey, collectionKey], ¬ isList k)
    (hop : (saveCollection policy owner items lockKey collectionKey token isGlobal).on cfg m =
      (.stored, m'))
    (hlive : m'.live? collectionKey = some slot)
    (hlist : list ∈ (collectionDependencies policy owner items isGlobal).keys) :
    m'.Covers list collectionKey slot := by
  rcases saveCollection_cases hr hop with ⟨-, hnot⟩ |
    ⟨document, registered, -, httl, -, hregistered, hanswer, rfl, houtcome⟩
  · rcases hnot with hnot | hnot <;> cases hnot
  subst hregistered
  have hstore : (m.addDependency (collectionDependencies policy owner items isGlobal).keys
      [collectionKey] (Cacheable.ttl β policy.ttls)).memory.MayStore lockKey token := by
    split at houtcome
    · assumption
    · cases houtcome
  have hadds : (Call.addDependency (collectionDependencies policy owner items isGlobal).keys
      [collectionKey] (Cacheable.ttl β policy.ttls)).Respects isList policy.names.root :=
    Call.respects_addDependency httl hlists fun k hk => hslots k (List.mem_cons_of_mem _ hk)
  have hwrite : (Call.setValue lockKey [collectionKey] document.compact token
      (Cacheable.ttl β policy.ttls)).Respects isList policy.names.root :=
    Call.OnSlots.respects trivial hslots
  have hnow := (Memory.perform_rest cfg m hr (.addDependency
    (collectionDependencies policy owner items isGlobal).keys [collectionKey]
    (Cacheable.ttl β policy.ttls))).1
  have hwritten := Memory.live?_setValue_stored cfg [collectionKey] document.compact
    (Cacheable.ttl β policy.ttls) hr hstore collectionKey
  rw [if_pos List.mem_cons_self, hlive] at hwritten
  have hslot : slot = .lasting m.now document.compact (Cacheable.ttl β policy.ttls) :=
    (Option.some.inj hwritten).trans (congrArg (Slot.lasting · _ _) hnow)
  rw [hslot]
  exact ((hroles list (hlists list hlist)).covers_of_added httl hanswer hlist List.mem_cons_self
    document.compact).perform hr hwrite (hroles.perform hr hadds) (hlists list hlist) fun hs => hs

end SaveCollection

end CacheCoherence
