import CacheCoherence.Proofs.ReadAfterWrite.CollectionInvariant

/-!
# Reading a collection back

Reads of a collection are fresh exactly as long as every move is timely. The first move that is not
leaves a stale hit behind. A reader that loads, is overtaken by a whole round of a writer and only
then registers makes such a move: nothing takes the lock of the collection from it in between.
-/
namespace CacheCoherence
open Operation
variable {α β : Type} [Cacheable α] [Cacheable β] {cfg : MemorySettings} {policy : Policy}
  {version : Nat → α} {owner : β} {Member : α → Prop} {list key : Key} {isGlobal : Bool}
  {m m' : Memory} {w w' : World (List α)}

section Stale
variable (roles : CollectionRoles policy.names version owner Member list key isGlobal)
  (hr : cfg.rules = Rules.standard)
include roles hr

theorem content_save_of_failed {n : Nat} {t : Token} {outcome : SaveOutcome}
    (hop : (saveItem policy (version n) t true []).on cfg m = (outcome, m'))
    (hfailed : ¬ (outcome = .stored ∨ outcome = .rolledBack)) :
    m'.content key = m.content key := by
  rcases saveItem_cases hr hop with ⟨rfl, -⟩ | ⟨document, -, -, ⟨hstore, -, rfl⟩ |
    ⟨-, failed, settled, -, ⟨-, rfl, -⟩ | ⟨-, rfl, -⟩⟩⟩
  · rfl
  · have hlive := Memory.live?_setValue_refused cfg (ItemKeys.of policy.names (version n)).cached
      document.compact (Cacheable.ttl α policy.ttls) hr hstore key
    rw [if_neg] at hlive
    · exact Memory.content_of_live? hlive
    · rintro ⟨hkey, -⟩
      refine roles.locks n (ItemKeys.mem_lockKeys_of_cached ?_)
      rw [hkey]
      exact List.mem_cons_self
  · exact absurd (.inl rfl) hfailed
  · exact absurd (.inr rfl) hfailed

theorem CollectionInv.stale_of_untimely (hfaithful : ∀ item, Member item → Faithful item)
    (h : CollectionInv (collectionScenario policy version owner Member key isGlobal) list w)
    {move : Move}
    (hmove : Moves cfg (collectionScenario policy version owner Member key isGlobal) w move w')
    (hlate : ¬ Timely cfg (collectionScenario policy version owner Member key isGlobal) w move) :
    ∃ found, Hits cfg (collectionScenario policy version owner Member key isGlobal) w' found ∧
      ¬ Fresh (collectionScenario policy version owner Member key isGlobal) w' found := by
  cases hmove with
  | @save i n t outcome m clearCollections extra hcommitted hsaves hop =>
    obtain ⟨rfl, rfl⟩ := hsaves
    simp only [Timely, Classical.not_forall, not_or] at hlate
    obtain ⟨t', n', hclient, hfailed, found, hhit, hold⟩ := hlate
    rw [hcommitted] at hclient
    cases hclient
    have houtcome : ((saveItem policy (version n) t true []).on cfg w.memory).1 = outcome :=
      congrArg Prod.fst hop
    have hcontent := content_save_of_failed roles hr hop fun hdone =>
      hdone.elim (fun he => hfailed.1 (houtcome.trans he)) fun he => hfailed.2 (houtcome.trans he)
    refine ⟨found, ?_, ?_⟩
    · obtain ⟨hcached, raw, hraw, hrest⟩ := hits_collection_iff.1 hhit
      exact hits_collection_iff.2 ⟨hcached, raw, hcontent.trans hraw, hrest⟩
    · rintro ⟨n', hlo, hhi, hloads⟩
      exact hold ⟨n', Nat.le_trans (Nat.le_max_right _ _) hlo, hhi, hloads⟩
  | @fill i n t found outcome m hloaded hop =>
    simp only [Timely, Classical.not_forall] at hlate
    obtain ⟨t', found', n', hclient, hstored, hvalid, hold⟩ := hlate
    rw [hloaded] at hclient
    cases hclient
    have hloads := h.clients i
    rw [hloaded] at hloads
    have houtcome : outcome = .stored := (congrArg Prod.fst hop).symm.trans hstored
    obtain ⟨-, ⟨-, hcached, document, hdoc, hcontent⟩ | ⟨hnot, -⟩⟩ :=
      h.reached.filled roles hr hloads.1 hop
    · have hmembers (item : α) (hitem : item ∈ found) : Faithful item :=
        hfaithful item (hloads.1.2.2 item hitem)
      refine ⟨found, ?_, hold⟩
      refine hits_collection_iff.2 ⟨hcached, _, hcontent, isToken_collection hmembers hdoc, ?_⟩
      rw [served_collection hmembers hdoc, if_pos hvalid]
    · exact absurd houtcome hnot
  | _ => exact absurd trivial hlate

end Stale

section Overtaken
variable (policy version owner key isGlobal)

/-- A collection of the item as it was first can be cached, and the lists that it depends on serve
as nothing else. -/
structure CollectionServable : Prop where
  item : Servable policy version
  ownerCached : Cacheable.ttl β policy.ttls ≠ skipTtl
  narrow : (collectionDependencies policy owner [version 0] isGlobal).keys.length ≤
    maxCollectionDependencies
  lists : ∀ n, ∀ l ∈ (collectionDependencies policy owner [version 0] isGlobal).keys,
    l ∉ (ItemKeys.of policy.names (version n)).lockKeys .update ∧
      l ∉ (ItemKeys.of policy.names (version n)).stale []

/-- A reader's lock is under the key, and the lists that its collection is to be registered with
take it. -/
structure Waits (t : Token) (m : Memory) : Prop where
  held : m.content key = some t
  lists : ∀ l ∈ (collectionDependencies policy owner [version 0] isGlobal).keys,
    m.ListsOnly (fun k => k ≠ key) l ∧ m.content l ≠ some Token.tombstone

variable (list)

/-- A call keeps off the key and off every list that it does not add to or clear. -/
structure PassesBy (c : Call) : Prop where
  spares : Spares list key c
  lists : ∀ l ∈ (collectionDependencies policy owner [version 0] isGlobal).keys, l ∉ c.slots
  adds : ∀ lists dependents ttl, c = .addDependency lists dependents ttl → key ∉ dependents
  clears : ∀ k, c ≠ .clearDependencies k true

variable {policy version owner key isGlobal list}
variable (roles : CollectionRoles policy.names version owner Member list key isGlobal)
  (hr : cfg.rules = Rules.standard)
  (hservable : CollectionServable policy version owner isGlobal) {t : Token} {n i : Nat}
include roles

theorem CollectionRoles.key_not_mem_dependencies :
    key ∉ (collectionDependencies policy owner [version 0] isGlobal).keys := by
  intro hmem
  rcases mem_collectionDependencies.1 hmem with ⟨item, hitem, hlist⟩ | ⟨hglobal, hlist⟩
  · refine roles.lists item ?_ hlist
    rw [List.mem_singleton.1 hitem]
    exact roles.member 0
  · exact roles.ownerList hglobal hlist

theorem CollectionRoles.list_mem_dependencies :
    list ∈ (collectionDependencies policy owner [version 0] isGlobal).keys := by
  refine mem_collectionDependencies.2 (.inl ⟨version 0, List.mem_singleton_self _, ?_⟩)
  rw [listKeys, roles.own 0]
  exact List.mem_append_left _ (List.mem_singleton_self list)

include hr in
theorem Waits.perform {c : Call} (hc : PassesBy policy version owner list key isGlobal c)
    (h : Waits policy version owner key isGlobal t m) :
    Waits policy version owner key isGlobal t (m.perform cfg c).memory where
  held := by
    refine (Memory.content_of_live? ?_).trans h.held
    refine Memory.live?_perform_of_not_mem hr hc.spares.keySlot ?_ ?_ hc.spares.flushes
    · exact fun lists dependents ttl hadd => (hc.spares.adds lists dependents ttl hadd).2
    · intro k tombstone hclear hmem
      obtain rfl := hc.spares.clears k tombstone hclear
      rcases (h.lists k roles.list_mem_dependencies).1.of_mem_cleared hmem with hne | hself
      · exact hne rfl
      · exact roles.list_ne_key hself.symm
  lists := by
    intro l hl
    obtain ⟨hlists, htombstone⟩ := h.lists l hl
    refine ⟨hlists.perform hr (hc.lists l hl) fun lists dependents ttl hadd _ => ?_,
      Memory.content_ne_tombstone_perform hr htombstone (hc.lists l hl) hc.clears⟩
    refine ⟨(hc.spares.adds lists dependents ttl hadd).1, ?_⟩
    rintro k hk rfl
    exact hc.adds lists dependents ttl hadd hk

include hservable

theorem passesBy_slots {c : Call} (hc : c.OnSlots)
    (hslots : ∀ k ∈ c.slots, k ∈ (ItemKeys.of policy.names (version n)).lockKeys .update) :
    PassesBy policy version owner list key isGlobal c where
  spares := roles.spares_slots hc hslots
  lists := fun l hl hmem => (hservable.lists n l hl).1 (hslots l hmem)
  adds := fun _ _ _ hadd => absurd hadd (hc.ne.1 _ _ _)
  clears := fun list => hc.ne.2.1 list true

theorem passesBy_settle {c : Call} (hc : Settles policy (version n) true [] c) :
    PassesBy policy version owner list key isGlobal c := by
  refine ⟨roles.spares_settle hservable.item.cached hc, fun l hl hmem => ?_, ?_, ?_⟩
  · cases c with
    | deleteValue ks tombstone force =>
      obtain ⟨-, rfl, -⟩ := hc
      exact (hservable.lists n l hl).2 hmem
    | clearDependencies k tombstone => cases hmem
    | addDependency targets dependents lifetime => cases hmem
    | _ => cases hc
  · rintro targets dependents lifetime rfl hmem
    refine roles.locks n (ItemKeys.mem_lockKeys_of_cached ?_)
    obtain ⟨-, ⟨-, rfl⟩ | ⟨own, -, -, rfl⟩⟩ := hc
    · exact hmem
    · exact List.mem_cons_of_mem _ hmem
  · rintro k rfl
    cases hc.2.2

theorem calls_passBy :
    Calls (PassesBy policy version owner list key isGlobal)
        (takeItemLock policy .update (version n)) ∧
      Calls (PassesBy policy version owner list key isGlobal)
        (saveItem policy (version n) t true []) := by
  have hcached {k : Key} (hk : k ∈ (ItemKeys.of policy.names (version n)).cached) :
      k ∈ (ItemKeys.of policy.names (version n)).lockKeys .update :=
    ItemKeys.mem_lockKeys_of_cached hk
  constructor
  · exact calls_takeItemLock policy (version n)
      (passesBy_slots roles hservable (n := n) trivial fun _ hk => hk) (fun _ _ h => by cases h)
      fun token => passesBy_slots roles hservable (n := n) trivial fun _ hk => hk
  · refine calls_saveItem policy (version n) t true [] (fun value => ?_)
      (fun _ c hc => passesBy_settle roles hservable hc)
      (passesBy_slots roles hservable (n := n) trivial fun k hk => hcached hk)
    refine passesBy_slots roles hservable (n := n) trivial fun k hk => ?_
    rcases List.mem_cons.1 hk with rfl | hk
    · exact hcached List.mem_cons_self
    · exact hcached hk

omit roles hservable in
theorem not_hits_of_waits (h : Waits policy version owner key isGlobal t w.memory)
    (htoken : isToken t = true) (found : List α) :
    ¬ Hits cfg (collectionScenario policy version owner Member key isGlobal) w found := by
  intro hhit
  obtain ⟨-, raw, hraw, hvalue, -⟩ := hits_collection_iff.1 hhit
  rw [h.held] at hraw
  rw [← Option.some.inj hraw, htoken] at hvalue
  cases hvalue

include hr

/-- A writer goes its whole round and returns while a reader waits with its lock. -/
theorem writer_overtakes (h : Waits policy version owner key isGlobal t w.memory)
    (htoken : isToken t = true) (hothers : ∀ k, k ≠ key → w.memory.content k = none)
    (hidle : w.clients i = .idle) :
    ∃ w', Runs cfg (collectionScenario policy version owner Member key isGlobal)
        (Timely cfg (collectionScenario policy version owner Member key isGlobal)) w w' ∧
      Waits policy version owner key isGlobal t w'.memory ∧ w.current < w'.returned ∧
      ∀ j, j ≠ i → w'.clients j = w.clients j := by
  have hgrants : w.memory.Grants .update
      ((ItemKeys.of policy.names (version 0)).lockKeys .update) := by
    refine ⟨fun hnil => ?_, fun k hk => ?_⟩
    · have hmem : Cacheable.primaryKey policy.names (version 0) ∈
          (ItemKeys.of policy.names (version 0)).lockKeys .update :=
        ItemKeys.mem_lockKeys_of_cached List.mem_cons_self
      rw [hnil] at hmem
      cases hmem
    · rw [hothers k fun he => roles.locks 0 (he ▸ hk)]
      rfl
  have hkind : LockKind.update ≠ .delete := by decide
  obtain ⟨u, m₁, hop, hne⟩ : ∃ u m₁,
      (takeItemLock policy .update (version 0)).on cfg w.memory = (.ok u, m₁) ∧
        u ≠ Token.noLock := by
    rcases takeItemLock_cases cfg policy w.memory hr hkind (version 0) with ⟨-, hop⟩ | ⟨hno, -⟩
    · exact ⟨_, _, hop, Token.issue_ne_noLock _ _⟩
    · exact absurd hgrants hno
  have hwaits₁ := (calls_passBy roles hservable (t := t) (n := 0)).1.preserves cfg
    (fun c m hc hm => Waits.perform roles hr hc hm) h
  rw [hop] at hwaits₁
  have hclaim : Moves cfg (collectionScenario policy version owner Member key isGlobal) w
      (.claim i) _ := .claim 0 hidle hop
  rw [if_neg hne] at hclaim
  have hcommit : Moves cfg (collectionScenario policy version owner Member key isGlobal)
      (w.put m₁ i (.claimed u)) (.commit i) _ := .commit (if_pos rfl)
  have hwaits₂ := (calls_passBy roles hservable (t := u) (n := w.current + 1)).2.preserves cfg
    (fun c m hc hm => Waits.perform roles hr hc hm) hwaits₁
  have hsave : Moves cfg (collectionScenario policy version owner Member key isGlobal)
      { (w.put m₁ i (.claimed u)).put m₁ i (.committed u (w.current + 1)) with
        current := w.current + 1 } (.save i) _ := .save true [] (if_pos rfl) ⟨rfl, rfl⟩ rfl
  have htimely : Timely cfg (collectionScenario policy version owner Member key isGlobal)
      { (w.put m₁ i (.claimed u)).put m₁ i (.committed u (w.current + 1)) with
        current := w.current + 1 } (.save i) :=
    fun _ _ _ => .inr fun found hhit => absurd hhit (not_hits_of_waits hwaits₁ htoken found)
  have hclaimed : Runs cfg (collectionScenario policy version owner Member key isGlobal)
      (Timely cfg (collectionScenario policy version owner Member key isGlobal)) w
      (w.put m₁ i (.claimed u)) :=
    .tail .refl (show Timely cfg _ w (.claim i) from trivial) hclaim
  refine ⟨_, .tail (.tail hclaimed (show Timely cfg _ _ (.commit i) from trivial) hcommit) htimely
    hsave, hwaits₂, ?_, fun j hj => ?_⟩
  · exact Nat.lt_of_lt_of_le (Nat.lt_succ_self _) (Nat.le_max_right _ _)
  · change (if j = i then _ else if j = i then _ else if j = i then _ else w.clients j) =
      w.clients j
    rw [if_neg hj, if_neg hj, if_neg hj]

/-- A reader that waits with its lock may store whatever it loaded. -/
theorem stored_of_waits {k : Nat}
    (h : Waits policy version owner key isGlobal (Token.issue LockKind.read.name k) m) :
    ((saveCollection policy owner [version 0] key key (Token.issue LockKind.read.name k)
      isGlobal).on cfg m).1 = .stored := by
  obtain ⟨document, hdoc⟩ := hservable.item.document 0
  have hcollection : collectionJson? [version 0] = some (.array [document]) := by
    simp [collectionJson?, hdoc]
  have hanswer := Memory.addDependency_answer_ok h.lists [key] (Cacheable.ttl β policy.ttls)
  have hkept := Memory.live?_addDependency_of_not_mem m
    (collectionDependencies policy owner [version 0] isGlobal).keys [key]
    (Cacheable.ttl β policy.ttls) roles.key_not_mem_dependencies
  refine saveCollection_on_stored hr hservable.ownerCached hservable.item.cached
    hservable.narrow hcollection hanswer ⟨Token.issue_ne_noLock _ _, ?_, ?_⟩
  · exact (Memory.content_of_live? hkept).trans h.held
  · rw [Content.ofText_issue_lock]
    exact fun he => by cases he

/-- A run with a fill that is not timely: a reader takes its lock and loads, a writer goes its whole
round, and the reader stores what it loaded. -/
theorem untimely_reachable :
    ∃ w move w', Runs cfg (collectionScenario policy version owner Member key isGlobal)
        (Timely cfg (collectionScenario policy version owner Member key isGlobal)) {} w ∧
      Moves cfg (collectionScenario policy version owner Member key isGlobal) w move w' ∧
      ¬ Timely cfg (collectionScenario policy version owner Member key isGlobal) w move := by
  have hlock : Token.issue LockKind.read.name 0 ≠ Token.noLock := Token.issue_ne_noLock _ _
  have hskips : skips policy α = false := decide_eq_false hservable.item.cached
  have hop : (getCollection policy key true : Operation (Found (List α))).on cfg {} =
      (.miss (Token.issue LockKind.read.name 0), (({} : Memory).lookup cfg key true).2) := by
    rw [getCollection, hskips, if_neg Bool.false_ne_true,
      fetch_on_empty cfg servableItems {} key rfl]
  have hlive := Memory.live?_lookup cfg {} key true
  have hothers (k : Key) (hk : k ≠ key) :
      (({} : Memory).lookup cfg key true).2.live? k = none := by
    rw [hlive, if_neg fun h => hk h.1]
    rfl
  have hwaits : Waits policy version owner key isGlobal (Token.issue LockKind.read.name 0)
      (({} : Memory).lookup cfg key true).2 := by
    constructor
    · have hkey := hlive key
      rw [if_pos ⟨rfl, rfl, rfl⟩] at hkey
      exact Memory.content_of_live?_lasting hkey
    · intro l hl
      have hempty := hothers l fun he => roles.key_not_mem_dependencies (he ▸ hl)
      refine ⟨fun slot hslot => ?_, ?_⟩
      · rw [hempty] at hslot
        cases hslot
      · rw [(Memory.live?_eq_none_iff _ _).1 hempty]
        exact fun he => by cases he
  have hread : Moves cfg (collectionScenario policy version owner Member key isGlobal) {}
      (.read 0) _ := .read rfl hop
  simp only [Found.miss, hlock, if_false] at hread
  have hloads : (collectionScenario policy version owner Member key isGlobal).loads 0
      [version 0] := by
    refine ⟨List.mem_singleton_self _, fun n' hn' => List.mem_singleton.1 hn', fun item hitem => ?_⟩
    rw [List.mem_singleton.1 hitem]
    exact roles.member 0
  have hload : Moves cfg (collectionScenario policy version owner Member key isGlobal)
      (({} : World (List α)).put (({} : Memory).lookup cfg key true).2 0
        (.missed (Token.issue LockKind.read.name 0))) (.load 0) _ :=
    .load [version 0] rfl hloads
  have hentered : Runs cfg (collectionScenario policy version owner Member key isGlobal)
      (Timely cfg (collectionScenario policy version owner Member key isGlobal)) {}
      (({} : World (List α)).put (({} : Memory).lookup cfg key true).2 0
        (.missed (Token.issue LockKind.read.name 0))) :=
    .tail .refl (show Timely cfg _ _ (.read 0) from trivial) hread
  have hloaded := Runs.tail hentered (show Timely cfg _ _ (.load 0) from trivial) hload
  obtain ⟨w', hround, hwaits', hreturned, hclients⟩ := writer_overtakes roles hr hservable
    (w := (({} : World (List α)).put (({} : Memory).lookup cfg key true).2 0
      (.missed (Token.issue LockKind.read.name 0))).put (({} : Memory).lookup cfg key true).2 0
      (.loaded (Token.issue LockKind.read.name 0) [version 0] 0)) (i := 1) hwaits
    (Content.isToken_issue_lock _ _) (fun k hk => (Memory.live?_eq_none_iff _ _).1 (hothers k hk))
    rfl
  have hreader : w'.clients 0 = .loaded (Token.issue LockKind.read.name 0) [version 0] 0 :=
    hclients 0 (by decide)
  have hfill : Moves cfg (collectionScenario policy version owner Member key isGlobal) w'
      (.fill 0) _ := .fill hreader rfl
  refine ⟨w', _, _, hloaded.trans hround, hfill, fun htimely => ?_⟩
  have hvalid : [version 0].all Cacheable.isValid = true := by
    simp [hservable.item.valid 0]
  obtain ⟨n', hlo, -, hmem, -⟩ := htimely _ _ _ hreader
    (stored_of_waits roles hr hservable hwaits') hvalid
  have hsame := hservable.item.distinct n' 0 (List.mem_singleton.1 hmem)
  have hlt : 0 < w'.returned := hreturned
  omega

end Overtaken

variable (cfg) in
/-- Hits on a collection are fresh in every run of timely moves, and a move of such a run that is
not timely leaves a stale hit behind. For every item that may be served there is a run with such a
move. -/
theorem collection_reads_fresh_iff_timely
    (roles : CollectionRoles policy.names version owner Member list key isGlobal)
    (hr : cfg.rules = Rules.standard) (hfaithful : ∀ item, Member item → Faithful item) :
    (∀ w, Runs cfg (collectionScenario policy version owner Member key isGlobal)
        (Timely cfg (collectionScenario policy version owner Member key isGlobal)) {} w →
      ∀ found, Hits cfg (collectionScenario policy version owner Member key isGlobal) w found →
        Fresh (collectionScenario policy version owner Member key isGlobal) w found) ∧
    (∀ w move w', Runs cfg (collectionScenario policy version owner Member key isGlobal)
        (Timely cfg (collectionScenario policy version owner Member key isGlobal)) {} w →
      Moves cfg (collectionScenario policy version owner Member key isGlobal) w move w' →
      ¬ Timely cfg (collectionScenario policy version owner Member key isGlobal) w move →
      ∃ found, Hits cfg (collectionScenario policy version owner Member key isGlobal) w' found ∧
        ¬ Fresh (collectionScenario policy version owner Member key isGlobal) w' found) ∧
    (CollectionServable policy version owner isGlobal →
      ∃ w move w', Runs cfg (collectionScenario policy version owner Member key isGlobal)
          (Timely cfg (collectionScenario policy version owner Member key isGlobal)) {} w ∧
        Moves cfg (collectionScenario policy version owner Member key isGlobal) w move w' ∧
        ¬ Timely cfg (collectionScenario policy version owner Member key isGlobal) w move) := by
  refine ⟨fun w hrun found hhit => ?_, fun w move w' hrun hmove hlate => ?_, fun hservable => ?_⟩
  · exact (CollectionInv.run roles hr hfaithful hrun).hit hhit
  · exact (CollectionInv.run roles hr hfaithful hrun).stale_of_untimely roles hr hfaithful hmove
      hlate
  · exact untimely_reachable roles hr hservable

section Example
open Catalogue

def nodeOwner : Node where
  key := "o"
  secondary := []
  global := none
  collection := some "c"
  deps := none
  dependsOn := []
  modified := none
  invalid := false

theorem nodeVersion_collectionRoles :
    CollectionRoles lasting.names nodeVersion nodeOwner
      (fun node => "c" ∉ listKeys lasting.names node) "d" "c" false where
  member := by
    intro n hmem
    rcases List.mem_cons.1 hmem with h | h
    · exact absurd h (by decide)
    · exact absurd (List.eq_of_mem_replicate h) (by decide)
  own := fun n => rfl
  locks := fun n => (by decide : "c" ∉ ["k"])
  stale := fun n => List.not_mem_nil
  lists := fun item h => h
  ownerList := fun _ => (by decide : (none : Option Key) ≠ some "c")
  listLocks := fun n => (by decide : "d" ∉ ["k"])
  listStale := fun n => List.not_mem_nil
  listOwner := (by decide : some "c" ≠ some "d")

theorem nodeVersion_collectionServable :
    CollectionServable lasting nodeVersion nodeOwner false where
  item := nodeVersion_servable
  ownerCached := by decide
  narrow := by decide
  lists := by
    intro n l hl
    have hkeys : (collectionDependencies lasting nodeOwner [nodeVersion 0] false).keys = ["d"] := by
      decide
    rw [hkeys] at hl
    rw [List.mem_singleton.1 hl]
    exact ⟨(by decide : "d" ∉ ["k"]), List.not_mem_nil⟩

/-- A collection of the node is read back stale when its reader is overtaken. -/
theorem collection_reads_stale_of_node :
    ∃ w, Runs {} (collectionScenario lasting nodeVersion nodeOwner
        (fun node => "c" ∉ listKeys lasting.names node) "c" false) (fun _ _ => True) {} w ∧
      ∃ found, Hits {} (collectionScenario lasting nodeVersion nodeOwner
          (fun node => "c" ∉ listKeys lasting.names node) "c" false) w found ∧
        ¬ Fresh (collectionScenario lasting nodeVersion nodeOwner
          (fun node => "c" ∉ listKeys lasting.names node) "c" false) w found := by
  obtain ⟨-, hlate, hreachable⟩ := collection_reads_fresh_iff_timely {} nodeVersion_collectionRoles
    rfl fun node _ => node.faithful
  obtain ⟨w, move, w', hrun, hmove, huntimely⟩ := hreachable nodeVersion_collectionServable
  exact ⟨w', .tail (hrun.mono fun _ _ _ => trivial) trivial hmove,
    hlate w move w' hrun hmove huntimely⟩

end Example

end CacheCoherence
