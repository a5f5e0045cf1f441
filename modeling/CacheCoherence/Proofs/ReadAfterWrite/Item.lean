import CacheCoherence.Proofs.ReadAfterWrite.ItemInvariant

/-!
# Reading an item back

Reads of an item are fresh as long as every conflict marker stays until no writer is about to
commit. Where a marker is taken away before, a reader is let in that loads too early: the writer
commits behind its back and returns, and what the reader loaded is handed out afterwards. A store
that lost its lock takes any marker away, so that this happens to every item that can be cached.
-/
namespace CacheCoherence
open Operation
variable {α : Type} [Cacheable α]
variable {cfg : MemorySettings} {policy : Policy} {version : Nat → α} {key : Key} {m m' : Memory}

section StaleRead
variable {w w' : World α} (roles : ItemRoles policy.names version key)
  (hr : cfg.rules = Rules.standard) (hfaithful : ∀ n, Faithful (version n))
  (hservable : Servable policy version) {i n : Nat} {t : Token}
include roles hr hservable

/-- A save at a conflict marker empties the key. -/
theorem content_save_of_marker {clearCollections : Bool} {extra : List Key}
    {outcome : SaveOutcome} (hne : t ≠ Token.noLock) (ht : Content.ofSlot (some t) ≠ .conflict)
    (hmarker : Content.ofSlot (m.content key) = .conflict)
    (hop : (saveItem policy (version n) t clearCollections extra).on cfg m = (outcome, m')) :
    m'.content key = none := by
  obtain ⟨document, hdoc⟩ := hservable.document n
  have hprimary : (ItemKeys.of policy.names (version n)).primary = key := roles.primary n
  have hskip : ¬ (Cacheable.ttl α policy.ttls = skipTtl ∨ t = Token.noLock) := by
    rintro (h | h)
    · exact hservable.cached h
    · exact hne h
  have hrefused : ¬ m.MayStore key t := by
    rintro ⟨-, hheld, -⟩
    rw [hheld] at hmarker
    exact ht hmarker
  rw [saveItem_on_refused cfg policy m (version n) clearCollections extra hskip hdoc hr
    (hprimary ▸ hrefused), hprimary] at hop
  obtain ⟨-, rfl⟩ := Prod.mk.inj hop
  have hlive := Memory.live?_setValue_refused cfg (ItemKeys.of policy.names (version n)).cached
    document.compact (Cacheable.ttl α policy.ttls) hr hrefused key
  rw [if_pos ⟨rfl, hne, .inr hmarker⟩] at hlive
  exact (Memory.live?_eq_none_iff _ _).1 hlive

omit roles hr hservable in
variable (cfg) in
theorem registered_of_sound (hlists : ListsSound policy version key m) :
    ((settleItem policy (version n) false []).on cfg m).1 = false := by
  have hanswer : (m.addDependency (Cacheable.dependencyKeys policy.names (version n))
      (ItemKeys.of policy.names (version n)).cached (Cacheable.ttl α policy.ttls)).answer =
        .ok () := by
    refine Memory.addDependency_answer_ok (P := fun _ => True) (fun list hlist => ?_) _ _
    obtain ⟨hsound, htombstone⟩ := hlists n list (List.mem_append_right _ hlist)
    exact ⟨hsound.mono fun _ _ => trivial, htombstone⟩
  simp [settleItem, registerItem_on, hanswer, Except.isOk, Except.toBool]

theorem content_fill_of_held {k : Nat} (hlists : ListsSound policy version key m)
    (hheld : m.content key = some (Token.issue LockKind.read.name k)) :
    ∃ document, Cacheable.toJson? (version n) = some document ∧
      ((saveItem policy (version n) (Token.issue LockKind.read.name k) false []).on cfg
        m).2.content key = some document.compact := by
  obtain ⟨document, hdoc⟩ := hservable.document n
  have hprimary : (ItemKeys.of policy.names (version n)).primary = key := roles.primary n
  have hne : Token.issue LockKind.read.name k ≠ Token.noLock := Token.issue_ne_noLock _ _
  have hskip : ¬ (Cacheable.ttl α policy.ttls = skipTtl ∨
      Token.issue LockKind.read.name k = Token.noLock) := by
    rintro (h | h)
    · exact hservable.cached h
    · exact hne h
  have hstore : m.MayStore key (Token.issue LockKind.read.name k) := by
    refine ⟨hne, hheld, ?_⟩
    rw [Content.ofText_issue_lock]
    exact fun h => by cases h
  have hsaves : (itemScenario policy version key).saves false [] :=
    ⟨List.not_mem_nil, fun _ _ _ => List.not_mem_nil⟩
  have hwrite : KeepsLists policy version key (.setValue key
      (ItemKeys.of policy.names (version n)).cached document.compact
      (Token.issue LockKind.read.name k) (Cacheable.ttl α policy.ttls)) := by
    refine roles.keepsLists_of_slots trivial fun k hk => ⟨n, ?_⟩
    rcases List.mem_cons.1 hk with rfl | hk
    · exact roles.key_mem_deleted n
    · exact ItemKeys.mem_deleted_of_cached hk
  have hset : ListsSound policy version key (m.setValue cfg key
      (ItemKeys.of policy.names (version n)).cached document.compact
      (Token.issue LockKind.read.name k) (Cacheable.ttl α policy.ttls)).memory :=
    hlists.perform hr hwrite
  obtain ⟨-, hkept⟩ := settle_effect (n := n) roles hr hservable.cached hsaves hset
  have hwritten := Memory.live?_setValue_stored cfg (ItemKeys.of policy.names (version n)).cached
    document.compact (Cacheable.ttl α policy.ttls) hr hstore key
  rw [if_pos (by rw [ItemKeys.cached, hprimary]; exact List.mem_cons_self)] at hwritten
  have hregistered := registered_of_sound cfg (n := n) hset
  refine ⟨document, hdoc, ?_⟩
  rw [saveItem_on_stored cfg policy m (version n) false [] hskip hdoc hr (hprimary ▸ hstore),
    hprimary]
  simp only [hregistered]
  exact Memory.content_of_live?_lasting (hkept.trans hwritten)

omit roles hr in
include hfaithful in
theorem hits_of_content {w : World α} {document : Json}
    (hdoc : Cacheable.toJson? (version n) = some document)
    (hcontent : w.memory.content key = some document.compact) :
    Hits cfg (itemScenario policy version key) w (version n) := by
  have hskips : skips policy α = false := decide_eq_false hservable.cached
  unfold Hits
  rw [itemScenario_read, getItem, hskips, if_neg Bool.false_ne_true,
    fetch_on_value cfg servableItem w.memory hcontent ((hfaithful n).isToken_compact hdoc),
    (hfaithful n).served hdoc, if_pos (hservable.valid n)]
  rfl

theorem reader_enters (Permits : World α → Move → Prop)
    (hpermits : ∀ w, Permits w (.read i) ∧ Permits w (.load i))
    (hlists : ListsSound policy version key w.memory)
    (hempty : w.memory.content key = none) (hidle : w.clients i = .idle) :
    ∃ w₁, Runs cfg (itemScenario policy version key) Permits w w₁ ∧
      ListsSound policy version key w₁.memory ∧
      w₁.memory.content key = some (Token.issue LockKind.read.name w.memory.issued) ∧
      w₁.clients i = .loaded (Token.issue LockKind.read.name w.memory.issued)
        (version w.current) w.current ∧
      w₁.current = w.current ∧ (∀ j, j ≠ i → w₁.clients j = w.clients j) ∧
      ∀ k, k ≠ key → w₁.memory.content k = w.memory.content k := by
  have hlock : Token.issue LockKind.read.name w.memory.issued ≠ Token.noLock :=
    Token.issue_ne_noLock _ _
  have hskips : skips policy α = false := decide_eq_false hservable.cached
  have hop : (getItem policy key true : Operation (Found α)).on cfg w.memory =
      (.miss (Token.issue LockKind.read.name w.memory.issued),
        (w.memory.lookup cfg key true).2) := by
    rw [getItem, hskips, if_neg Bool.false_ne_true, fetch_on_empty cfg servableItem _ key hempty]
  obtain ⟨hsound, heffect⟩ := read_effect roles hr hlists hop
  have hheld : (w.memory.lookup cfg key true).2.content key =
      some (Token.issue LockKind.read.name w.memory.issued) := by
    rcases heffect with ⟨hno, -⟩ | ⟨hno, -⟩ | ⟨-, -, hplaced⟩
    · exact absurd hno hlock
    · exact absurd hno hlock
    · exact hplaced
  have hread : Moves cfg (itemScenario policy version key) w (.read i) _ := .read hidle hop
  simp only [Found.miss, hlock, if_false] at hread
  have hload : Moves cfg (itemScenario policy version key)
      (w.put (w.memory.lookup cfg key true).2 i
        (.missed (Token.issue LockKind.read.name w.memory.issued))) (.load i) _ :=
    .load (version w.current) (if_pos rfl) rfl
  refine ⟨_, .tail (.tail .refl (hpermits _).1 hread) (hpermits _).2 hload, hsound, hheld,
    if_pos rfl, rfl, fun j hj => ?_, fun k hk => ?_⟩
  · rw [World.put_clients, if_neg hj, World.put_clients, if_neg hj]
  · have hlive := Memory.live?_lookup cfg w.memory key true k
    rw [if_neg (fun h => hk h.1)] at hlive
    exact Memory.content_of_live? hlive

omit hservable in
theorem writer_returns {s : Token} (hlists : ListsSound policy version key w.memory)
    (hclaimed : w.clients i = .claimed t) (hheld : w.memory.content key = some s) (hne : s ≠ t)
    (hmarker : Content.ofSlot (some s) ≠ .conflict) :
    ∃ w₁, Runs cfg (itemScenario policy version key) (fun _ _ => True) w w₁ ∧
      ListsSound policy version key w₁.memory ∧ w₁.memory.content key = some s ∧
      w.current < w₁.returned ∧ ∀ j, j ≠ i → w₁.clients j = w.clients j := by
  have hsaves : (itemScenario policy version key).saves false [] :=
    ⟨List.not_mem_nil, fun _ _ _ => List.not_mem_nil⟩
  have hcommit : Moves cfg (itemScenario policy version key) w (.commit i) _ := .commit hclaimed
  have hsave : Moves cfg (itemScenario policy version key)
      { w.put w.memory i (.committed t (w.current + 1)) with current := w.current + 1 }
      (.save i) _ := .save false [] (if_pos rfl) hsaves rfl
  obtain ⟨hsound, heffect⟩ := save_effect (n := w.current + 1) (t := t) roles hr hsaves hlists rfl
  refine ⟨_, .tail (.tail .refl trivial hcommit) trivial hsave, hsound, ?_, ?_, fun j hj => ?_⟩
  · rcases heffect with hsame | ⟨-, hown | hconflict⟩ | ⟨hown, -⟩
    · exact hsame.trans hheld
    · exact absurd (Option.some.inj (hheld.symm.trans hown)) hne
    · rw [hheld] at hconflict
      exact absurd hconflict hmarker
    · exact absurd (Option.some.inj (hheld.symm.trans hown)) hne
  · exact Nat.lt_of_lt_of_le (Nat.lt_succ_self _) (Nat.le_max_right _ _)
  · change (if j = i then .saved t else if j = i then _ else w.clients j) = w.clients j
    rw [if_neg hj, if_neg hj]

include hfaithful in
theorem reader_fills {k : Nat} (hlists : ListsSound policy version key w.memory)
    (hloaded : w.clients i =
      .loaded (Token.issue LockKind.read.name k) (version n) n)
    (hheld : w.memory.content key = some (Token.issue LockKind.read.name k)) :
    ∃ w₁, Runs cfg (itemScenario policy version key) (fun _ _ => True) w w₁ ∧
      w₁.returned = w.returned ∧ Hits cfg (itemScenario policy version key) w₁ (version n) := by
  obtain ⟨document, hdoc, hstored⟩ := content_fill_of_held (n := n) roles hr hservable hlists hheld
  have hfill : Moves cfg (itemScenario policy version key) w (.fill i) _ := .fill hloaded rfl
  exact ⟨_, .tail .refl trivial hfill, rfl, hits_of_content hfaithful hservable hdoc hstored⟩

include hfaithful in
/-- A writer about to commit whose lock is gone from an empty key: a reader comes in, the writer
returns, the reader fills. -/
theorem stale_hit_of_claim_lost (hlists : ListsSound policy version key w.memory)
    (htokens : w.Tokens) (hbounded : w.Bounded) (hempty : w.memory.content key = none)
    (hclaimed : w.clients i = .claimed t) :
    ∃ w₁, Runs cfg (itemScenario policy version key) (fun _ _ => True) w w₁ ∧
      ∃ n, n < w₁.returned ∧ Hits cfg (itemScenario policy version key) w₁ (version n) := by
  obtain ⟨r, hidle⟩ : ∃ r, w.clients r = .idle := by
    obtain ⟨bound, hbound⟩ := hbounded
    exact ⟨bound, hbound bound (Nat.le_refl bound)⟩
  have hri : r ≠ i := by
    rintro rfl
    rw [hclaimed] at hidle
    cases hidle
  -- The reader's token is new, so it is not the writer's.
  obtain ⟨kind, k, htoken, hk⟩ := htokens.issued i t (by rw [hclaimed]; rfl)
  have hne : Token.issue LockKind.read.name w.memory.issued ≠ t := by
    intro he
    have hsame := (Token.issue_lock_injective (he.trans htoken)).2
    omega
  have hmarker : Content.ofSlot (some (Token.issue LockKind.read.name w.memory.issued)) ≠
      .conflict := by
    rw [Content.ofSlot, Content.ofText_issue_lock]
    exact fun h => by cases h
  obtain ⟨w₁, hrun₁, hlists₁, hheld₁, hloaded₁, hcurrent, hothers₁, -⟩ :=
    reader_enters roles hr hservable (fun _ _ => True) (fun _ => ⟨trivial, trivial⟩) hlists hempty
      hidle
  have hclaimed₁ : w₁.clients i = .claimed t := (hothers₁ i (Ne.symm hri)).trans hclaimed
  obtain ⟨w₂, hrun₂, hlists₂, hheld₂, hreturned, hothers₂⟩ :=
    writer_returns roles hr hlists₁ hclaimed₁ hheld₁ hne hmarker
  obtain ⟨w₃, hrun₃, hsame, hhit⟩ := reader_fills roles hr hfaithful hservable hlists₂
    ((hothers₂ r hri).trans hloaded₁) hheld₂
  refine ⟨w₃, (hrun₁.trans hrun₂).trans hrun₃, w.current, ?_, hhit⟩
  rw [hsame, ← hcurrent]
  exact hreturned

include hfaithful in
/-- Wherever a conflict marker is taken away while a writer is about to commit, the run can go on to
a hit that is older than a version whose writer has returned. -/
theorem stale_hit_of_marker_lost (h : ItemInv policy version key w) (hbounded : w.Bounded)
    {move : Move} (hmove : Moves cfg (itemScenario policy version key) w move w')
    (hlost : ¬ MarkerKept key w move) :
    ∃ w₁, Runs cfg (itemScenario policy version key) (fun _ _ => True) w' w₁ ∧
      ∃ n, n < w₁.returned ∧ Hits cfg (itemScenario policy version key) w₁ (version n) := by
  have htokens := hmove.tokens hr h.tokens
  have hbounded := hmove.bounded hbounded
  -- The marker goes, and with it the last trace of the writer's lock.
  have htaken {i n : Nat} {t : Token} {clearCollections : Bool} {extra : List Key}
      {outcome : SaveOutcome} {m : Memory} (ht : (w.clients i).token? = some t)
      (hmarker : Content.ofSlot (w.memory.content key) = .conflict)
      (hsaves : (itemScenario policy version key).saves clearCollections extra)
      (hop : (saveItem policy (version n) t clearCollections extra).on cfg w.memory =
        (outcome, m)) : ListsSound policy version key m ∧ m.content key = none :=
    ⟨(save_effect roles hr hsaves h.lists hop).1,
      content_save_of_marker roles hr hservable (h.token_ne_noLock ht) (h.ofSlot_held ht)
        hmarker hop⟩
  cases hmove with
  | @save i n t outcome m clearCollections extra hcommitted hsaves hop =>
    simp only [MarkerKept, Classical.not_imp, Classical.not_forall, ne_eq,
      Classical.not_not] at hlost
    obtain ⟨hmarker, j, s, hclaimed⟩ := hlost
    obtain ⟨hlists, hempty⟩ := htaken (by rw [hcommitted]; rfl) hmarker hsaves hop
    have hne : j ≠ i := by
      rintro rfl
      rw [hcommitted] at hclaimed
      cases hclaimed
    exact stale_hit_of_claim_lost roles hr hfaithful hservable hlists htokens hbounded hempty
      ((if_neg hne).trans hclaimed)
  | @fill i n t found outcome m hloaded hop =>
    simp only [MarkerKept, Classical.not_imp, Classical.not_forall, ne_eq,
      Classical.not_not] at hlost
    obtain ⟨hmarker, j, s, hclaimed⟩ := hlost
    have hcounts := h.clients i
    rw [hloaded] at hcounts
    obtain ⟨rfl, -⟩ := hcounts
    have hsaves : (itemScenario policy version key).saves false [] :=
      ⟨List.not_mem_nil, fun _ _ _ => List.not_mem_nil⟩
    obtain ⟨hlists, hempty⟩ := htaken (by rw [hloaded]; rfl) hmarker hsaves hop
    have hne : j ≠ i := by
      rintro rfl
      rw [hloaded] at hclaimed
      cases hclaimed
    exact stale_hit_of_claim_lost roles hr hfaithful hservable hlists htokens hbounded hempty
      ((if_neg hne).trans hclaimed)
  | _ => exact absurd trivial hlost

omit hservable in
theorem writer_claims (hlists : ListsSound policy version key w.memory)
    (hkey : LockKind.update.mayTake (w.memory.content key) = true)
    (hothers : ∀ k, k ≠ key → w.memory.content k = none) (hidle : w.clients i = .idle) :
    ∃ m t, Moves cfg (itemScenario policy version key) w (.claim i) (w.put m i (.claimed t)) ∧
      ListsSound policy version key m ∧
      t = Token.issue LockKind.update.name w.memory.issued ∧ m.content key = some t := by
  have hgrants : w.memory.Grants .update
      ((ItemKeys.of policy.names (version 0)).lockKeys .update) := by
    refine ⟨fun hnil => ?_, fun k _ => ?_⟩
    · have hmem := key_mem_lockKeys (n := 0) roles .update
      rw [hnil] at hmem
      cases hmem
    · by_cases hk : k = key
      · rw [hk]
        exact hkey
      · rw [hothers k hk]
        rfl
  have hkind : LockKind.update ≠ .delete := by decide
  rcases takeItemLock_cases cfg policy w.memory hr hkind (version 0) with
    ⟨-, hop⟩ | ⟨hrefused, -⟩
  · have hclaim : Moves cfg (itemScenario policy version key) w (.claim i) _ := .claim 0 hidle hop
    have hne : Token.issue LockKind.update.name w.memory.issued ≠ Token.noLock :=
      Token.issue_ne_noLock _ _
    rw [if_neg hne] at hclaim
    obtain ⟨hsound, ⟨-, -, hplaced⟩ | ⟨hno, -⟩⟩ := claim_effect roles hr hlists hop
    · exact ⟨_, _, hclaim, hsound, rfl, hplaced⟩
    · exact absurd hno hne
  · exact absurd hgrants hrefused

omit hservable in
theorem rival_marks {k : Nat}
    (hheld : w.memory.content key = some (Token.issue LockKind.update.name k))
    (hidle : w.clients i = .idle) :
    ∃ m, Moves cfg (itemScenario policy version key) w (.claim i) (w.put m i .idle) ∧
      Content.ofSlot (m.content key) = .conflict := by
  have hslot : Content.ofSlot (w.memory.content key) = .lock .update := by
    rw [hheld]
    exact Content.ofText_issue_lock .update k
  have hmem := key_mem_lockKeys (n := 0) roles .update
  have hrefused : ¬ w.memory.Grants .update
      ((ItemKeys.of policy.names (version 0)).lockKeys .update) := by
    intro hgrants
    have hmay := hgrants.2 key hmem
    rw [LockKind.mayTake, hslot] at hmay
    cases hmay
  have hmarks : w.memory.Marks .update
      ((ItemKeys.of policy.names (version 0)).lockKeys .update) key :=
    ⟨hmem, rfl, by rw [isRival, hslot]⟩
  have hkind : LockKind.update ≠ .delete := by decide
  rcases takeItemLock_cases cfg policy w.memory hr hkind (version 0) with
    ⟨hgrants, -⟩ | ⟨-, hop⟩
  · exact absurd hgrants hrefused
  · have hclaim : Moves cfg (itemScenario policy version key) w (.claim i) _ := .claim 0 hidle hop
    rw [if_pos rfl] at hclaim
    obtain ⟨-, -, -, hslots⟩ := Memory.writeToken_refused cfg w.memory hr hrefused
    obtain ⟨n, -, -, hlive⟩ := (hslots key).2 hmarks
    refine ⟨_, hclaim, ?_⟩
    rw [Memory.content_of_live?_lasting hlive]
    exact Content.ofText_issue_conflict n

/-- A run that takes a conflict marker away too early: a reader loads, a writer takes the key from
it, a second one leaves a marker there, and the reader's save takes the marker away. -/
theorem marker_lost_reachable :
    ∃ w move w', Runs cfg (itemScenario policy version key) (MarkerKept key) {} w ∧
      Moves cfg (itemScenario policy version key) w move w' ∧ ¬ MarkerKept key w move := by
  have hstart : ItemInv policy version key ({} : World α) := itemInv_start
  obtain ⟨w₁, hrun₁, hlists₁, hheld₁, hloaded₁, -, hothers₁, hcontents₁⟩ :=
    reader_enters roles hr hservable (MarkerKept key) (fun _ => ⟨trivial, trivial⟩) (i := 0)
      hstart.lists rfl rfl
  have hkey : LockKind.update.mayTake (w₁.memory.content key) = true := by
    rw [hheld₁, LockKind.mayTake, Content.ofSlot, Content.ofText_issue_lock]
    rfl
  obtain ⟨m₂, t, hclaim, -, ht, hheld₂⟩ :=
    writer_claims roles hr hlists₁ hkey hcontents₁ (hothers₁ 1 (by decide))
  have hrun₂ : Runs cfg (itemScenario policy version key) (MarkerKept key) {}
      (w₁.put m₂ 1 (.claimed t)) :=
    .tail hrun₁ (show MarkerKept key w₁ (.claim 1) from trivial) hclaim
  obtain ⟨m₃, hrival, hmarker⟩ := rival_marks (w := w₁.put m₂ 1 (.claimed t)) (i := 2) roles hr
    (ht ▸ hheld₂) (hothers₁ 2 (by decide))
  have hrun₃ : Runs cfg (itemScenario policy version key) (MarkerKept key) {}
      ((w₁.put m₂ 1 (.claimed t)).put m₃ 2 .idle) :=
    .tail hrun₂ (show MarkerKept key _ (.claim 2) from trivial) hrival
  have hfill : Moves cfg (itemScenario policy version key)
      ((w₁.put m₂ 1 (.claimed t)).put m₃ 2 .idle) (.fill 0) _ := .fill hloaded₁ rfl
  refine ⟨_, _, _, hrun₃, hfill, fun hkept => ?_⟩
  exact hkept hmarker 1 t rfl

end StaleRead

variable (cfg) in
/-- Hits on an item are fresh in every run that keeps its conflict markers until no writer is about
to commit. The condition cannot be spared: the first move that breaks it opens the way to a stale
hit, and for every item that may be served there is a run with such a move. -/
theorem item_reads_fresh_while_markers_kept (roles : ItemRoles policy.names version key)
    (hr : cfg.rules = Rules.standard) (hfaithful : ∀ n, Faithful (version n)) :
    (∀ w, Runs cfg (itemScenario policy version key) (MarkerKept key) {} w →
      ∀ found, Hits cfg (itemScenario policy version key) w found →
        Fresh (itemScenario policy version key) w found) ∧
    (Servable policy version →
      (∀ w move w', Runs cfg (itemScenario policy version key) (MarkerKept key) {} w →
        Moves cfg (itemScenario policy version key) w move w' → ¬ MarkerKept key w move →
        ∃ w₁, Runs cfg (itemScenario policy version key) (fun _ _ => True) w' w₁ ∧
          ∃ found, Hits cfg (itemScenario policy version key) w₁ found ∧
            ¬ Fresh (itemScenario policy version key) w₁ found) ∧
      ∃ w move w', Runs cfg (itemScenario policy version key) (MarkerKept key) {} w ∧
        Moves cfg (itemScenario policy version key) w move w' ∧ ¬ MarkerKept key w move) := by
  have hinv {w : World α}
      (hrun : Runs cfg (itemScenario policy version key) (MarkerKept key) {} w) :
      ItemInv policy version key w := .run roles hr hfaithful (fun _ _ hkept => hkept) hrun
  refine ⟨fun w hrun found hhit => ?_, fun hservable => ⟨fun w move w' hrun hmove hlost => ?_, ?_⟩⟩
  · exact ⟨w.current, (hinv hrun).returned, Nat.le_refl _, (hinv hrun).hit hfaithful hhit⟩
  · obtain ⟨w₁, hrun₁, n, hn, hhit⟩ := stale_hit_of_marker_lost roles hr hfaithful hservable
      (hinv hrun) hrun.bounded hmove hlost
    refine ⟨w₁, hrun₁, version n, hhit, ?_⟩
    rintro ⟨n', hn', -, hsame⟩
    have heq := hservable.distinct n n' hsame
    omega
  · exact marker_lost_reachable roles hr hservable

section Example
open Catalogue

theorem nodeVersion_roles : ItemRoles lasting.names nodeVersion "k" where
  primary := fun n => rfl
  secondary := fun n => List.not_mem_nil
  collections := fun n => List.not_mem_nil
  lists := by
    intro n n' list hlist
    have hdeleted : (ItemKeys.of lasting.names (nodeVersion n')).deleted = ["k"] := rfl
    have hlists : listKeys lasting.names (nodeVersion n) = "d" :: List.replicate n "l" := rfl
    rw [hlists] at hlist
    rw [hdeleted, List.mem_singleton]
    rintro rfl
    rcases List.mem_cons.1 hlist with h | h
    · exact absurd h (by decide)
    · exact absurd (List.eq_of_mem_replicate h) (by decide)
  own := by
    intro n n' list hlist hmem
    obtain rfl := Option.some.inj hlist
    exact absurd (List.eq_of_mem_replicate hmem) (by decide)

/-- The versions of a node are read back fresh only if its markers are kept. -/
theorem item_reads_stale_of_node :
    ∃ w, Runs {} (itemScenario lasting nodeVersion "k") (fun _ _ => True) {} w ∧
      ∃ found, Hits {} (itemScenario lasting nodeVersion "k") w found ∧
        ¬ Fresh (itemScenario lasting nodeVersion "k") w found := by
  obtain ⟨-, hstale⟩ := item_reads_fresh_while_markers_kept {} nodeVersion_roles rfl
    fun n => (nodeVersion n).faithful
  obtain ⟨hbreaks, w, move, w', hrun, hmove, hlost⟩ := hstale nodeVersion_servable
  obtain ⟨w₁, hrun₁, hhit⟩ := hbreaks w move w' hrun hmove hlost
  exact ⟨w₁, (Runs.tail (hrun.mono fun _ _ _ => trivial) trivial hmove).trans hrun₁, hhit⟩

end Example

end CacheCoherence
