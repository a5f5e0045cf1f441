import CacheCoherence.Proofs.ReadAfterWrite.CollectionEffects

/-!
# What a registered collection can count on

A collection is registered before it is written, so that a writer who settles the item takes every
written collection away. Two gaps remain: a reader may register too late for what it loaded, and a
writer whose save is refused invalidates nothing. While no move falls into either gap, a value of
the collection is no older than the newest version whose writer has returned.
-/
namespace CacheCoherence
open Operation
variable {α β : Type} [Cacheable α] [Cacheable β] {cfg : MemorySettings}

section Timely
variable (cfg) (sc : Scenario α (List α))

/-- A save gets through to the collection, or finds nothing there that it makes out of date; a fill
that is stored was loaded no earlier than the newest version whose writer has returned. -/
def Timely (w : World (List α)) : Move → Prop
  | .save i => ∀ t n, w.clients i = .committed t n →
    (((saveItem sc.policy (sc.version n) t true []).on cfg w.memory).1 = .stored ∨
        ((saveItem sc.policy (sc.version n) t true []).on cfg w.memory).1 = .rolledBack) ∨
      ∀ found, Hits cfg sc w found → ∃ n', n ≤ n' ∧ n' ≤ w.current ∧ sc.loads n' found
  | .fill i => ∀ t found n, w.clients i = .loaded t found n →
    ((sc.fill found t).on cfg w.memory).1 = .stored → found.all Cacheable.isValid = true →
      Fresh sc w found
  | _ => True

/-- How the versions in the hands of a client relate to the current one. -/
def Client.Loads (current : Nat) : Client (List α) → Prop
  | .committed _ n => n ≤ current
  | .loaded _ found n => sc.loads n found ∧ n ≤ current
  | _ => True

/-- A value under the key is within reach of the list of the item, and is fresh if it may be served
at all. -/
structure CollectionInv (list : Key) (w : World (List α)) : Prop where
  reached : Reached list sc.key w.memory
  returned : w.returned ≤ w.current
  clients : ∀ i, Client.Loads sc w.current (w.clients i)
  value : ∀ raw, w.memory.content sc.key = some raw → isToken raw = false →
    Cacheable.ttl α sc.policy.ttls ≠ skipTtl ∧
    ∃ items document, collectionJson? items = some document ∧ raw = document.compact ∧
      (∀ item ∈ items, Faithful item) ∧
      (items.all Cacheable.isValid = true → Fresh sc w items)

end Timely

section World
variable {sc : Scenario α (List α)} {w w' : World (List α)} {found : List α}

omit [Cacheable α] in
theorem Fresh.mono (h : Fresh sc w found) (hreturned : w'.returned ≤ w.returned)
    (hcurrent : w.current ≤ w'.current) : Fresh sc w' found := by
  obtain ⟨n, hlo, hhi, hloads⟩ := h
  exact ⟨n, Nat.le_trans hreturned hlo, Nat.le_trans hhi hcurrent, hloads⟩

omit [Cacheable α] in
theorem Client.Loads.mono {c : Client (List α)} {current current' : Nat}
    (h : c.Loads sc current) (hle : current ≤ current') : c.Loads sc current' := by
  cases c with
  | committed t n => exact Nat.le_trans h hle
  | loaded t found n => exact ⟨h.1, Nat.le_trans h.2 hle⟩
  | _ => trivial

theorem collectionInv_start (sc : Scenario α (List α)) (list : Key) :
    CollectionInv sc list ({} : World (List α)) where
  reached := ⟨fun slot h => (by cases h), fun raw h => (by cases h)⟩
  returned := Nat.le_refl 0
  clients := fun i => trivial
  value := fun raw h => by cases h

/-- The invariant after a client acted without bringing a value. -/
theorem CollectionInv.put {list : Key} (h : CollectionInv sc list w) {m : Memory} {i : Nat}
    {c : Client (List α)}
    (heffect : Reached list sc.key m ∧
      ∀ raw, m.content sc.key = some raw → isToken raw = false →
        w.memory.content sc.key = some raw)
    (hc : c.Loads sc w.current) : CollectionInv sc list (w.put m i c) := by
  refine ⟨heffect.1, h.returned, fun j => ?_, fun raw hraw hvalue => ?_⟩
  · rw [World.put_clients]
    split
    · exact hc
    · exact h.clients j
  · exact h.value raw (heffect.2 raw hraw hvalue) hvalue

end World

variable {policy : Policy} {version : Nat → α} {owner : β} {Member : α → Prop} {list key : Key}
  {isGlobal : Bool} {w w' : World (List α)}

section Hits
variable {found : List α}

/-- A hit is a value under the key that may be served. -/
theorem hits_collection_iff :
    Hits cfg (collectionScenario policy version owner Member key isGlobal) w found ↔
      Cacheable.ttl α policy.ttls ≠ skipTtl ∧ ∃ raw, w.memory.content key = some raw ∧
        isToken raw = false ∧ (Json.parse? raw).bind servableItems = some found := by
  unfold Hits
  rw [collectionScenario_read, getCollection]
  by_cases hskip : Cacheable.ttl α policy.ttls = skipTtl
  · have hskips : skips policy α = true := decide_eq_true hskip
    rw [if_pos hskips]
    exact ⟨fun h => (by cases h), fun h => absurd hskip h.1⟩
  · have hskips : ¬ skips policy α = true := fun h => hskip (of_decide_eq_true h)
    rw [if_neg hskips]
    cases hc : w.memory.content key with
    | none =>
      rw [fetch_on_empty cfg servableItems w.memory key hc]
      exact ⟨fun h => (by cases h), fun ⟨_, raw, hraw, _⟩ => (by cases hraw)⟩
    | some raw =>
      cases ht : isToken raw with
      | true =>
        rw [fetch_on_token cfg servableItems w.memory hc ht]
        refine ⟨fun h => (by cases h), ?_⟩
        rintro ⟨-, raw', hraw, hvalue, -⟩
        cases hraw
        rw [ht] at hvalue
        cases hvalue
      | false =>
        rw [fetch_on_value cfg servableItems w.memory hc ht]
        constructor
        · intro h
          refine ⟨hskip, raw, rfl, ht, ?_⟩
          split at h
          · rename_i items hitems
            cases h
            exact hitems
          · cases h
        · rintro ⟨-, raw', hraw, -, hserved⟩
          cases hraw
          rw [hserved]
          rfl

theorem CollectionInv.hit
    (h : CollectionInv (collectionScenario policy version owner Member key isGlobal) list w)
    (hhit : Hits cfg (collectionScenario policy version owner Member key isGlobal) w found) :
    Fresh (collectionScenario policy version owner Member key isGlobal) w found := by
  obtain ⟨-, raw, hraw, hvalue, hserved⟩ := hits_collection_iff.1 hhit
  obtain ⟨-, items, document, hdoc, rfl, hfaithful, hfresh⟩ := h.value raw hraw hvalue
  rw [served_collection hfaithful hdoc] at hserved
  split at hserved
  · cases hserved
    exact hfresh ‹_›
  · cases hserved

end Hits

section Step
variable (roles : CollectionRoles policy.names version owner Member list key isGlobal)
  (hr : cfg.rules = Rules.standard) (hfaithful : ∀ item, Member item → Faithful item)
include roles hr

/-- A save either takes the value of the collection away, or what is served there is no older than
the version that it saved. -/
theorem CollectionInv.after_save
    (h : CollectionInv (collectionScenario policy version owner Member key isGlobal) list w)
    {i n : Nat} {t : Token} {outcome : SaveOutcome} {m : Memory}
    (hcommitted : w.clients i = .committed t n)
    (hop : (saveItem policy (version n) t true []).on cfg w.memory = (outcome, m))
    (htimely : (outcome = .stored ∨ outcome = .rolledBack) ∨
      ∀ found, Hits cfg (collectionScenario policy version owner Member key isGlobal) w found →
        ∃ n', n ≤ n' ∧ n' ≤ w.current ∧
          (collectionScenario policy version owner Member key isGlobal).loads n' found) :
    CollectionInv (collectionScenario policy version owner Member key isGlobal) list
      { w.put m i (.saved t) with returned := max w.returned n } := by
  have hn : n ≤ w.current := by
    have hloads := h.clients i
    rw [hcommitted] at hloads
    exact hloads
  have heffect := h.reached.on hr (roles.calls_save (n := n) (t := t))
  rw [hop] at heffect
  have hput := h.put (i := i) (c := .saved t) heffect trivial
  refine ⟨heffect.1, Nat.max_le.2 ⟨h.returned, hn⟩, hput.clients, fun raw hraw hvalue => ?_⟩
  have hnot : ¬ (outcome = .stored ∨ outcome = .rolledBack) := by
    intro hdone
    rw [h.reached.saved roles hr hop hdone hraw] at hvalue
    cases hvalue
  have hbefore := heffect.2 raw hraw hvalue
  obtain ⟨hcached, items, document, hdoc, rfl, hmembers, hfresh⟩ := h.value raw hbefore hvalue
  refine ⟨hcached, items, document, hdoc, rfl, hmembers, fun hvalid => ?_⟩
  obtain ⟨n₁, hlo₁, hhi₁, hloads₁⟩ := hfresh hvalid
  have hhit : Hits cfg (collectionScenario policy version owner Member key isGlobal) w items := by
    refine hits_collection_iff.2 ⟨hcached, _, hbefore, hvalue, ?_⟩
    rw [served_collection hmembers hdoc, if_pos hvalid]
  obtain ⟨n₂, hlo₂, hhi₂, hloads₂⟩ := htimely.resolve_left hnot items hhit
  -- Of the two versions that the value may be from, the newer one counts.
  rcases Nat.le_total n₁ n₂ with hle | hle
  · exact ⟨n₂, Nat.max_le.2 ⟨Nat.le_trans hlo₁ hle, hlo₂⟩, hhi₂, hloads₂⟩
  · exact ⟨n₁, Nat.max_le.2 ⟨hlo₁, Nat.le_trans hlo₂ hle⟩, hhi₁, hloads₁⟩

include hfaithful in
theorem CollectionInv.after_fill
    (h : CollectionInv (collectionScenario policy version owner Member key isGlobal) list w)
    {i n : Nat} {t : Token} {found : List α} {outcome : SaveOutcome} {m : Memory}
    (hloaded : w.clients i = .loaded t found n)
    (hop : (saveCollection policy owner found key key t isGlobal).on cfg w.memory = (outcome, m))
    (htimely : outcome = .stored → found.all Cacheable.isValid = true →
      Fresh (collectionScenario policy version owner Member key isGlobal) w found) :
    CollectionInv (collectionScenario policy version owner Member key isGlobal) list
      (w.put m i (.filled t found)) := by
  have hloads := h.clients i
  rw [hloaded] at hloads
  obtain ⟨hreached, ⟨rfl, hcached, document, hdoc, hstored⟩ | ⟨-, hbefore⟩⟩ :=
    h.reached.filled roles hr hloads.1 hop
  · refine ⟨hreached, h.returned, fun j => ?_, fun raw hraw hvalue => ?_⟩
    · rw [World.put_clients]
      split
      · trivial
      · exact h.clients j
    · refine ⟨hcached, found, document, hdoc, Option.some.inj (hraw.symm.trans hstored), ?_,
        htimely rfl⟩
      exact fun item hitem => hfaithful item (hloads.1.2.2 item hitem)
  · exact h.put ⟨hreached, hbefore⟩ trivial

include hfaithful in
theorem CollectionInv.step
    (h : CollectionInv (collectionScenario policy version owner Member key isGlobal) list w)
    {move : Move}
    (htimely : Timely cfg (collectionScenario policy version owner Member key isGlobal) w move)
    (hmove : Moves cfg (collectionScenario policy version owner Member key isGlobal) w move w') :
    CollectionInv (collectionScenario policy version owner Member key isGlobal) list w' := by
  cases hmove with
  | @claim i t m n hidle hop =>
    have hcalls := calls_takeItemLock policy (version n) roles.spares_lock.1
      (fun _ _ h => by cases h) roles.spares_lock.2
    have heffect := h.reached.on hr hcalls
    have hop : (takeItemLock policy .update (version n)).on cfg w.memory = (.ok t, m) := hop
    rw [hop] at heffect
    refine h.put heffect ?_
    split <;> trivial
  | @commit i t hclaimed =>
    have hle : w.current ≤ w.current + 1 := Nat.le_succ _
    refine ⟨h.reached, Nat.le_trans h.returned hle, fun j => ?_, fun raw hraw hvalue => ?_⟩
    · change Client.Loads _ (w.current + 1) (if j = i then _ else w.clients j)
      split
      · exact Nat.le_refl _
      · exact (h.clients j).mono hle
    · obtain ⟨hcached, items, document, hdoc, hsame, hmembers, hfresh⟩ := h.value raw hraw hvalue
      exact ⟨hcached, items, document, hdoc, hsame, hmembers,
        fun hvalid => (hfresh hvalid).mono (Nat.le_refl _) hle⟩
  | @save i n t outcome m clearCollections extra hcommitted hsaves hop =>
    obtain ⟨rfl, rfl⟩ := hsaves
    refine h.after_save roles hr hcommitted hop ?_
    have htimely := htimely t n hcommitted
    have houtcome : ((saveItem policy (version n) t true []).on cfg w.memory).1 = outcome :=
      congrArg Prod.fst hop
    exact houtcome ▸ htimely
  | @release i t n hsaved =>
    have hcalls := calls_releaseItemLock policy .update (version n) t (roles.spares_lock.2 t)
    exact h.put (h.reached.on hr hcalls) trivial
  | read hidle hop =>
    refine h.put (h.reached.read roles hop) ?_
    split <;> trivial
  | @load i t found hmissed hloads =>
    exact h.put ⟨h.reached, fun raw hraw _ => hraw⟩ ⟨hloads, Nat.le_refl _⟩
  | @fill i n t found outcome m hloaded hop =>
    refine h.after_fill roles hr hfaithful hloaded hop fun hstored => ?_
    exact htimely t found n hloaded ((congrArg Prod.fst hop).trans hstored)
  | drop hfilled => exact h.put (h.reached.dropped roles) trivial
  | elapse duration hlasts =>
    refine ⟨h.reached.congr hlasts, h.returned, h.clients, fun raw hraw hvalue => ?_⟩
    have hraw : (w.memory.advance duration).content key = some raw := hraw
    rw [Memory.content_of_live? (hlasts key)] at hraw
    exact h.value raw hraw hvalue

include hfaithful in
theorem CollectionInv.run
    (hrun : Runs cfg (collectionScenario policy version owner Member key isGlobal)
      (Timely cfg (collectionScenario policy version owner Member key isGlobal)) {} w) :
    CollectionInv (collectionScenario policy version owner Member key isGlobal) list w := by
  induction hrun with
  | refl => exact collectionInv_start _ list
  | tail hrun htimely hmove ih => exact ih.step roles hr hfaithful htimely hmove

end Step

end CacheCoherence
