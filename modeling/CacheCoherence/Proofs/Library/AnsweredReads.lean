import CacheCoherence.Proofs.Library.HandedOver

/-!
# Which keys a read answers

A read of several items pairs its keys with the lookups that the store answered, in order, and makes
one result of each pair. A fault is answered by a miss for every key. Where the answer is cut short
the pairing ends with it: the keys before the cut keep their places, and those behind it get no
result. Whatever a result serves was found under its own key, by the store or as another client's
writing. The read of an item beside its modified key serves nothing unless it was told of both.
-/
namespace CacheCoherence
open Operation

namespace Lookup

/-- A value that a lookup of a key found is no token, and it has a property under the key. -/
def Brings (P : Key → String → Prop) (key : Key) (found : Lookup) : Prop :=
  ∀ text, found.value = some text → isToken text = false ∧ P key text

theorem Brings.mono {P Q : Key → String → Prop} {key : Key} {found : Lookup}
    (h : found.Brings P key) (hPQ : ∀ text, isToken text = false → P key text → Q key text) :
    found.Brings Q key := fun text hvalue =>
  ⟨(h text hvalue).1, hPQ text (h text hvalue).1 (h text hvalue).2⟩

theorem brings_observed {P : Key → String → Prop} {key : Key} {content : Option String}
    (h : ∀ text, content = some text → P key text) : (observed content).Brings P key := by
  intro text hvalue
  cases content with
  | none => cases hvalue
  | some raw =>
    unfold observed at hvalue
    dsimp only at hvalue
    split at hvalue
    · cases hvalue
    · rename_i htoken
      obtain rfl := Option.some.inj hvalue
      exact ⟨Bool.eq_false_of_not_eq_true htoken, h raw rfl⟩

end Lookup

namespace Memory
variable (cfg : MemorySettings)

theorem brings_lookup (m : Memory) (key : Key) (lock : Bool) :
    (m.lookup cfg key lock).1.Brings (fun key text => m.content key = some text) key := by
  cases h : m.content key with
  | some raw =>
    rw [lookup_of_content cfg m key lock h]
    exact Lookup.brings_observed fun text htext => h.trans htext
  | none =>
    rw [lookup_of_empty cfg m key lock h]
    intro text hvalue
    cases lock <;> cases hvalue

theorem content_of_content_lookup {m : Memory} {key slot : Key} {lock : Bool} {text : String}
    (htext : isToken text = false)
    (h : (m.lookup cfg key lock).2.content slot = some text) : m.content slot = some text := by
  rw [content_eq_live?, live?_lookup] at h
  split at h
  · obtain rfl := Option.some.inj h
    exact absurd (Content.isToken_issue_lock .read m.issued) (Bool.eq_false_iff.1 htext)
  · rwa [content_eq_live?]

theorem brings_lookups (entries : List (Key × Bool)) (m : Memory) :
    List.Forall₂ (fun entry found =>
        found.Brings (fun key text => m.content key = some text) entry.1)
      entries (lookups cfg entries m).1 := by
  induction entries generalizing m with
  | nil => exact .nil
  | cons entry rest ih =>
    refine .cons (brings_lookup cfg m _ _) ((ih _).imp fun entry' found h => h.mono ?_)
    exact fun text htext => content_of_content_lookup cfg htext

end Memory

/-- A text that stands in a slot of a server, or that another client is to write there; tokens are
left out of account. -/
def Exchange.Offers (x : Exchange) (slot : Key) (text : String) : Prop :=
  isToken text = false → ¬ x.Within (Elsewhere slot text)

theorem Exchange.within_offers (x : Exchange) : x.Within x.Offers where
  server key text hcontent _ h := h.server key text hcontent ⟨rfl, rfl⟩
  others race hrace w hw := by
    cases hwrite : w.toWrite with
    | delete key => exact hwrite ▸ trivial
    | set key text px =>
      rw [hwrite]
      intro _ h
      have hmeets : w.toWrite.Meets (Elsewhere key text) := h.others race hrace w hw
      rw [hwrite] at hmeets
      exact hmeets ⟨rfl, rfl⟩

theorem Exchange.offers_issue (x : Exchange) (slot : Key) (n : Nat) :
    x.Offers slot (Token.issue LockKind.read.name n) := fun htext =>
  absurd (Content.isToken_issue_lock .read n) (Bool.eq_false_iff.1 htext)

namespace RemoteStore
open RemoteCall Observed
variable (cfg : RemoteSettings) {P : Key → String → Prop} {o : Observed}
  (hP : ∀ key n, P key (Token.issue LockKind.read.name n))
include hP

/-- What a reading of one slot finds has a property that all texts under their keys have, those that
other clients will write and read locks included. The reading breaks no such property. -/
theorem brings_resolve {target : Key} {raw : Option String} {lock : Bool} {found : Lookup}
    (ho : o.Within P) (hraw : ∀ text, raw = some text → P target text)
    (h : ((resolve cfg target raw lock).on o).1 = .ok found) :
    found.Brings P target ∧ ((resolve cfg target raw lock).on o).2.Within P := by
  unfold resolve at h ⊢
  split at h
  · rename_i hwanted
    rw [if_pos hwanted]
    cases h
    exact ⟨Lookup.brings_observed hraw, ho⟩
  rename_i hwanted
  rw [if_neg hwanted]
  have hissued : Observed.Within P
      ⟨{ o.remote with issued := o.remote.issued + 1 }, o.log ++ []⟩ := ho
  rw [on_bind_of_ok (on_issue LockKind.read.name o)] at h ⊢
  obtain ⟨taken, -, h, hend⟩ := on_bind_ok h
  have hset := (meets_setIfAbsent
    (Duration.serverMillis cfg.lockTtl) (hP target o.remote.issued)).within hissued
  rw [hend]
  cases taken with
  | true =>
    cases h
    exact ⟨nofun, hset⟩
  | false =>
    -- Somebody was faster, and what stands in the slot now is read once more.
    obtain ⟨again, hagain, h, -⟩ := on_bind_ok h
    cases h
    refine ⟨Lookup.brings_observed fun text htext => ?_, ?_⟩
    · exact hset.server target text ((on_get_ok hagain).symm.trans htext)
    · exact Meets.within ((meets_get target).bind fun raw => meets_pure _) hset

theorem brings_getValue {key : Key} {lock : Bool} {found : Lookup} (ho : o.Within P)
    (h : ((getValue cfg key lock).on o).1 = .ok found) :
    found.Brings P (cfg.serverKey key) := by
  obtain ⟨raw, hraw, h, -⟩ := on_bind_ok h
  refine (brings_resolve cfg hP ((meets_get _).within ho) (fun text htext => ?_) h).1
  exact ho.server _ _ ((on_get_ok hraw).symm.trans htext)

theorem brings_resolveAll {entries : List (Key × Option String × Bool)} {found : List Lookup}
    (ho : o.Within P) (hraw : ∀ entry ∈ entries, ∀ text, entry.2.1 = some text → P entry.1 text)
    (h : ((resolveAll cfg entries).on o).1 = .ok found) :
    List.Forall₂ (fun entry lookup => lookup.Brings P entry.1) entries found := by
  induction entries generalizing o found with
  | nil =>
    cases h
    exact .nil
  | cons entry rest ih =>
    obtain ⟨first, others, rfl, hfirst, hothers, -⟩ := on_resolveAll_cons cfg h
    obtain ⟨hbrings, hwithin⟩ :=
      brings_resolve cfg hP ho (hraw entry List.mem_cons_self) hfirst
    exact .cons hbrings
      (ih hwithin (fun entry' hmem => hraw entry' (List.mem_cons_of_mem _ hmem)) hothers)

theorem brings_getValues {keys : List Key} {locks : List Bool} {found : List Lookup}
    (ho : o.Within P) (h : ((getValues cfg keys locks).on o).1 = .ok found) :
    List.Forall₂ (fun key lookup => lookup.Brings P (cfg.serverKey key)) keys found := by
  rcases on_getValues_ok cfg h with
    ⟨-, rfl, rfl, -⟩ | ⟨current, o', rfl, hlocks, hwithin, hok, -⟩
  · exact .nil
  · have hbrings := brings_resolveAll cfg hP (hwithin P ho) ?_ hok
    · have hentries : (((keys.map cfg.serverKey).zip
          (((keys.map cfg.serverKey).map o.server.content).zip locks)).map (·.1)) =
          keys.map cfg.serverKey := List.map_fst_zip (by simp [hlocks])
      rw [← List.forall₂_map_left_iff (f := cfg.serverKey), ← hentries, List.forall₂_map_left_iff]
      exact hbrings
    · intro entry hmem text htext
      -- Each key goes with its own content.
      obtain ⟨i, hi, rfl⟩ := List.mem_iff_getElem.1 hmem
      simp only [List.getElem_zip, List.getElem_map] at htext ⊢
      exact ho.server _ _ htext

end RemoteStore

namespace Store
variable {s : Store} {keys : List Key} {locks : List Bool} {found : List Lookup}

theorem brings_of_offers {cfg : RemoteSettings} {rules : Rules} {r : Remote} {key : Key}
    {found : Lookup} (h : found.Brings r.exchange.Offers (cfg.serverKey key)) :
    found.Brings (fun key text => ¬ (remote cfg rules r).Lacks key text) key := fun text hvalue =>
  ⟨(h text hvalue).1, fun hlacks =>
    (h text hvalue).2 (h text hvalue).1 (lacks_remote_iff.1 hlacks)⟩

/-- What a reading of a slot finds was held there, or another client is to write it there. -/
theorem brings_getValue {key : Key} {lock : Bool} {found : Lookup}
    (h : (s.perform (.getValue key lock)).1 = .ok found) :
    found.Brings (fun key text => ¬ s.Lacks key text) key := by
  cases s with
  | memory cfg m =>
    obtain rfl : (m.lookup cfg key lock).1 = found := Except.ok.inj h
    exact (Memory.brings_lookup cfg m key lock).mono fun text _ htext hlacks => hlacks.absent htext
  | remote cfg rules r =>
    obtain ⟨o, hrun, -⟩ := perform_remote cfg rules r (.getValue key lock)
    exact brings_of_offers (RemoteStore.brings_getValue cfg r.exchange.offers_issue (o := ⟨r, []⟩)
      r.exchange.within_offers ((congrArg Prod.fst hrun).trans h))

theorem brings_getValues (h : (s.perform (.getValues keys locks)).1 = .ok found) :
    List.Forall₂ (fun key lookup => lookup.Brings (fun key text => ¬ s.Lacks key text) key)
      keys found := by
  cases s with
  | memory cfg m =>
    have hanswer : (m.getValues cfg keys locks).answer = .ok found := h
    unfold Memory.getValues at hanswer
    split at hanswer
    · rename_i hlength
      cases hanswer
      have hbrings := Memory.brings_lookups cfg (keys.zip locks) m
      rw [← List.forall₂_map_left_iff (f := Prod.fst),
        List.map_fst_zip (Nat.le_of_eq hlength)] at hbrings
      exact hbrings.imp fun key found h => h.mono fun text _ htext hlacks => hlacks.absent htext
    · cases hanswer
  | remote cfg rules r =>
    obtain ⟨o, hrun, -⟩ := perform_remote cfg rules r (.getValues keys locks)
    have hbrings := RemoteStore.brings_getValues cfg r.exchange.offers_issue (o := ⟨r, []⟩)
      r.exchange.within_offers ((congrArg Prod.fst hrun).trans h)
    exact hbrings.imp fun key found h => brings_of_offers h

/-- A store that answers a batch answers for every key. -/
theorem length_getValues (h : (s.perform (.getValues keys locks)).1 = .ok found) :
    found.length = keys.length := (brings_getValues h).length_eq.symm

variable {α : Type} [Cacheable α]

/-- A text that a store holds under a key, or that another client is to write there, decodes to an
item that may be served. -/
def Offers (s : Store) (key : Key) (item : α) : Prop :=
  ∃ raw, ¬ s.Lacks key raw ∧ (Json.parse? raw).bind servableItem = some item

/-- A result belongs to a key: it serves nothing but what the store offers under the key, and it
comes with a lock only if one was wanted and there is nothing to serve. -/
structure Answers (s : Store) (lock : Bool) (key : Key) (result : Found α) : Prop where
  locked : result.token ≠ Token.noLock → lock = true ∧ result.item = none
  offered : ∀ item, result.item = some item → s.Offers key item

theorem item_resolved {β : Type} {entry : Entry β} {lookup : Lookup} {item : β}
    (h : (resolved entry lookup).item = some item) :
    ∃ raw, lookup.value = some raw ∧ (Json.parse? raw).bind entry = some item := by
  unfold resolved at h
  cases hvalue : lookup.value with
  | none =>
    rw [hvalue] at h
    cases h
  | some raw =>
    rw [hvalue] at h
    refine ⟨raw, rfl, ?_⟩
    cases hentry : Json.parse? raw >>= entry with
    | none =>
      simp only [hentry] at h
      cases h
    | some found =>
      simp only [hentry] at h
      exact hentry.trans h

theorem answers_resolved {lock : Bool} {key : Key} {lookup : Lookup} (hfits : lookup.Fits lock)
    (hbrings : lookup.Brings (fun key text => ¬ s.Lacks key text) key) :
    s.Answers lock key (resolved servableItem lookup : Found α) where
  locked htoken := by
    rw [Read.token_resolved servableItem hfits] at htoken
    obtain ⟨hlock, hvalue⟩ := hfits htoken
    exact ⟨hlock, by rw [resolved, hvalue]; rfl⟩
  offered item hitem := by
    obtain ⟨raw, hvalue, hserves⟩ := item_resolved hitem
    exact ⟨raw, (hbrings raw hvalue).2, hserves⟩

end Store

namespace Session
variable {α : Type} [Cacheable α] (s : Session) (name : String) (keys : List Key) (lock : Bool)

theorem told_first {locks : List Bool} {found : List Lookup}
    (h : (s.perform (.getValues keys locks)).1 = .ok found) :
    found.length = min (s.recorder.keep.getD keys.length) keys.length ∧
      List.Forall₂ (fun key lookup => lookup.Brings (fun key text => ¬ s.store.Lacks key text) key)
        (keys.take (s.recorder.keep.getD keys.length)) found := by
  obtain ⟨all, hall, rfl, -⟩ := getValues_cut h
  rw [Store.length_getValues hall]
  refine ⟨?_, List.forall₂_take _ (Store.brings_getValues hall)⟩
  rw [List.length_take, Store.length_getValues hall]

theorem fits_told {found : List Lookup}
    (h : (s.perform (.getValues keys (keys.map fun _ => lock))).1 = .ok found) :
    ∀ lookup ∈ found, lookup.Fits lock := by
  obtain ⟨n, hfits⟩ := fits_getValues h
  rw [← List.map_take, List.forall₂_map_left_iff] at hfits
  intro lookup hmem
  obtain ⟨i, hi, rfl⟩ := List.mem_iff_getElem.1 hmem
  exact hfits.get (hfits.length_eq ▸ hi) hi

theorem getItems_unasked (ctx : Context) (h : (keys.isEmpty || skips s.policy α) = true) :
    (((getItems s.policy keys lock : Operation (List (Found α))).through ctx s).1) =
      keys.map fun _ => .miss Token.noLock := by
  unfold getItems
  simp only [h, if_true, through_pure]

/-- What a read of several items comes to, by what the store answered. -/
theorem getItems_asked (ctx : Context) (h : (keys.isEmpty || skips s.policy α) = false) :
    ((getItems s.policy keys lock : Operation (List (Found α))).through ctx s).1 =
      match (s.perform (.getValues keys (keys.map fun _ => lock))).1 with
      | .ok found => found.map (resolved servableItem)
      | .error _ => keys.map fun _ => .miss Token.noLock := by
  obtain ⟨s', -, -, -, hrun⟩ :=
    through_asking ctx s (.getValues keys (keys.map fun _ => lock)) (itemsOf (α := α) keys)
  rw [getItems_eq lock h, hrun]
  cases hanswer : (s.perform (.getValues keys (keys.map fun _ => lock))).1 with
  | error fault => exact itemsOf_error ctx keys fault s'
  | ok found =>
    have hlength : found.length ≤ keys.length := by
      rw [(told_first s keys hanswer).1]
      exact Nat.min_le_right _ _
    calc ((itemsOf keys (.ok found) : Operation (List (Found α))).through ctx s').1
        = (keys.zip found).map (resolved servableItem ∘ Prod.snd) := itemsOf_ok ..
      _ = ((keys.zip found).map Prod.snd).map (resolved servableItem) := List.map_map.symm
      _ = found.map (resolved servableItem) := by rw [List.map_snd_zip hlength]

/-- A read of an item that serves it was told of two slots, of which the second was empty. -/
theorem getItemUnlessModified_hit (ctx : Context) {key modifiedKey : Key} {item : α}
    (h : ((getItemUnlessModified s.policy key modifiedKey lock).through ctx s).1.item =
      some item) :
    ∃ lookup modified rest,
      (s.perform (.getValues [key, modifiedKey] [lock, false])).1 =
        .ok (lookup :: modified :: rest) ∧
      (resolved servableItem lookup).item = some item ∧
      modified.value = none ∧ modified.conflict = none := by
  cases hskips : skips s.policy α with
  | true =>
    unfold getItemUnlessModified at h
    rw [if_pos hskips] at h
    cases h
  | false =>
    obtain ⟨s', -, -, -, hrun⟩ := through_asking ctx s
      (.getValues [key, modifiedKey] [lock, false]) (itemUnlessModifiedOf (α := α) key modifiedKey)
    rw [getItemUnlessModified_eq key modifiedKey lock hskips, hrun] at h
    rcases hanswer : (s.perform (.getValues [key, modifiedKey] [lock, false])).1 with
      fault | (_ | ⟨lookup, _ | ⟨modified, rest⟩⟩)
    all_goals rw [hanswer] at h
    · cases h
    · cases h
    · cases h
    refine ⟨lookup, modified, rest, rfl, ?_⟩
    unfold itemUnlessModifiedOf at h
    dsimp only at h
    split at h
    · cases h
    · rename_i hmodified
      rw [Bool.not_eq_true, Bool.or_eq_false_iff, Option.isSome_eq_false_iff,
        Option.isSome_eq_false_iff, Option.isNone_iff_eq_none, Option.isNone_iff_eq_none]
        at hmodified
      exact ⟨(congrArg Found.item (run_resolve _ _ key lookup s')).symm.trans h, hmodified⟩

/-- **Which keys are answered.** A read of several items answers every key with a miss if it asks
for nothing or the store fails. Otherwise it makes one result of each lookup that it is told of, for
as many keys as the answer goes, each from the lookup of its own key. The read of an item beside its
modified key serves it only if it was told of both slots and the second is empty. -/
theorem items_answered :
    let answer := (s.perform (.getValues keys (keys.map fun _ => lock))).1
    let results := (s.run name (getItems s.policy keys lock : Operation (List (Found α)))).1
    ((keys.isEmpty || skips s.policy α) = true ∨ (∃ fault, answer = .error fault) →
      results = keys.map fun _ => .miss Token.noLock) ∧
    ((keys.isEmpty || skips s.policy α) = false → ∀ found, answer = .ok found →
      results = found.map (resolved servableItem) ∧
      results.length = min (s.recorder.keep.getD keys.length) keys.length ∧
      List.Forall₂ (s.store.Answers lock)
        (keys.take (s.recorder.keep.getD keys.length)) results) ∧
    ∀ key modifiedKey (item : α),
      (s.run name (getItemUnlessModified s.policy key modifiedKey lock)).1.item = some item →
      s.store.Offers key item ∧ ∃ lookup modified,
        (s.perform (.getValues [key, modifiedKey] [lock, false])).1 = .ok [lookup, modified] ∧
        (resolved servableItem lookup).item = some item ∧
        modified.value = none ∧ modified.conflict = none := by
  intro answer results
  refine ⟨?_, ?_, ?_⟩
  · intro hmissing
    cases hasked : keys.isEmpty || skips s.policy α with
    | true => exact getItems_unasked s keys lock _ hasked
    | false =>
      obtain ⟨fault, hfault⟩ := hmissing.resolve_left (by rw [hasked]; exact nofun)
      refine (getItems_asked s keys lock _ hasked).trans ?_
      simp only [answer] at hfault
      rw [hfault]
  · intro hasked found hfound
    obtain ⟨hlength, hbrings⟩ := told_first s keys hfound
    have hfits := fits_told s keys lock hfound
    have hresults : results = found.map (resolved servableItem) := by
      refine (getItems_asked s keys lock _ hasked).trans ?_
      simp only [answer] at hfound
      rw [hfound]
    refine ⟨hresults, ?_, ?_⟩
    · rw [hresults, List.length_map, hlength]
    · rw [hresults, List.forall₂_map_right_iff]
      refine List.forall₂_iff_get.2 ⟨hbrings.length_eq, fun i hkey hlookup => ?_⟩
      exact Store.answers_resolved (hfits _ (List.get_mem _ _)) (hbrings.get hkey hlookup)
  · intro key modifiedKey item hhit
    obtain ⟨lookup, modified, rest, hanswer, hitem, hmodified⟩ :=
      getItemUnlessModified_hit s lock _ hhit
    obtain ⟨hlength, hbrings⟩ := told_first s _ hanswer
    simp only [List.length_cons, List.length_nil] at hlength hbrings
    obtain rfl : rest = [] := List.length_eq_zero_iff.1 (by omega)
    -- Both keys were answered, so the cut is behind them.
    rw [List.take_of_length_le (by simp only [List.length_cons, List.length_nil]; omega)] at hbrings
    obtain ⟨raw, hvalue, hserves⟩ := Store.item_resolved hitem
    have hoffered := ((List.forall₂_cons.1 hbrings).1 raw hvalue).2
    exact ⟨⟨raw, hoffered, hserves⟩, lookup, modified, hanswer, hitem, hmodified⟩

/-- What a read of two items comes to on an empty store whose recorder cuts its answers. -/
def pairRead (keep : Option Nat) : List (Found Catalogue.Plain) :=
  ((Read.answering keep).run "" (getItems Catalogue.lasting ["k", "l"] false)).1

/-- The key behind the cut is not answered, not even by a miss; a whole answer has both misses. -/
theorem key_unanswered_behind_cut :
    (pairRead (some 1)).length = 1 ∧
      pairRead none = [.miss Token.noLock, .miss Token.noLock] := by
  have hcut := (items_answered (α := Catalogue.Plain) (Read.answering (some 1)) "" ["k", "l"]
    false).2.1 (by decide +kernel) [{}] (by decide +kernel)
  have hwhole := (items_answered (α := Catalogue.Plain) (Read.answering none) "" ["k", "l"]
    false).2.1 (by decide +kernel) [{}, {}] (by decide +kernel)
  exact ⟨hcut.2.1, hwhole.1⟩

end Session
end CacheCoherence
