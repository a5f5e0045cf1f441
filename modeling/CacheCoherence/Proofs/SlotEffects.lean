import CacheCoherence.Proofs.Turns

/-!
# Slots under single calls

What a call to a store of either kind does to the slots, if it runs whole. A reading leaves every
text where it stands, and what it finds stands there before and after. A write that is reported to
be stored stands under every key of the call. A forced removal empties the slots of its keys,
whatever they hold, and leaves all others as they are. A flush does so with the slots under its
root, in which it may spare the tombstones.
-/
namespace CacheCoherence

def Call.Reads : Call → Prop
  | .getValue .. | .getValues .. => True
  | _ => False

namespace Memory
variable (cfg : MemorySettings) {m : Memory} {slot : Key} {text : String}

theorem content_lookup (key : Key) (lock : Bool) (h : m.content slot = some text) :
    (m.lookup cfg key lock).2.content slot = some text := by
  have hfull : ¬ (slot = key ∧ lock = true ∧ m.content key = none) := by
    rintro ⟨rfl, -, hempty⟩
    exact Option.some_ne_none text (h.symm.trans hempty)
  rwa [content_of_live? ((live?_lookup cfg m key lock slot).trans (if_neg hfull))]

theorem content_lookups (entries : List (Key × Bool)) (h : m.content slot = some text) :
    (lookups cfg entries m).2.content slot = some text := by
  induction entries generalizing m with
  | nil => exact h
  | cons entry rest ih => exact ih (content_lookup cfg _ _ h)

end Memory

namespace RemoteCall
open Observed
variable {α β : Type} {p : RemoteCall α}

/-- A call leaves a text where it stands, as long as nobody else writes. -/
def Keeps (p : RemoteCall α) : Prop :=
  ∀ (o : Observed) slot text, o.Alone → o.server.content slot = some text →
    (p.on o).2.server.content slot = some text

theorem keeps_of_alone (h : ∀ o : Observed, o.Alone → ∃ a o', p.on o = (.ok a, o') ∧
    o.Undisturbed o.server o') : p.Keeps := by
  intro o slot text ho hcontent
  obtain ⟨a, o', hrun, hundisturbed⟩ := h o ho
  rwa [hrun, hundisturbed.server]

theorem keeps_get (key : Key) : (get key).Keeps :=
  keeps_of_alone fun _ ho => ⟨_, on_get_alone ho key⟩

theorem keeps_getMany (keys : List Key) : (getMany keys).Keeps :=
  keeps_of_alone fun _ ho => ⟨_, on_getMany_alone ho keys⟩

theorem keeps_setIfAbsent (key : Key) (text : String) (px : Nat) :
    (setIfAbsent key text px).Keeps := by
  intro o slot found ho hcontent
  obtain ⟨o', hrun, hundisturbed⟩ := on_setIfAbsent_alone ho key text px
  rw [hrun, hundisturbed.server, Server.setIfAbsent]
  split
  · exact hcontent
  · rename_i habsent
    change (o.server.write (.set key text (some px))).content slot = some found
    rw [Server.content_eq_live?, Server.live?_write_of_ne, ← Server.content_eq_live?, hcontent]
    rintro rfl
    exact habsent (hcontent ▸ rfl)

theorem Keeps.bind {f : α → RemoteCall β} (hp : p.Keeps) (hf : ∀ a, (f a).Keeps) :
    (p >>= f).Keeps := by
  intro o slot text ho hcontent
  obtain ⟨-, -, halone, -⟩ := ho.run p.run
  rcases on_bind_cases p f o with ⟨a, -, hrun⟩ | ⟨fault, hrun⟩
  · rw [hrun]
    exact hf a _ slot text halone (hp o slot text ho hcontent)
  · rw [hrun]
    exact hp o slot text ho hcontent

theorem keeps_pure (a : α) : (pure a : RemoteCall α).Keeps := fun _ _ _ _ hcontent => hcontent

theorem keeps_throw (fault : Fault) : (throw fault : RemoteCall α).Keeps :=
  fun _ _ _ _ hcontent => hcontent

theorem keeps_issue (tag : String) : (issue tag).Keeps := fun _ _ _ _ hcontent => hcontent

end RemoteCall

namespace RemoteStore
open RemoteCall
variable (cfg : RemoteSettings)

theorem keeps_resolve (target : Key) (raw : Option String) (lock : Bool) :
    (resolve cfg target raw lock).Keeps := by
  unfold resolve
  split
  · exact keeps_pure _
  refine (keeps_issue _).bind fun token => (keeps_setIfAbsent _ _ _).bind fun taken => ?_
  cases taken with
  | true => exact keeps_pure _
  | false => exact (keeps_get target).bind fun raw => keeps_pure _

theorem keeps_getValue (key : Key) (lock : Bool) : (getValue cfg key lock).Keeps :=
  (keeps_get _).bind fun raw => keeps_resolve cfg _ raw lock

theorem keeps_resolveAll (entries : List (Key × Option String × Bool)) :
    (resolveAll cfg entries).Keeps := by
  induction entries with
  | nil => exact keeps_pure _
  | cons entry rest ih =>
    exact (keeps_resolve cfg _ _ _).bind fun _ => ih.bind fun _ => keeps_pure _

theorem keeps_getValues (keys : List Key) (locks : List Bool) :
    (getValues cfg keys locks).Keeps := by
  unfold getValues
  split
  · exact keeps_throw _
  split
  · exact keeps_pure _
  · exact (keeps_getMany _).bind fun current => keeps_resolveAll cfg _

end RemoteStore

namespace Store
variable {s : Store} {c : Call} {key : Key} {keys : List Key} {text : String}

theorem held_remote_of_keeps {cfg : RemoteSettings} {rules : Rules} {r : Remote} {α : Type}
    {p : RemoteCall α} (hp : p.Keeps) (h : Observed.Alone ⟨r, []⟩)
    (hheld : (remote cfg rules r).held key = some text) :
    (Program.run Remote.answer p.run r).2.exchange.server.content (cfg.serverKey key) =
      some text := by
  have hkept := hp ⟨r, []⟩ (cfg.serverKey key) text h hheld
  have hremote := (Observed.run_answer p.run ⟨r, []⟩).2
  change (Program.run Observed.answer p.run ⟨r, []⟩).2.remote.exchange.server.content _ = _ at hkept
  rwa [hremote] at hkept

theorem Alone.held_of_reads (h : s.Alone) (hc : c.Reads) (hheld : s.held key = some text) :
    (s.perform c).2.1.held key = some text := by
  cases s with
  | memory cfg m =>
    cases c with
    | getValue k lock => exact Memory.content_lookup cfg k lock hheld
    | getValues ks locks =>
      change (m.getValues cfg ks locks).memory.content key = some text
      unfold Memory.getValues
      split
      · exact Memory.content_lookups cfg (ks.zip locks) hheld
      · exact hheld
    | _ => exact hc.elim
  | remote cfg rules r =>
    cases c with
    | getValue k lock =>
      exact held_remote_of_keeps (p := RemoteStore.getValue cfg k lock)
        (RemoteStore.keeps_getValue cfg k lock) h hheld
    | getValues ks locks =>
      exact held_remote_of_keeps (p := RemoteStore.getValues cfg ks locks)
        (RemoteStore.keeps_getValues cfg ks locks) h hheld
    | _ => exact hc.elim

/-- Where nobody else is to write, a text that may stand in a slot does. -/
theorem Alone.held_of_not_lacks (h : s.Alone) (hnot : ¬ s.Lacks key text) :
    s.held key = some text := by
  by_contra hheld
  refine hnot ⟨hheld, ?_⟩
  cases s with
  | memory cfg m => trivial
  | remote cfg rules r => exact fun race hrace w hw => (h.others race hrace w hw).elim

theorem Alone.held_of_found (h : s.Alone) (hmem : (key, text) ∈ c.found (s.perform c).1) :
    isToken text = false ∧ s.held key = some text ∧
      (s.perform c).2.1.held key = some text := by
  have hbrings : c.Reads ∧ isToken text = false ∧ ¬ s.Lacks key text := by
    cases c with
    | getValue k lock =>
      cases hanswer : (s.perform (.getValue k lock)).1 with
      | error fault =>
        rw [hanswer] at hmem
        cases hmem
      | ok lookup =>
        rw [hanswer] at hmem
        obtain ⟨raw, hraw, heq⟩ := List.mem_map.1 hmem
        cases heq
        exact ⟨trivial, brings_getValue hanswer text (Option.mem_toList.1 hraw)⟩
    | getValues ks locks =>
      cases hanswer : (s.perform (.getValues ks locks)).1 with
      | error fault =>
        rw [hanswer] at hmem
        cases hmem
      | ok found =>
        rw [hanswer] at hmem
        obtain ⟨slot, hslot, hraw⟩ := List.mem_flatMap.1 hmem
        obtain ⟨raw, hraw, heq⟩ := List.mem_map.1 hraw
        cases heq
        exact ⟨trivial, (List.forall₂_iff_zip.1 (brings_getValues hanswer)).2 hslot text
          (Option.mem_toList.1 hraw)⟩
    | _ => cases hmem
  obtain ⟨hreads, htext, hnot⟩ := hbrings
  have hheld := h.held_of_not_lacks hnot
  exact ⟨htext, hheld, h.held_of_reads hreads hheld⟩

/-- A value that was stored stands under every key of its call. -/
theorem Undisturbed.held_of_stored {lockKey : Key} {token : Token} {ttl : Nat} {result : SetResult}
    (h : s.Undisturbed (.setValue lockKey keys text token ttl))
    (hanswer : (s.perform (.setValue lockKey keys text token ttl)).1 = .ok result)
    (hstored : result.stored = true) (hkey : key ∈ keys) :
    (s.perform (.setValue lockKey keys text token ttl)).2.1.held key = some text := by
  cases s with
  | memory cfg m =>
    exact Memory.content_of_live?_lasting
      (Memory.live?_setValue_of_stored cfg _ _ _ hanswer hstored hkey)
  | remote cfg rules r =>
    have htoken : token ≠ Token.noLock := by
      rintro rfl
      cases hanswer
      cases hstored
    obtain ⟨hdecided, halike⟩ :=
      (RemoteStore.setValue_transacts lockKey keys text ttl htoken).undisturbed
        (fun _ _ _ halike => RemoteStore.setPlan_congr (halike.agreesOn _) text token ttl) h.1 h.2
    -- The plan that was carried out is the one whose answer says that the value is stored.
    have hset : (rules.decide (r.exchange.server.content (cfg.serverKey lockKey)) text
        token).set = true := by
      have hresult : (.ok result : Except Fault SetResult) = _ := hanswer.symm.trans hdecided
      rwa [Except.ok.inj hresult] at hstored
    have hslot := (Slots.get?_foldl_put r.exchange.server.now cfg.serverKey (fun _ => text)
      (fun _ => Duration.onServer ttl) (fun _ _ => cfg.serverKey_injective) keys
      r.exchange.server.slots key).1 hkey
    rw [← Server.slots_foldl_put cfg.serverKey (fun _ => text) (fun _ => ttl)] at hslot
    refine (halike.content (cfg.serverKey key)).trans ?_
    simp only [RemoteStore.setPlan, hset, if_true]
    rw [Server.content_eq_live?, Server.live?, Server.now_foldl_write,
      Slots.live?_of_get?_lasting hslot]
    rfl

theorem Alone.held_of_written (h : s.Alone) (hmem : (key, text) ∈ c.written (s.perform c).1) :
    (s.perform c).2.1.held key = some text := by
  cases c with
  | setValue lockKey ks value token ttl =>
    cases hanswer : (s.perform (.setValue lockKey ks value token ttl)).1 with
    | error fault =>
      rw [hanswer] at hmem
      cases hmem
    | ok result =>
      rw [hanswer] at hmem
      change (key, text) ∈ if result.stored then ks.map fun k => (k, value) else [] at hmem
      split at hmem
      · rename_i hstored
        obtain ⟨k, hk, heq⟩ := List.mem_map.1 hmem
        cases heq
        exact (h.undisturbed _).held_of_stored hanswer hstored hk
      · cases hmem
  | _ => cases hmem

/-- Nothing was changed but that the slots of some keys are empty. -/
structure Emptied (s : Store) (keys : List Key) (s' : Store) : Prop where
  now : s'.now = s.now
  slots : ∀ name, s'.live? name = if name ∈ keys.map s.slotName then none else s.live? name

/-- A forced removal looks at no slot: it empties those of its keys. -/
theorem Undisturbed.emptied (h : s.Undisturbed (.deleteValue keys false true)) :
    (s.perform (.deleteValue keys false true)).1 = .ok () ∧
      s.Emptied keys (s.perform (.deleteValue keys false true)).2.1 := by
  cases s with
  | memory cfg m =>
    refine ⟨rfl, rfl, fun name => ?_⟩
    have hname : name ∈ keys.map (memory cfg m).slotName ↔ name ∈ keys := by simp [slotName]
    simp only [hname]
    exact Memory.live?_deleteValue_forced cfg m keys false name
  | remote cfg rules r =>
    by_cases hkeys : keys = []
    · subst hkeys
      exact ⟨rfl, rfl, fun _ => rfl⟩
    obtain ⟨hanswer, halike⟩ :=
      (RemoteStore.deleteValue_transacts keys false true hkeys).undisturbed
        (fun _ _ _ halike => RemoteStore.deletePlan_congr (halike.agreesOn _) false true) h.1 h.2
    have hwrites : (RemoteStore.deletePlan cfg keys false true r.exchange.server).writes =
        (keys.map cfg.serverKey).map Write.delete := by
      simp [RemoteStore.deletePlan, RemoteStore.invalidation]
    rw [hwrites] at halike
    refine ⟨hanswer, ?_, fun name => ?_⟩
    · exact halike.now.trans (Server.now_foldl_write _ _)
    · refine (halike.live? name).trans ?_
      rw [← Server.foldl_delete]
      exact Server.live?_foldl_delete _ _ name

/-- A flush empties every slot under its root, apart from tombstones if it is to keep them. -/
theorem Alone.flushed (h : s.Alone) (root : String) (tombstones : Bool) :
    (s.perform (.flush root tombstones)).1 = .ok () ∧
      ∀ key, (s.perform (.flush root tombstones)).2.1.live? (s.slotName key) =
        if isUnder root key = true ∧
          (tombstones = true ∨ s.held key ≠ some Token.tombstone) then none
        else s.live? (s.slotName key) := by
  cases s with
  | memory cfg m =>
    refine ⟨rfl, fun key => (Memory.live?_flush m root tombstones key).trans ?_⟩
    exact Memory.filter_spared tombstones (isUnder root key) (m.live? key)
  | remote cfg rules r =>
    obtain ⟨o, hflush, -, -, -, hlive⟩ :=
      on_flush tombstones cfg h r.exchange.scanRounds root r.exchange.lt_scanRounds
    obtain ⟨hanswer, hremote⟩ := Observed.run_answer
      (RemoteStore.perform cfg rules r.exchange.scanRounds (.flush root tombstones)) ⟨r, []⟩
    have hrun : Program.run Observed.answer
        (RemoteStore.perform cfg rules r.exchange.scanRounds (.flush root tombstones)) ⟨r, []⟩ =
          (.ok (), o) := hflush
    rw [hrun] at hanswer hremote
    refine ⟨hanswer.symm, fun key => ?_⟩
    change (Program.run Remote.answer (RemoteStore.perform cfg rules r.exchange.scanRounds
      (.flush root tombstones)) r).2.exchange.server.live? (cfg.serverKey key) = _
    rw [← hremote]
    refine (hlive (cfg.serverKey key)).trans ?_
    rw [spared?, matchesText_scanPattern]
    exact Memory.filter_spared tombstones (isUnder root key) _

end Store
end CacheCoherence
