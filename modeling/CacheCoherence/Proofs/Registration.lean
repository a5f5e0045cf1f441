import CacheCoherence.Proofs.DependencyLists
import CacheCoherence.Proofs.Memory.Covers
import CacheCoherence.Proofs.Remote.Refinement

/-!
# Registering dependents

Dependents are added to all lists of a call or to none of them. Both kinds of store decide on the
slots as the call finds them: a tombstone on any list refuses the call, then a spoiled list does,
and otherwise each list is written anew with the dependents on it. How long it is to last is decided
with it, for a list in memory by the deadline of its slot and for one on a server by the
milliseconds that the server says are left.
-/
namespace CacheCoherence

namespace Duration

/-- How long a server keeps what is to last for a length of time. -/
def onServer (d : Nat) : Nat := if d = 0 then 0 else ofMillis (serverMillis d)

theorem onServer_of_countable {d : Nat} (h : Countable d) : onServer d = d := by
  unfold onServer
  split
  · exact Eq.symm ‹d = 0›
  · exact ofMillis_serverMillis h ‹_›

theorem onServer_eq_zero_iff (d : Nat) : onServer d = 0 ↔ d = 0 := by
  unfold onServer ofMillis serverMillis perMilli
  split
  · simp [*]
  · omega

end Duration

namespace Slots

/-- Writing texts under keys, each with a lifetime of its own. A key that is listed twice is written
the same both times. -/
theorem get?_foldl_put (now : Nat) (name : Key → Key) (text : Key → String) (ttl : Key → Nat)
    (hname : Function.Injective name) (keys : List Key) (slots : Slots) (key : Key) :
    (key ∈ keys → Table.get? (keys.foldl (fun s k => put s now (name k) (text k) (ttl k)) slots)
      (name key) = some (.lasting now (text key) (ttl key))) ∧
    ∀ other, (∀ k ∈ keys, other ≠ name k) →
      Table.get? (keys.foldl (fun s k => put s now (name k) (text k) (ttl k)) slots) other =
        slots.get? other := by
  induction keys generalizing slots with
  | nil => exact ⟨fun h => (by cases h), fun _ _ => rfl⟩
  | cons first rest ih =>
    obtain ⟨hin, hout⟩ := ih (slots.put now (name first) (text first) (ttl first))
    constructor
    · intro hkey
      -- The last write to a key counts, and all of them write the same.
      by_cases hrest : key ∈ rest
      · exact hin hrest
      · obtain rfl : key = first := (List.mem_cons.1 hkey).resolve_right hrest
        have hne : ∀ k ∈ rest, name key ≠ name k := fun k hk heq => hrest (hname heq ▸ hk)
        rw [List.foldl_cons, hout _ hne, get?_put, if_pos rfl]
    · intro other hother
      rw [List.foldl_cons, hout other fun k hk => hother k (List.mem_cons_of_mem _ hk), get?_put,
        if_neg (hother first List.mem_cons_self)]

end Slots

theorem Server.slots_write_put (s : Server) (key : Key) (text : String) (ttl : Nat) :
    (s.write (.lasting key text ttl)).slots =
      s.slots.put s.now key text (Duration.onServer ttl) := by
  by_cases hzero : ttl = 0
  · subst hzero
    rfl
  · have hkept : Duration.ofMillis (Duration.serverMillis ttl) ≠ 0 := by
      have hne := mt (Duration.onServer_eq_zero_iff ttl).1 hzero
      rwa [Duration.onServer, if_neg hzero] at hne
    simp [Write.lasting, write, set, touch, Slots.put, Slot.lasting, Duration.onServer, hzero,
      hkept]

theorem Server.slots_foldl_put (name : Key → Key) (text : Key → String) (ttl : Key → Nat)
    (keys : List Key) (s : Server) :
    ((keys.map fun k => Write.lasting (name k) (text k) (ttl k)).foldl write s).slots =
      keys.foldl (fun slots k => slots.put s.now (name k) (text k) (Duration.onServer (ttl k)))
        s.slots := by
  induction keys generalizing s with
  | nil => rfl
  | cons key rest ih =>
    rw [List.map_cons, List.foldl_cons, ih, now_write, slots_write_put, List.foldl_cons]

/-- Why dependents cannot be added to lists whose slots hold these texts, if they cannot. -/
def DependencyList.refusal (held : Key → Option String) (lists : List Key) : Option Fault :=
  match lists.find? fun k => (held k).any isTombstone with
  | some key => some (.tombstoned key)
  | none => (lists.find? fun k => (held k).any isSpoiled).map .corrupt

namespace Memory
variable (m : Memory) (lists dependents : List Key) (ttl : Nat)

theorem addDependency_eq :
    m.addDependency lists dependents ttl =
      match DependencyList.refusal m.content lists with
      | some fault => { answer := .error fault, memory := m }
      | none =>
        { answer := .ok ()
          memory := { m with slots := lists.foldl (fun s k => s.put m.now k
            (DependencyList.enlarged (m.content k) dependents) (m.listTtl k ttl)) m.slots } } := by
  have hextended : m.extended dependents ttl = fun k =>
      if (m.content k).any DependencyList.isSpoiled then .error (.corrupt k)
      else .ok (k, DependencyList.enlarged (m.content k) dependents, m.listTtl k ttl) := by
    funext k
    unfold extended listText
    rw [DependencyList.merge_of_slot]
    split <;> rfl
  unfold addDependency DependencyList.refusal
  rw [hextended, mapM_guarded]
  cases lists.find? fun k => (m.content k).any isTombstone with
  | some key => rfl
  | none =>
    cases lists.find? fun k => (m.content k).any DependencyList.isSpoiled with
    | some key => rfl
    | none => simp only [List.foldl_map, Option.map_none]

end Memory

namespace RemoteStore
variable (cfg : RemoteSettings) (lists dependents : List Key) (ttl : Nat) (s : Server)

/-- The write of one list with dependents added, if its slot is not spoiled. -/
def enlargement (key : Key) : Write :=
  .lasting (cfg.serverKey key)
    (DependencyList.enlarged (s.content (cfg.serverKey key)) dependents)
    (listTtl (s.lifetime (cfg.serverKey key)) ttl)

theorem extendPlan_eq :
    extendPlan cfg lists dependents ttl s =
      match DependencyList.refusal (fun k => s.content (cfg.serverKey k)) lists with
      | some fault => { writes := [], answer := .error fault }
      | none => { writes := lists.map (enlargement cfg dependents ttl s), answer := .ok () } := by
  have hextended : extended cfg dependents ttl s = fun k =>
      if (s.content (cfg.serverKey k)).any DependencyList.isSpoiled then .error (.corrupt k)
      else .ok (enlargement cfg dependents ttl s k) := by
    funext k
    unfold extended extension listText enlargement
    rw [DependencyList.merge_of_slot]
    split <;> rfl
  unfold extendPlan DependencyList.refusal
  rw [hextended, mapM_guarded]
  cases lists.find? fun k => (s.content (cfg.serverKey k)).any isTombstone with
  | some key => rfl
  | none =>
    cases lists.find? fun k =>
      (s.content (cfg.serverKey k)).any DependencyList.isSpoiled <;> rfl

/-- A transaction between whose commands no other client writes carries out its plan for the state
in which it finds the server. -/
theorem Transacts.undisturbed {A : Type} {p : RemoteProgram A} {plan : Nat → Server → Plan A}
    {refused : A × List Event} (h : Transacts p plan refused)
    (hplan : ∀ issued s s', s.Alike s' → plan issued s = plan issued s') {r : Remote}
    (hcalm : r.exchange.failures = []) (hnone : ∀ w, .other w ∉ trace p r) :
    (p.run Remote.answer r).1 = (plan r.issued r.exchange.server).answer ∧
      (p.run Remote.answer r).2.exchange.server.Alike
        ((plan r.issued r.exchange.server).writes.foldl Server.write r.exchange.server) := by
  obtain ⟨hs, e, htransacted⟩ := h ⟨r, []⟩ hcalm
  obtain ⟨hs', hlog, -, hserver, -⟩ :=
    Observed.run_accounts (P := fun _ => True) p (o := ⟨r, []⟩) hcalm fun _ _ _ _ => trivial
  obtain rfl : hs' = hs := List.append_cancel_left (hlog.symm.trans htransacted.log)
  obtain ⟨hresult, hremote⟩ := Observed.run_answer p ⟨r, []⟩
  have htrace : trace p r = hs' := hlog
  rw [htrace] at hnone
  -- The transaction decides at some instant of the call, when the server is still as it was found.
  obtain ⟨s, rfl, halike, hfinal⟩ := htransacted.settled.alone hnone
  have hdecided : plan r.issued s = plan r.issued r.exchange.server := hplan _ _ _ halike
  have hanswer := htransacted.answer
  rw [Option.elim_some] at hanswer
  refine ⟨?_, ?_⟩
  · exact (hresult.symm.trans hanswer).trans (congrArg Plan.answer hdecided)
  · rw [← hremote, ← hdecided]
    exact hfinal ▸ hserver

end RemoteStore

namespace Store

def slotName : Store → Key → Key
  | memory _ _, key => key
  | remote cfg _ _, key => cfg.serverKey key

/-- All slots of a store, under their names. -/
def slots : Store → Slots
  | memory _ m => m.slots
  | remote _ _ r => r.exchange.server.slots

/-- The live text of a key. -/
def held (s : Store) (key : Key) : Option String := s.slots.content s.now (s.slotName key)

/-- How long a store keeps what is to last for a length of time. -/
def kept (d : Nat) : Store → Nat
  | memory _ _ => d
  | remote _ _ _ => Duration.onServer d

/-- How long a dependency list is to last to which dependents are added. -/
def listTtl (key : Key) (ttl : Nat) : Store → Nat
  | memory _ m => m.listTtl key ttl
  | remote cfg _ r => RemoteStore.listTtl (r.exchange.server.lifetime (cfg.serverKey key)) ttl

/-- During a call neither the server fails nor does another client write. -/
def Undisturbed (c : Call) : Store → Prop
  | memory _ _ => True
  | remote cfg rules r =>
    r.exchange.failures = [] ∧
      ∀ w, .other w ∉ RemoteStore.trace
        (RemoteStore.perform cfg rules r.exchange.scanRounds c) r

/-- A store holds these slots at the instant and under the names of another store. -/
structure Holds (s : Store) (slots : Slots) (s' : Store) : Prop where
  slots : s'.slots = slots
  now : s'.now = s.now
  slotName : s'.slotName = s.slotName

theorem slotName_injective (s : Store) : Function.Injective s.slotName := by
  cases s with
  | memory cfg m => exact fun _ _ h => h
  | remote cfg rules r => exact fun _ _ h => cfg.serverKey_injective h

theorem undisturbed_of_alone {cfg : RemoteSettings} {rules : Rules} {r : Remote}
    (h : Observed.Alone ⟨r, []⟩) (c : Call) : (remote cfg rules r).Undisturbed c := by
  obtain ⟨hs, hlog, -, -, hnone⟩ :=
    h.run (RemoteStore.perform cfg rules r.exchange.scanRounds c)
  have htrace : RemoteStore.trace
      (RemoteStore.perform cfg rules r.exchange.scanRounds c) r = hs := hlog
  exact ⟨h.calm, fun w hw => hnone w (htrace ▸ hw)⟩

theorem Alongside.undisturbed {cfg : RemoteSettings} {rules : Rules} {mcfg : MemorySettings}
    {a b : Store} (h : Alongside cfg rules mcfg a b) (c : Call) : b.Undisturbed c := by
  cases h with
  | intro h hevents => exact undisturbed_of_alone h.alone c

section Registration
variable (s : Store) (lists dependents : List Key) (ttl : Nat)

/-- The slots after the dependents were added to every list. -/
def registered : Slots :=
  lists.foldl (fun slots k => slots.put s.now (s.slotName k)
    (DependencyList.enlarged (s.held k) dependents) (s.kept (s.listTtl k ttl))) s.slots

/-- What the call that adds dependents to lists comes to: its answer and the slots after it. -/
def registration : Except Fault Unit × Slots :=
  match DependencyList.refusal s.held lists with
  | some fault => (.error fault, s.slots)
  | none => (.ok (), s.registered lists dependents ttl)

/-- Both kinds of store add dependents to lists in the same way. -/
theorem perform_addDependency (h : s.Undisturbed (.addDependency lists dependents ttl)) :
    (s.perform (.addDependency lists dependents ttl)).1 =
        (s.registration lists dependents ttl).1 ∧
      s.Holds (s.registration lists dependents ttl).2
        (s.perform (.addDependency lists dependents ttl)).2.1 := by
  cases s with
  | memory cfg m =>
    change (m.addDependency lists dependents ttl).answer = _ ∧
      Holds _ _ (.memory cfg (m.addDependency lists dependents ttl).memory)
    rw [m.addDependency_eq, registration]
    have hheld : DependencyList.refusal (memory cfg m).held lists =
        DependencyList.refusal m.content lists := rfl
    rw [hheld]
    cases DependencyList.refusal m.content lists <;> exact ⟨rfl, rfl, rfl, rfl⟩
  | remote cfg rules r =>
    obtain ⟨hcalm, hnone⟩ := h
    have hplan : (RemoteStore.extendPlan cfg lists dependents ttl r.exchange.server).answer =
        ((remote cfg rules r).registration lists dependents ttl).1 ∧
        ((RemoteStore.extendPlan cfg lists dependents ttl r.exchange.server).writes.foldl
          Server.write r.exchange.server).slots =
          ((remote cfg rules r).registration lists dependents ttl).2 := by
      rw [RemoteStore.extendPlan_eq, registration]
      have hheld : DependencyList.refusal (remote cfg rules r).held lists =
          DependencyList.refusal (fun k => r.exchange.server.content (cfg.serverKey k)) lists := rfl
      rw [hheld]
      cases DependencyList.refusal (fun k => r.exchange.server.content (cfg.serverKey k)) lists with
      | some fault => exact ⟨rfl, rfl⟩
      | none => exact ⟨rfl, Server.slots_foldl_put _ _ _ lists r.exchange.server⟩
    have hdone : (Program.run Remote.answer
        (RemoteStore.addDependency cfg lists dependents ttl).run r).1 =
          (RemoteStore.extendPlan cfg lists dependents ttl r.exchange.server).answer ∧
        (Program.run Remote.answer
          (RemoteStore.addDependency cfg lists dependents ttl).run r).2.exchange.server.Alike
          ((RemoteStore.extendPlan cfg lists dependents ttl r.exchange.server).writes.foldl
            Server.write r.exchange.server) := by
      by_cases hlists : lists = []
      · subst hlists
        exact ⟨rfl, .refl _⟩
      · exact (RemoteStore.addDependency_transacts lists dependents ttl hlists).undisturbed
          (fun _ _ _ halike => RemoteStore.extendPlan_congr (halike.agreesOn _) dependents ttl)
          hcalm hnone
    exact ⟨hdone.1.trans hplan.1, hdone.2.slots.trans hplan.2,
      hdone.2.now.trans (Server.now_foldl_write _ _), rfl⟩

theorem registered_slot {key : Key} (hkey : key ∈ lists) :
    Table.get? (s.registered lists dependents ttl) (s.slotName key) =
      some (.lasting s.now (DependencyList.enlarged (s.held key) dependents)
        (s.kept (s.listTtl key ttl))) :=
  (Slots.get?_foldl_put s.now s.slotName (fun k => DependencyList.enlarged (s.held k) dependents)
    (fun k => s.kept (s.listTtl k ttl)) s.slotName_injective lists s.slots key).1 hkey

theorem registered_rest {name : Key} (hname : ∀ k ∈ lists, name ≠ s.slotName k) :
    Table.get? (s.registered lists dependents ttl) name = s.slots.get? name :=
  (Slots.get?_foldl_put s.now s.slotName (fun k => DependencyList.enlarged (s.held k) dependents)
    (fun k => s.kept (s.listTtl k ttl)) s.slotName_injective lists s.slots name).2 name hname

/-- **All or nothing.** On every store, whatever the lists and the dependents, and however often a
list is named: the first list with a tombstone on it refuses the call, and where there is none the
first spoiled list does, and then every slot is as it was. Otherwise each list holds what it held
before, or nothing if its slot was empty, expired or a token, and the dependents besides, and every
other slot is as it was. -/
theorem dependents_added_to_all_or_none (h : s.Undisturbed (.addDependency lists dependents ttl)) :
    let done := s.perform (.addDependency lists dependents ttl)
    let tombstoned := lists.find? fun k => (s.held k).any isTombstone
    let spoiled := lists.find? fun k => (s.held k).any DependencyList.isSpoiled
    (∀ key, tombstoned = some key →
      done.1 = .error (.tombstoned key) ∧ done.2.1.slots = s.slots) ∧
    (tombstoned = none → ∀ key, spoiled = some key →
      done.1 = .error (.corrupt key) ∧ done.2.1.slots = s.slots) ∧
    (tombstoned = none → spoiled = none →
      done.1 = .ok () ∧
      (∀ key ∈ lists, done.2.1.held key = some (DependencyList.encode
        ((DependencyList.members (s.held key)).addAll dependents))) ∧
      ∀ name, (∀ key ∈ lists, name ≠ s.slotName key) →
        done.2.1.slots.get? name = s.slots.get? name) := by
  obtain ⟨hanswer, hslots, hnow, hname⟩ := s.perform_addDependency lists dependents ttl h
  dsimp only
  rw [hanswer, hslots]
  unfold registration DependencyList.refusal
  refine ⟨fun key htomb => ?_, fun htomb key hspoiled => ?_, fun htomb hspoiled => ?_⟩
  · rw [htomb]
    exact ⟨rfl, rfl⟩
  · rw [htomb, hspoiled]
    exact ⟨rfl, rfl⟩
  · have hgranted : DependencyList.refusal s.held lists = none := by
      rw [DependencyList.refusal, htomb, hspoiled]
      rfl
    rw [htomb, hspoiled]
    refine ⟨rfl, fun key hkey => ?_, fun name hname => s.registered_rest lists dependents ttl hname⟩
    rw [registration, hgranted] at hslots
    rw [held, hslots, hnow, hname, Slots.content,
      Slots.live?_of_get?_lasting (s.registered_slot lists dependents ttl hkey)]
    rfl

end Registration

section Example

/-- A list, a lock, and a value that is no list. -/
def shelving : List StoreStep :=
  [.call (.addDependency ["d"] ["x"] 0), .call (.writeToken .update ["l"]),
    .call (.writeToken .update ["v"]),
    .call (.setValue "v" ["v"] "[1]" (Token.issue LockKind.update.name 1) 0)]

def shelf : Store := (Store.remote RemoteStore.rooted Rules.standard {}).after shelving

theorem alongside_shelf : Alongside RemoteStore.rooted Rules.standard {}
    ((Store.memory {} {}).after shelving) shelf := by
  have hcommon : ∀ e ∈ shelving, e.Common := by
    intro e he
    simp only [shelving, List.mem_cons, List.not_mem_nil, or_false] at he
    rcases he with rfl | rfl | rfl | rfl
    · exact ⟨0, by decide, rfl⟩
    · trivial
    · trivial
    · exact ⟨0, by decide, rfl⟩
  exact (Alongside.start _ _ _).after RemoteStore.sameSettings_rooted (by decide) hcommon

/-- The list named twice keeps its member and gains one, and the locked slot becomes a list. With
the value among the lists, the call is refused and the list stays as it was. -/
theorem dependents_added_on_shelf :
    let done := shelf.perform (.addDependency ["d", "l", "d"] ["y"] 0)
    let refused := shelf.perform (.addDependency ["d", "v"] ["y"] 0)
    done.1 = .ok () ∧ done.2.1.held "d" = some "[\"x\",\"y\"]" ∧
      done.2.1.held "l" = some "[\"y\"]" ∧
      refused.1 = .error (.corrupt "v") ∧ refused.2.1.slots = shelf.slots := by
  obtain ⟨-, -, hdone⟩ := shelf.dependents_added_to_all_or_none ["d", "l", "d"] ["y"] 0
    (alongside_shelf.undisturbed _)
  obtain ⟨-, hrefused, -⟩ := shelf.dependents_added_to_all_or_none ["d", "v"] ["y"] 0
    (alongside_shelf.undisturbed _)
  obtain ⟨hok, hheld, -⟩ := hdone (by decide +kernel) (by decide +kernel)
  refine ⟨hok, (hheld "d" (by decide)).trans ?_, (hheld "l" (by decide)).trans ?_,
    hrefused (by decide +kernel) "v" (by decide +kernel)⟩
  · decide +kernel
  · decide +kernel

end Example

end Store
end CacheCoherence
