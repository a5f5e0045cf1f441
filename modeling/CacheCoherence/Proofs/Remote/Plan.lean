import CacheCoherence.Proofs.Remote.Mirror
import Mathlib.Data.List.Find

/-!
# What transactions decide

A transaction reads slots, decides, and writes. What it decides is a function of the state of the
server that it read: its plan, which lists the writes, the answer, how many tokens are made on the
way and what is logged. A plan depends on the slots that its transaction watches, and on no others.
On a server that mirrors a store in memory, the plan of each transaction answers as the store in
memory does, and its writes leave a server that mirrors what the store in memory comes to.
-/
namespace CacheCoherence

/-- What a transaction decides. -/
structure Plan (A : Type) where
  writes : List Write
  answer : A
  /-- How many tokens are made. -/
  tokens : Nat := 0
  events : List Event := []

namespace RemoteStore
variable (cfg : RemoteSettings) (rules : Rules)

def setPlan (lockKey : Key) (keys : List Key) (value : String) (token : Token) (ttl : Nat)
    (s : Server) : Plan (Except Fault SetResult) :=
  let decision := rules.decide (s.content (cfg.serverKey lockKey)) value token
  { writes :=
      if decision.set then keys.map fun k => .lasting (cfg.serverKey k) value ttl
      else if decision.clear then [.delete (cfg.serverKey lockKey)]
      else []
    answer := .ok ⟨decision.set, decision.conflict⟩
    events := if decision.conflict then [.setConflict lockKey token decision.refresh] else [] }

def deletePlan (keys : List Key) (tombstone force : Bool) (s : Server) :
    Plan (Except Fault Unit) :=
  { writes := (keys.filter fun k => force || !(s.content (cfg.serverKey k)).any isToken).map
      fun k => invalidation cfg tombstone (cfg.serverKey k)
    answer := .ok () }

/-- Conflict markers under keys, numbered from `n` on. -/
def markings (n : Nat) : List Key → List Write
  | [] => []
  | key :: rest =>
    .lasting (cfg.serverKey key) (Token.issue Token.conflictTag n) cfg.lockTtl ::
      markings (n + 1) rest

def refusing (token : Token) (keys : List Key) (s : Server) : List Key :=
  keys.filter fun k =>
    !(rules.always token || rules.admits (s.content (cfg.serverKey k)) token)

/-- The keys that do not admit a token and are to be marked. -/
def rivals (token : Token) (keys : List Key) (s : Server) : List Key :=
  (refusing cfg rules token keys s).filter fun k => collides (s.content (cfg.serverKey k)) token

def claimPlan (issued : Nat) (kind : LockKind) (keys : List Key) (s : Server) :
    Plan (Except Fault Token) :=
  let token := Token.issue kind.name issued
  let granted := (refusing cfg rules token keys s).isEmpty
  { writes := markings cfg (issued + 1) (rivals cfg rules token keys s) ++
      (if granted then keys.map fun k => .lasting (cfg.serverKey k) token cfg.lockTtl else [])
    answer := .ok (if granted then token else Token.noLock)
    tokens := 1 + (rivals cfg rules token keys s).length
    events := if granted then [] else [.claimContended kind keys] }

def releasePlan (keys : List Key) (token : Token) (s : Server) : Plan Unit :=
  { writes := (keys.filter fun k => s.content (cfg.serverKey k) = some token).map
      fun k => .delete (cfg.serverKey k)
    answer := () }

def extended (dependents : List Key) (ttl : Nat) (s : Server) (key : Key) : Except Fault Write :=
  extension dependents ttl
    ((key, cfg.serverKey key), s.content (cfg.serverKey key), s.lifetime (cfg.serverKey key))

def extendPlan (lists dependents : List Key) (ttl : Nat) (s : Server) :
    Plan (Except Fault Unit) :=
  match lists.find? fun k => (s.content (cfg.serverKey k)).any isTombstone with
  | some key => { writes := [], answer := .error (.tombstoned key) }
  | none =>
    match lists.mapM (extended cfg dependents ttl s) with
    | .error fault => { writes := [], answer := .error fault }
    | .ok writes => { writes, answer := .ok () }

/-- What a slot spells as a dependency list; a slot without a list spells the empty one. -/
def decoded (key : Key) (s : Server) : Except Fault KeySet :=
  match listText (s.content (cfg.serverKey key)) with
  | some raw => DependencyList.decode key raw
  | none => .ok .empty

def clearPlan (key : Key) (tombstone : Bool) (s : Server) : Plan (Except Fault Unit) :=
  let listed := match decoded cfg key s with
    | .ok set => set.keys
    | .error _ => []
  { writes := (listed ++ [key]).map fun k => invalidation cfg tombstone (cfg.serverKey k)
    answer := (decoded cfg key s).map fun _ => ()
    events := match decoded cfg key s with
      | .ok _ => []
      | .error _ => [.dependenciesCorrupt key] }

section Agreement
variable {cfg rules} {s s' : Server} {keys : List Key}

/-! Each plan depends on the slots under the keys that its transaction watches, and on no others. -/

theorem setPlan_congr {lockKey : Key} (h : s.AgreesOn [cfg.serverKey lockKey] s') (value : String)
    (token : Token) (ttl : Nat) :
    setPlan cfg rules lockKey keys value token ttl s =
      setPlan cfg rules lockKey keys value token ttl s' := by
  unfold setPlan
  rw [h.content List.mem_cons_self]

theorem deletePlan_congr (h : s.AgreesOn (keys.map cfg.serverKey) s') (tombstone force : Bool) :
    deletePlan cfg keys tombstone force s = deletePlan cfg keys tombstone force s' := by
  unfold deletePlan
  rw [List.filter_congr fun k hk => by rw [h.content (List.mem_map_of_mem hk)]]

theorem refusing_congr (h : s.AgreesOn (keys.map cfg.serverKey) s') (token : Token) :
    refusing cfg rules token keys s = refusing cfg rules token keys s' :=
  List.filter_congr fun k hk => by rw [h.content (List.mem_map_of_mem hk)]

theorem claimPlan_congr (h : s.AgreesOn (keys.map cfg.serverKey) s') (issued : Nat)
    (kind : LockKind) :
    claimPlan cfg rules issued kind keys s = claimPlan cfg rules issued kind keys s' := by
  have hrivals : rivals cfg rules (Token.issue kind.name issued) keys s =
      rivals cfg rules (Token.issue kind.name issued) keys s' := by
    unfold rivals
    rw [refusing_congr h]
    refine List.filter_congr fun k hk => ?_
    rw [h.content (List.mem_map_of_mem (List.mem_filter.1 hk).1)]
  simp only [claimPlan, hrivals, refusing_congr h]

theorem releasePlan_congr (h : s.AgreesOn (keys.map cfg.serverKey) s') (token : Token) :
    releasePlan cfg keys token s = releasePlan cfg keys token s' := by
  unfold releasePlan
  rw [List.filter_congr fun k hk => by rw [h.content (List.mem_map_of_mem hk)]]

theorem mapM_extended_congr (h : s.AgreesOn (keys.map cfg.serverKey) s') (dependents : List Key)
    (ttl : Nat) :
    keys.mapM (extended cfg dependents ttl s) = keys.mapM (extended cfg dependents ttl s') := by
  induction keys with
  | nil => rfl
  | cons key rest ih =>
    have hhead : extended cfg dependents ttl s key = extended cfg dependents ttl s' key := by
      unfold extended
      rw [h.content List.mem_cons_self, h.lifetime List.mem_cons_self]
    rw [List.mapM_cons, List.mapM_cons, hhead,
      ih ⟨h.now, fun k hk => h.slots k (List.mem_cons_of_mem _ hk)⟩]

theorem extendPlan_congr (h : s.AgreesOn (keys.map cfg.serverKey) s') (dependents : List Key)
    (ttl : Nat) : extendPlan cfg keys dependents ttl s = extendPlan cfg keys dependents ttl s' := by
  have hfind : (keys.find? fun k => (s.content (cfg.serverKey k)).any isTombstone) =
      keys.find? fun k => (s'.content (cfg.serverKey k)).any isTombstone :=
    List.find?_congr fun k hk => by rw [h.content (List.mem_map_of_mem hk)]
  unfold extendPlan
  rw [hfind, mapM_extended_congr h]

theorem clearPlan_congr {key : Key} (h : s.AgreesOn [cfg.serverKey key] s') (tombstone : Bool) :
    clearPlan cfg key tombstone s = clearPlan cfg key tombstone s' := by
  unfold clearPlan decoded
  rw [h.content List.mem_cons_self]

end Agreement

/-- A write of the store: under one of its keys, with a lifetime that the server can count. -/
inductive OwnWrite : Write → Prop where
  | lasting (key : Key) (text : String) {ttl : Nat} (h : Duration.Countable ttl) :
    OwnWrite (.lasting (cfg.serverKey key) text ttl)
  | delete (key : Key) : OwnWrite (.delete (cfg.serverKey key))

namespace OwnWrite
variable {cfg} {w : Write}

theorem key (h : OwnWrite cfg w) : ∃ k, w.key = cfg.serverKey k := by
  cases h with
  | lasting key text h => exact ⟨key, rfl⟩
  | delete key => exact ⟨key, rfl⟩

theorem countable (h : OwnWrite cfg w) : w.Countable := by
  cases h with
  | lasting key text h => exact Server.countable_lasting _ text h
  | delete key => exact trivial

end OwnWrite
end RemoteStore

theorem Server.Counts.listTtl_eq {s : Server} (h : s.Counts) (key : Key) (ttl : Nat) :
    RemoteStore.listTtl (s.lifetime key) ttl =
      ((s.live? key).bind (·.deadline)).elim ttl fun t =>
        if s.now + ttl < t then t - s.now else ttl := by
  rw [Server.lifetime_eq_live?]
  cases hslot : s.live? key with
  | none => rfl
  | some slot =>
    cases hdeadline : slot.deadline with
    | none =>
      simp only [Option.bind_some, Option.elim_some, hdeadline]
      rfl
    | some t =>
      simp only [Option.bind_some, Option.elim_some, hdeadline]
      obtain ⟨n, hn, hmillis⟩ := h key slot t hslot hdeadline
      have hdiv : min ((t - s.now) / Duration.perMilli) Int64.maxValue.toInt.toNat = n := by
        rw [hmillis, Duration.ofMillis, Nat.mul_div_cancel n (by decide)]
        exact Nat.min_eq_left hn
      rw [hdiv, RemoteStore.listTtl, Int.toNat_natCast, ← hmillis]
      by_cases hlater : s.now + ttl < t
      · have hcond : ttl < t - s.now := by omega
        simp only [hlater, hcond, if_true, Int.natCast_nonneg, and_self]
      · have hcond : ¬ ttl < t - s.now := by omega
        simp only [hlater, hcond, if_false, and_false]

/-- A plan does what a store in memory does in reply to a call. -/
structure Plan.Performs {A : Type} (cfg : RemoteSettings) (plan : Plan A) (s : Server) (m : Memory)
    (reply : Memory.Reply A) : Prop where
  answer : plan.answer = reply.answer
  events : plan.events = reply.events
  issued : m.issued + plan.tokens = reply.memory.issued
  mirrors : Mirrors cfg (plan.writes.foldl Server.write s) reply.memory
  own : ∀ w ∈ plan.writes, RemoteStore.OwnWrite cfg w

namespace Mirrors
open RemoteStore
variable {cfg : RemoteSettings} {rules : Rules} {mcfg : MemorySettings} {s : Server} {m : Memory}
  {slots : Slots}

section Set
variable (hsame : SameSettings cfg rules mcfg) (h : Mirrors cfg s m)
include hsame h

theorem setPlan_performs (lockKey : Key) (keys : List Key) (value : String) {token : Token}
    {ttl : Nat} (htoken : token ≠ Token.noLock) (httl : Duration.Countable ttl) :
    (setPlan cfg rules lockKey keys value token ttl s).Performs cfg s m
      (m.setValue mcfg lockKey keys value token ttl) := by
  rw [Memory.setValue, if_neg htoken, hsame.rules]
  unfold setPlan
  rw [h.content]
  cases hset : (rules.decide (m.content lockKey) value token).set with
  | true =>
    simp only [hset, if_true]
    refine ⟨rfl, rfl, rfl, h.putAll keys httl, fun w hw => ?_⟩
    obtain ⟨k, -, rfl⟩ := List.mem_map.1 hw
    exact .lasting k value httl
  | false =>
    cases hclear : (rules.decide (m.content lockKey) value token).clear with
    | true =>
      simp only [hset, hclear, if_true, Bool.false_eq_true, if_false]
      refine ⟨rfl, rfl, rfl, h.erase lockKey, fun w hw => ?_⟩
      obtain rfl := List.mem_singleton.1 hw
      exact .delete lockKey
    | false =>
      simp only [hset, hclear, Bool.false_eq_true, if_false]
      exact ⟨rfl, rfl, rfl, h, fun w hw => by cases hw⟩

omit h in
theorem own_invalidations (tombstone : Bool) (keys : List Key) :
    ∀ w ∈ keys.map fun k => RemoteStore.invalidation cfg tombstone (cfg.serverKey k),
      OwnWrite cfg w := by
  intro w hw
  obtain ⟨k, -, rfl⟩ := List.mem_map.1 hw
  cases tombstone with
  | true => exact .lasting k Token.tombstone hsame.countable_tombstoneTtl
  | false => exact .delete k

theorem deletePlan_performs (keys : List Key) (tombstone force : Bool) :
    (deletePlan cfg keys tombstone force s).Performs cfg s m
      (m.deleteValue mcfg keys tombstone force) := by
  refine ⟨rfl, rfl, rfl, ?_, own_invalidations hsame tombstone _⟩
  have hfree : (fun k => force || !(s.content (cfg.serverKey k)).any isToken) =
      fun k => !Memory.spared m.now force m.slots k := by
    funext k
    rw [h.content, Memory.spared, Bool.not_and, Bool.not_not]
    rfl
  change Mirrors cfg _
    { m with slots := (Memory.invalidateUnlocked mcfg m.now tombstone force keys m.slots).1 }
  rw [Memory.invalidateUnlocked_eq_foldl, deletePlan, hfree]
  exact Mirrors.invalidateAll (m := m) hsame h tombstone _

omit h in
theorem markings (n : Nat) (keys : List Key) (h : Mirrors cfg s { m with slots }) :
    Mirrors cfg ((RemoteStore.markings cfg n keys).foldl Server.write s)
      { m with slots := Memory.placeMarkers mcfg m.now n keys slots } := by
  induction keys generalizing n s slots with
  | nil => exact h
  | cons key rest ih =>
    rw [Memory.placeMarkers, hsame.lockTtl]
    exact ih (n + 1) (h.put key hsame.countable_lockTtl)

omit h in
theorem own_markings (n : Nat) (keys : List Key) :
    ∀ w ∈ RemoteStore.markings cfg n keys, OwnWrite cfg w := by
  induction keys generalizing n with
  | nil => exact fun w hw => by cases hw
  | cons key rest ih =>
    intro w hw
    rcases List.mem_cons.1 hw with rfl | hw
    · exact .lasting key _ hsame.countable_lockTtl
    · exact ih (n + 1) w hw

theorem refusing_eq (token : Token) (keys : List Key) :
    refusing cfg rules token keys s = m.refusing mcfg token keys := by
  unfold refusing Memory.refusing
  rw [hsame.rules]
  simp only [h.content]

theorem claimPlan_performs (kind : LockKind) {keys : List Key} (hkeys : keys ≠ []) :
    (claimPlan cfg rules m.issued kind keys s).Performs cfg s m (m.writeToken mcfg kind keys) := by
  have hrivals : rivals cfg rules (Token.issue kind.name m.issued) keys s =
      (m.refusing mcfg (Token.issue kind.name m.issued) keys).filter fun k =>
        collides (m.content k) (Token.issue kind.name m.issued) := by
    rw [rivals, refusing_eq hsame h]
    simp only [h.content]
  have hempty : keys.isEmpty = false := by simpa using hkeys
  rw [Memory.writeToken, hempty, claimPlan, refusing_eq hsame h, hrivals]
  simp only [Bool.false_eq_true, if_false]
  cases hgranted : (m.refusing mcfg (Token.issue kind.name m.issued) keys).isEmpty with
  | true =>
    rw [List.isEmpty_iff.1 hgranted]
    refine ⟨rfl, rfl, rfl, ?_, fun w hw => ?_⟩
    · simp only [if_true, hsame.lockTtl]
      exact (h.putAll keys hsame.countable_lockTtl).congr rfl rfl rfl rfl
    · obtain ⟨k, -, rfl⟩ := List.mem_map.1 hw
      exact .lasting k _ hsame.countable_lockTtl
  | false =>
    simp only [Bool.false_eq_true, if_false, List.append_nil]
    refine ⟨rfl, rfl, (Nat.add_assoc _ _ _).symm, ?_, own_markings hsame _ _⟩
    exact (Mirrors.markings (m := m) hsame (m.issued + 1) _ h).congr rfl rfl rfl rfl

omit hsame in
theorem releasePlan_performs (keys : List Key) {token : Token} (htoken : token ≠ Token.noLock) :
    (releasePlan cfg keys token s).Performs cfg s m (m.releaseToken keys token) := by
  rw [Memory.releaseToken, if_neg htoken, Memory.foldl_release_eq_foldl_erase, releasePlan]
  simp only [h.content]
  refine ⟨rfl, rfl, rfl, h.eraseAll _, fun w hw => ?_⟩
  obtain ⟨k, -, rfl⟩ := List.mem_map.1 hw
  exact .delete k

end Set

section Lists
variable (h : Mirrors cfg s m) (hcounts : s.Counts)
include h hcounts

/-- What a server tells of the time that a list has left is what the store in memory goes by. -/
theorem listTtl_eq (key : Key) {ttl : Nat} (httl : Duration.Countable ttl) :
    listTtl (s.lifetime (cfg.serverKey key)) ttl = m.listTtl key ttl ∧
      Duration.Countable (m.listTtl key ttl) := by
  have hlive := h.slots key
  refine ⟨?_, ?_⟩
  · rw [hcounts.listTtl_eq, m.listTtl_eq_live?, hlive, h.now]
  · rw [m.listTtl_eq_live?]
    cases hslot : (m.live? key).bind (·.deadline) with
    | none => exact httl
    | some t =>
      obtain ⟨slot, hslot, hdeadline⟩ := Option.bind_eq_some_iff.1 hslot
      have hleft := hcounts _ slot t (hlive.trans hslot) hdeadline
      rw [h.now] at hleft
      rw [Option.elim_some]
      split
      · exact hleft
      · exact httl

theorem extended_eq (dependents : List Key) {ttl : Nat} (httl : Duration.Countable ttl)
    (key : Key) :
    RemoteStore.extended cfg dependents ttl s key =
      (m.extended dependents ttl key).map fun u =>
        Write.lasting (cfg.serverKey u.1) u.2.1 u.2.2 := by
  have htext : listText (s.content (cfg.serverKey key)) = m.listText key := by
    rw [h.content]
    rfl
  unfold RemoteStore.extended extension Memory.extended
  rw [htext, (h.listTtl_eq hcounts key httl).1]
  cases DependencyList.merge key (m.listText key) dependents <;> rfl

theorem mapM_extended_eq (lists dependents : List Key) {ttl : Nat}
    (httl : Duration.Countable ttl) :
    lists.mapM (RemoteStore.extended cfg dependents ttl s) =
      (lists.mapM (m.extended dependents ttl)).map
        (List.map fun u => Write.lasting (cfg.serverKey u.1) u.2.1 u.2.2) := by
  induction lists with
  | nil => rfl
  | cons key rest ih =>
    rw [List.mapM_cons, List.mapM_cons, h.extended_eq hcounts dependents httl, ih]
    cases m.extended dependents ttl key with
    | error fault => rfl
    | ok u => cases rest.mapM (m.extended dependents ttl) <;> rfl

theorem countable_updates {lists dependents : List Key} {ttl : Nat}
    (httl : Duration.Countable ttl) {updates : List (Key × String × Nat)}
    (hupdates : lists.mapM (m.extended dependents ttl) = .ok updates) :
    ∀ u ∈ updates, Duration.Countable u.2.2 := by
  induction lists generalizing updates with
  | nil =>
    cases hupdates
    exact fun u hu => by cases hu
  | cons key rest ih =>
    rw [List.mapM_cons, Memory.extended] at hupdates
    cases hmerge : DependencyList.merge key (m.listText key) dependents with
    | error fault =>
      rw [hmerge] at hupdates
      cases hupdates
    | ok text =>
      rw [hmerge] at hupdates
      cases hrest : rest.mapM (m.extended dependents ttl) with
      | error fault =>
        rw [hrest] at hupdates
        cases hupdates
      | ok others =>
        rw [hrest] at hupdates
        cases hupdates
        intro u hu
        rcases List.mem_cons.1 hu with rfl | hu
        · exact (h.listTtl_eq hcounts key httl).2
        · exact ih hrest u hu

theorem extendPlan_performs (lists dependents : List Key) {ttl : Nat}
    (httl : Duration.Countable ttl) :
    (extendPlan cfg lists dependents ttl s).Performs cfg s m
      (m.addDependency lists dependents ttl) := by
  unfold extendPlan Memory.addDependency
  simp only [h.content]
  cases lists.find? fun k => (m.content k).any isTombstone with
  | some key => exact ⟨rfl, rfl, rfl, h, fun w hw => by cases hw⟩
  | none =>
    simp only [h.mapM_extended_eq hcounts lists dependents httl]
    cases hupdates : lists.mapM (m.extended dependents ttl) with
    | error fault => exact ⟨rfl, rfl, rfl, h, fun w hw => by cases hw⟩
    | ok updates =>
      have hcountable := h.countable_updates hcounts httl hupdates
      refine ⟨rfl, rfl, rfl, ?_, fun w hw => ?_⟩
      · exact Mirrors.fold (m := m) updates (fun u hu _ _ hm => hm.put u.1 (hcountable u hu)) h
      · obtain ⟨u, hu, rfl⟩ := List.mem_map.1 hw
        exact .lasting u.1 u.2.1 (hcountable u hu)

end Lists

section Clear
variable (hsame : SameSettings cfg rules mcfg) (h : Mirrors cfg s m)
include hsame h

theorem clearPlan_performs (key : Key) (tombstone : Bool) :
    (clearPlan cfg key tombstone s).Performs cfg s m (m.clearDependencies mcfg key tombstone) := by
  have hdecoded : RemoteStore.decoded cfg key s = m.decoded key := by
    unfold RemoteStore.decoded Memory.decoded
    rw [h.content]
    rfl
  rw [clearPlan, hdecoded]
  exact ⟨rfl, rfl, rfl, Mirrors.invalidateAll (m := m) hsame h tombstone _,
    own_invalidations hsame tombstone _⟩

end Clear

end Mirrors
end CacheCoherence
