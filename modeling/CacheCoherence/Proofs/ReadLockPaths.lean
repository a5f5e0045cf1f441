import CacheCoherence.Proofs.ListLifetimes
import CacheCoherence.Proofs.ReadLocks
import CacheCoherence.Proofs.Turns

/-!
# Two ways to a read lock

A read lock is taken by a reading that finds its slot empty, or it is claimed as any other lock is.
A reading does not ask who may overwrite what: it looks into the slot, and a server sets the lock
only if the key does not exist. A claim on a server is a transaction. Both ways come to the same
answer and fill the same slot with the same token. How long the lock lasts is where they part: a
claim writes a lock that is to stay for good without an end, and a reading always tells a server of
one.
-/
namespace CacheCoherence

theorem Slot.lasting_inj {now ttl ttl' : Nat} {text : String} :
    lasting now text ttl = lasting now text ttl' ↔ ttl = ttl' := by
  constructor
  · intro h
    have hdeadline : (if ttl = 0 then none else some (now + ttl)) =
        if ttl' = 0 then none else some (now + ttl') := congrArg Slot.deadline h
    split at hdeadline <;> split at hdeadline
    · omega
    · cases hdeadline
    · cases hdeadline
    · have hsum := Option.some.inj hdeadline
      omega
  · exact fun h => h ▸ rfl

/-- A read lock may be placed where nothing stands. -/
theorem LockKind.mayTake_read {current : Option String} (h : current ≠ some "") :
    LockKind.read.mayTake current = current.isNone := by
  cases current with
  | none => rfl
  | some raw =>
    have hfull : Content.ofText raw ≠ .empty := Content.ofText_ne_empty fun hraw => h (hraw ▸ rfl)
    change LockKind.read.mayReplace (Content.ofText raw) = false
    cases hcontent : Content.ofText raw with
    | empty => exact absurd hcontent hfull
    | _ => rfl

/-- A read lock has no rivals that it marks. -/
theorem collides_read (current : Option String) (n : Nat) :
    collides current (Token.issue LockKind.read.name n) = false := by
  rw [collides_issue]
  rfl

theorem refuses_read {current : Option String} (h : current ≠ some "") (n : Nat) :
    (!(Rules.standard.always (Token.issue LockKind.read.name n) ||
      Rules.standard.admits current (Token.issue LockKind.read.name n))) = current.isSome := by
  have halways : Rules.standard.always = alwaysAdmitted := rfl
  have hadmits : Rules.standard.admits = admits := rfl
  rw [halways, hadmits, admits_issue, LockKind.mayTake_read h]
  cases current <;> rfl

theorem Server.setIfAbsent_put {s : Server} {key : Key} (h : s.content key = none) (text : String)
    {px : Nat} (hpx : px ≠ 0) :
    (s.setIfAbsent key text px).1 = true ∧
      (s.setIfAbsent key text px).2.slots = s.slots.put s.now key text (Duration.ofMillis px) ∧
      (s.setIfAbsent key text px).2.now = s.now := by
  have hlasts : Duration.ofMillis px ≠ 0 := by
    unfold Duration.ofMillis Duration.perMilli
    omega
  have habsent : s.setIfAbsent key text px = (true, s.set key text (some px)) := by
    rw [setIfAbsent, h]
    rfl
  rw [habsent]
  refine ⟨rfl, ?_, rfl⟩
  rw [Slots.put, Slot.lasting, if_neg hlasts]
  rfl

theorem Duration.serverMillis_ne_zero (d : Nat) : serverMillis d ≠ 0 := by
  unfold serverMillis
  omega

namespace Store

def issued : Store → Nat
  | memory _ m => m.issued
  | remote _ _ r => r.issued

def rules : Store → Rules
  | memory cfg _ => cfg.rules
  | remote _ rules _ => rules

def lockTtl : Store → Nat
  | memory cfg _ => cfg.lockTtl
  | remote cfg _ _ => cfg.lockTtl

/-- How long a lock lasts that a reading has taken. A server is told of an end in any case. -/
def readingTtl : Store → Nat
  | memory cfg _ => cfg.lockTtl
  | remote cfg _ _ => Duration.ofMillis (Duration.serverMillis cfg.lockTtl)

variable (s : Store) (key : Key)

/-- The token that is handed to whom wants a read lock on a key: a fresh one if nothing stands in
the slot, or no lock. -/
def readToken : Token :=
  if s.held key = none then Token.issue LockKind.read.name s.issued else Token.noLock

/-- The slots after somebody wanted a read lock on a key that is to last for a length of time. -/
def readLocked (ttl : Nat) : Slots :=
  if s.held key = none then s.slots.put s.now (s.slotName key) (s.readToken key) ttl else s.slots

section Empty
variable {s key} (h : s.held key = none)
include h

theorem readToken_of_empty : s.readToken key = Token.issue LockKind.read.name s.issued := if_pos h

theorem readLocked_of_empty (ttl : Nat) :
    s.readLocked key ttl = s.slots.put s.now (s.slotName key)
      (Token.issue LockKind.read.name s.issued) ttl := by
  rw [readLocked, if_pos h, readToken_of_empty h]

end Empty

section Full
variable {s key} {raw : String} (h : s.held key = some raw)
include h

theorem readToken_of_full : s.readToken key = Token.noLock :=
  if_neg (h ▸ Option.some_ne_none raw)

theorem readLocked_of_full (ttl : Nat) : s.readLocked key ttl = s.slots :=
  if_neg (h ▸ Option.some_ne_none raw)

end Full

/-- A lock that a reading takes lasts as long as one that is claimed, unless a server is to keep it
for good. -/
theorem readingTtl_eq_kept_iff :
    s.readingTtl = s.kept s.lockTtl ↔ (s.lockTtl = 0 → s.memory?.isSome) := by
  cases s with
  | memory cfg m => exact ⟨fun _ _ => rfl, fun _ => rfl⟩
  | remote cfg rules r =>
    change Duration.ofMillis (Duration.serverMillis cfg.lockTtl) = Duration.onServer cfg.lockTtl ↔
      (cfg.lockTtl = 0 → false = true)
    unfold Duration.onServer
    by_cases hzero : cfg.lockTtl = 0
    · rw [hzero]
      decide
    · rw [if_neg hzero]
      exact ⟨fun _ h => absurd h hzero, fun _ => rfl⟩

/-- Locks that last for different lengths of time are different slots. -/
theorem readLocked_inj {ttl ttl' : Nat} :
    s.readLocked key ttl = s.readLocked key ttl' ↔ (s.held key = none → ttl = ttl') := by
  unfold readLocked
  by_cases h : s.held key = none
  · rw [if_pos h, if_pos h]
    constructor
    · intro hslots _
      have hslot := congrArg (fun slots : Slots => slots.get? (s.slotName key)) hslots
      simp only [Slots.get?_put, if_true, Option.some.injEq] at hslot
      exact Slot.lasting_inj.1 hslot
    · exact fun hsame => hsame h ▸ rfl
  · rw [if_neg h, if_neg h]
    exact ⟨fun _ hempty => absurd hempty h, fun _ => rfl⟩

end Store

namespace RemoteStore
open RemoteCall Observed
variable (cfg : RemoteSettings) {o : Observed} (h : o.Alone) {key : Key}
include h

theorem on_getValue_full {raw : String} (hfull : o.server.content (cfg.serverKey key) = some raw) :
    ∃ o', (getValue cfg key true).on o = (.ok (Lookup.observed (some raw)), o') ∧
      o.Undisturbed o.server o' := by
  obtain ⟨o', hget, hread⟩ := on_get_alone h (cfg.serverKey key)
  rw [hfull] at hget
  refine ⟨o', ?_, hread⟩
  rw [getValue, on_bind_of_ok hget]
  rfl

/-- A reading that finds nothing sets the lock right after, when the key still does not exist. -/
theorem on_getValue_empty (hempty : o.server.content (cfg.serverKey key) = none) :
    ∃ o', (getValue cfg key true).on o =
        (.ok { token := Token.issue LockKind.read.name o.remote.issued }, o') ∧
      o'.server.slots = o.server.slots.put o.server.now (cfg.serverKey key)
        (Token.issue LockKind.read.name o.remote.issued)
        (Duration.ofMillis (Duration.serverMillis cfg.lockTtl)) ∧
      o'.server.now = o.server.now := by
  obtain ⟨o₁, hget, hread⟩ := on_get_alone h (cfg.serverKey key)
  obtain ⟨o₂, hissue, hserver, halone, -, -⟩ := on_issue_alone hread.alone LockKind.read.name
  obtain ⟨o', hset, hlocked⟩ := on_setIfAbsent_alone halone (cfg.serverKey key)
    (Token.issue LockKind.read.name o.remote.issued) (Duration.serverMillis cfg.lockTtl)
  rw [hserver, hread.server] at hset hlocked
  obtain ⟨htaken, hslots, hnow⟩ := Server.setIfAbsent_put hempty
    (Token.issue LockKind.read.name o.remote.issued) (Duration.serverMillis_ne_zero cfg.lockTtl)
  rw [htaken] at hset
  rw [hread.silent.1] at hissue
  refine ⟨o', ?_, ?_, ?_⟩
  · rw [getValue, on_bind_of_ok hget, hempty, resolve, if_neg (by simp), on_bind_of_ok hissue,
      on_bind_of_ok hset]
    rfl
  · rw [hlocked.server, hslots]
  · rw [hlocked.server, hnow]

end RemoteStore

namespace Memory
variable (cfg : MemorySettings) (m : Memory) {key : Key}

theorem writeToken_read_full (hr : cfg.rules = Rules.standard) {raw : String}
    (hfull : m.content key = some raw) (hraw : raw ≠ "") :
    m.writeToken cfg .read [key] =
      { answer := .ok Token.noLock
        memory := { m with issued := m.issued + 1 }
        events := [.claimContended .read [key]] } := by
  have hrefused : m.refusing cfg (Token.issue LockKind.read.name m.issued) [key] = [key] := by
    unfold refusing
    rw [List.filter_cons, hfull, hr, refuses_read (fun h => hraw (Option.some.inj h))]
    rfl
  simp [writeToken, hrefused, collides_read, placeMarkers]

theorem writeToken_read_empty (hr : cfg.rules = Rules.standard) (hempty : m.content key = none) :
    m.writeToken cfg .read [key] =
      { answer := .ok (Token.issue LockKind.read.name m.issued)
        memory :=
          { m with
            slots := m.slots.put m.now key (Token.issue LockKind.read.name m.issued) cfg.lockTtl
            issued := m.issued + 1 } } := by
  refine writeToken_granted cfg m hr ⟨List.cons_ne_nil _ _, fun k hk => ?_⟩
  rw [List.mem_singleton.1 hk, hempty]
  rfl

end Memory

namespace RemoteStore
variable (cfg : RemoteSettings) (n : Nat) {key : Key} {s : Server}

theorem claimPlan_read (hheld : s.content (cfg.serverKey key) ≠ some "") :
    let plan := claimPlan cfg Rules.standard n .read [key] s
    let token := Token.issue LockKind.read.name n
    plan.answer = .ok (if s.content (cfg.serverKey key) = none then token else Token.noLock) ∧
      plan.writes = if s.content (cfg.serverKey key) = none then
        [.lasting (cfg.serverKey key) token cfg.lockTtl] else [] := by
  have hrefusing : refusing cfg Rules.standard (Token.issue LockKind.read.name n) [key] s =
      if s.content (cfg.serverKey key) = none then [] else [key] := by
    rw [refusing, List.filter_cons, refuses_read hheld]
    cases s.content (cfg.serverKey key) <;> rfl
  have hrivals : rivals cfg Rules.standard (Token.issue LockKind.read.name n) [key] s = [] := by
    unfold rivals
    simp only [collides_read, List.filter_false]
  dsimp only
  unfold claimPlan
  dsimp only
  rw [hrivals, hrefusing]
  split <;> exact ⟨rfl, rfl⟩

end RemoteStore

namespace Store
variable {s : Store} (key : Key)

/-- A call to a store on a server comes to what was observed of its program. -/
theorem holds_of_run {cfg : RemoteSettings} (rules : Rules) {r : Remote} (c : Call) {a : c.Answer}
    {o : Observed}
    (hrun : (RemoteStore.perform cfg rules r.exchange.scanRounds c).run Observed.answer ⟨r, []⟩ =
      (a, o))
    (hnow : o.server.now = r.exchange.server.now) :
    ((remote cfg rules r).perform c).1 = a ∧
      (remote cfg rules r).Holds o.server.slots ((remote cfg rules r).perform c).2.1 := by
  obtain ⟨hanswer, hremote⟩ :=
    Observed.run_answer (RemoteStore.perform cfg rules r.exchange.scanRounds c) ⟨r, []⟩
  rw [hrun] at hanswer hremote
  refine ⟨hanswer.symm, ?_, ?_, rfl⟩
  · exact congrArg (·.exchange.server.slots) hremote.symm
  · exact (congrArg (·.exchange.server.now) hremote.symm).trans hnow

theorem perform_getValue_lock (h : s.Alone) :
    (s.perform (.getValue key true)).1 =
        .ok { Lookup.observed (s.held key) with token := s.readToken key } ∧
      s.Holds (s.readLocked key s.readingTtl) (s.perform (.getValue key true)).2.1 := by
  cases s with
  | memory cfg m =>
    change Except.ok (m.lookup cfg key true).1 = _ ∧
      Holds _ _ (.memory cfg (m.lookup cfg key true).2)
    cases hheld : m.content key with
    | some raw =>
      have hfull : (memory cfg m).held key = some raw := hheld
      rw [Memory.lookup_of_content cfg m key true hheld, hfull, readToken_of_full hfull,
        readLocked_of_full hfull, ← Lookup.token_observed (some raw)]
      exact ⟨rfl, rfl, rfl, rfl⟩
    | none =>
      have hempty : (memory cfg m).held key = none := hheld
      rw [Memory.lookup_of_empty cfg m key true hheld, hempty, readToken_of_empty hempty,
        readLocked_of_empty hempty]
      exact ⟨rfl, rfl, rfl, rfl⟩
  | remote cfg rules r =>
    cases hheld : r.exchange.server.content (cfg.serverKey key) with
    | some raw =>
      have hfull : (remote cfg rules r).held key = some raw := hheld
      obtain ⟨o, hrun, hread⟩ := RemoteStore.on_getValue_full cfg h hheld
      obtain ⟨hanswer, hholds⟩ :=
        holds_of_run rules (.getValue key true) hrun (congrArg Server.now hread.server)
      rw [congrArg Server.slots hread.server] at hholds
      rw [hfull, readToken_of_full hfull, readLocked_of_full hfull,
        ← Lookup.token_observed (some raw)]
      exact ⟨hanswer, hholds⟩
    | none =>
      have hempty : (remote cfg rules r).held key = none := hheld
      obtain ⟨o, hrun, hslots, hnow⟩ := RemoteStore.on_getValue_empty cfg h hheld
      obtain ⟨hanswer, hholds⟩ := holds_of_run rules (.getValue key true) hrun hnow
      rw [hslots] at hholds
      rw [hempty, readToken_of_empty hempty, readLocked_of_empty hempty]
      exact ⟨hanswer, hholds⟩

theorem perform_writeToken_read (h : s.Undisturbed (.writeToken .read [key]))
    (hrules : s.rules = Rules.standard) (hheld : s.held key ≠ some "") :
    (s.perform (.writeToken .read [key])).1 = .ok (s.readToken key) ∧
      s.Holds (s.readLocked key (s.kept s.lockTtl))
        (s.perform (.writeToken .read [key])).2.1 := by
  cases s with
  | memory cfg m =>
    change (m.writeToken cfg .read [key]).answer = _ ∧
      Holds _ _ (.memory cfg (m.writeToken cfg .read [key]).memory)
    cases hcontent : m.content key with
    | some raw =>
      have hfull : (memory cfg m).held key = some raw := hcontent
      rw [m.writeToken_read_full cfg hrules hcontent fun hraw => hheld (hraw ▸ hfull),
        readToken_of_full hfull, readLocked_of_full hfull]
      exact ⟨rfl, rfl, rfl, rfl⟩
    | none =>
      have hempty : (memory cfg m).held key = none := hcontent
      rw [m.writeToken_read_empty cfg hrules hcontent, readToken_of_empty hempty,
        readLocked_of_empty hempty]
      exact ⟨rfl, rfl, rfl, rfl⟩
  | remote cfg rules r =>
    obtain rfl : rules = Rules.standard := hrules
    obtain ⟨hcalm, hnone⟩ := h
    obtain ⟨hanswer, hwrites⟩ := RemoteStore.claimPlan_read cfg r.issued hheld
    have htransacts : RemoteStore.Transacts
        (RemoteStore.writeToken cfg Rules.standard .read [key]).run
        (fun issued => RemoteStore.claimPlan cfg Rules.standard issued .read [key])
        (.ok Token.noLock, [.claimContended .read [key]]) :=
      RemoteStore.writeToken_transacts .read (List.cons_ne_nil key [])
    obtain ⟨hresult, halike⟩ := htransacts.undisturbed
      (fun issued _ _ halike => RemoteStore.claimPlan_congr (halike.agreesOn _) issued .read)
      hcalm hnone
    rw [hwrites] at halike
    refine ⟨hresult.trans hanswer, ?_, ?_, rfl⟩
    · refine halike.slots.trans ?_
      cases hcontent : r.exchange.server.content (cfg.serverKey key) with
      | some raw =>
        have hfull : (remote cfg Rules.standard r).held key = some raw := hcontent
        rw [if_neg (Option.some_ne_none raw), readLocked_of_full hfull]
        rfl
      | none =>
        have hempty : (remote cfg Rules.standard r).held key = none := hcontent
        rw [if_pos rfl, readLocked_of_empty hempty]
        exact Server.slots_write_put _ _ _ _
    · exact halike.now.trans (Server.now_foldl_write _ _)

/-- **Two ways to a read lock.** In every store, in memory or alone on its server, and for every
slot that does not hold the empty text: a reading that wants a lock and a claim of a read lock are
handed the same token. If the slot is empty this is a fresh one, and both fill the slot with it and
leave all others. If it is not, there is no lock for either and all slots stay as they are. The
slots are the same after both, lifetimes and all, unless the lock is to stay for good on a server:
there a reading takes one that ends. -/
theorem read_locks_alike_iff (h : s.Alone) (hrules : s.rules = Rules.standard)
    (hheld : s.held key ≠ some "") :
    let reading := s.perform (.getValue key true)
    let claim := s.perform (.writeToken .read [key])
    ∃ token, reading.1 = .ok { Lookup.observed (s.held key) with token } ∧ claim.1 = .ok token ∧
      (s.held key = none → token = Token.issue LockKind.read.name s.issued ∧
        s.Holds (s.slots.put s.now (s.slotName key) token s.readingTtl) reading.2.1 ∧
        s.Holds (s.slots.put s.now (s.slotName key) token (s.kept s.lockTtl)) claim.2.1) ∧
      (s.held key ≠ none → token = Token.noLock ∧
        s.Holds s.slots reading.2.1 ∧ s.Holds s.slots claim.2.1) ∧
      (reading.2.1.slots = claim.2.1.slots ↔
        (s.held key = none → s.lockTtl = 0 → s.memory?.isSome)) := by
  obtain ⟨hfound, hread⟩ := perform_getValue_lock key h
  obtain ⟨htoken, hclaimed⟩ := perform_writeToken_read key (h.undisturbed _) hrules hheld
  refine ⟨s.readToken key, hfound, htoken, fun hempty => ?_, fun hfull => ?_, ?_⟩
  · rw [readLocked_of_empty hempty] at hread hclaimed
    rw [readToken_of_empty hempty]
    exact ⟨rfl, hread, hclaimed⟩
  · obtain ⟨raw, hraw⟩ := Option.ne_none_iff_exists'.1 hfull
    rw [readLocked_of_full hraw] at hread hclaimed
    exact ⟨readToken_of_full hraw, hread, hclaimed⟩
  · rw [hread.slots, hclaimed.slots, readLocked_inj, readingTtl_eq_kept_iff]

section Example

/-- A store on a server of its own whose locks are to stay for good. -/
def boundless : Store := .remote { RemoteStore.rooted with lockTtl := 0 } Rules.standard {}

theorem alone_boundless : boundless.Alone where
  calm := rfl
  others := fun race hrace => by cases hrace

theorem Holds.slot?_put {s' : Store} {text : String} {ttl : Nat} {key : Key}
    (h : s.Holds (s.slots.put s.now (s.slotName key) text ttl) s') :
    s'.slot? key = some (.lasting s.now text ttl) := by
  rw [slot?, live?_eq, h.slots, h.now, h.slotName]
  refine Slots.live?_of_get?_lasting ?_
  rw [Slots.get?_put, if_pos rfl]

/-- On the server the lock of the reading ends after a millisecond, and the one that was claimed
never does. In memory neither of them ends. -/
theorem read_locks_part_on_boundless :
    let reading := boundless.perform (.getValue "a" true)
    let claim := boundless.perform (.writeToken .read ["a"])
    let m : Store := .memory { lockTtl := 0 } {}
    (∃ token, reading.1 = .ok { token } ∧ claim.1 = .ok token ∧
      reading.2.1.slot? "a" = some ⟨token, some (Duration.ofMillis 1)⟩ ∧
      claim.2.1.slot? "a" = some ⟨token, none⟩ ∧ reading.2.1.slots ≠ claim.2.1.slots) ∧
    (m.perform (.getValue "a" true)).2.1.slots =
      (m.perform (.writeToken .read ["a"])).2.1.slots := by
  obtain ⟨token, hfound, htoken, hempty, -, halike⟩ :=
    read_locks_alike_iff "a" alone_boundless rfl (by decide)
  obtain ⟨-, -, -, -, -, hmemory⟩ :=
    read_locks_alike_iff (s := .memory { lockTtl := 0 } {}) "a" trivial rfl (by decide)
  obtain ⟨-, hread, hclaimed⟩ := hempty (by decide)
  refine ⟨⟨token, hfound, htoken, hread.slot?_put, hclaimed.slot?_put, fun hsame => ?_⟩, ?_⟩
  · exact absurd (halike.1 hsame (by decide) rfl) (by decide)
  · exact hmemory.2 fun _ _ => rfl

end Example

end Store
end CacheCoherence
