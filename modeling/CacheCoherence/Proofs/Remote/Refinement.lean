import CacheCoherence.Proofs.Remote.Alone

/-!
# A store on a server refines the store in memory

With no other client about, a store on a server and a store in memory that are set up alike and go
through the same calls and lapses of time give the same answers at every step and hold the same live
slots with the same deadlines. Tokens are numbered alike by both, so no renaming is needed, and the
key root is the only difference between the keys.
-/
namespace CacheCoherence

theorem Slots.live?_later (slots : Slots) (now elapsed : Nat) (k : Key) :
    slots.live? (now + elapsed) k =
      (slots.live? now k).filter fun slot => slot.isLive (now + elapsed) := by
  unfold Slots.live?
  cases slots.get? k with
  | none => rfl
  | some slot =>
    cases hlater : slot.isLive (now + elapsed) with
    | false => cases hnow : slot.isLive now <;> simp [Option.filter, hlater, hnow]
    | true =>
      have hnow := Slot.isLive_of_le (Nat.le_add_right now elapsed) hlater
      simp [Option.filter, hlater, hnow]

theorem Memory.live?_advance (m : Memory) (elapsed : Nat) (k : Key) :
    (m.advance elapsed).live? k =
      (m.live? k).filter fun slot => slot.isLive (m.now + elapsed) :=
  Slots.live?_later _ _ _ _

namespace Server
variable {s : Server} {hs : List Happening}

theorem live?_advance (s : Server) (elapsed : Nat) (key : Key) :
    (s.advance elapsed).live? key =
      (s.live? key).filter fun slot => slot.isLive (s.now + elapsed) :=
  Slots.live?_later _ _ _ _

/-- Where neither the call nor other clients wrote, nothing changed. -/
theorem after_of_still (hquiet : Quiet hs) (hnone : ∀ w, .other w ∉ hs) : s.after hs = s := by
  induction hs with
  | nil => rfl
  | cons e rest ih =>
    have hrest := ih (fun ws hws => hquiet ws (List.mem_cons_of_mem _ hws)) fun w hw =>
      hnone w (List.mem_cons_of_mem _ hw)
    cases e with
    | other w => exact absurd List.mem_cons_self (hnone w)
    | ran ws => exact absurd List.mem_cons_self (hquiet ws)
    | read => exact hrest
    | aborted => exact hrest

end Server

/-- Where no other client wrote, a transaction settles for the server as it was, and the server ends
up with what that state decides. -/
theorem Settled.alone {writes : Server → List Write} {s : Server} {hs : List Happening}
    {e : Option Server} (h : Settled writes s hs e) (hnone : ∀ w, .other w ∉ hs) :
    ∃ e', e = some e' ∧ e'.Alike s ∧ s.after hs = (writes e').foldl Server.write s := by
  cases h with
  | @ran before after e hbefore hafter halike =>
    have hstill : s.after before = s :=
      Server.after_of_still hbefore fun w hw => hnone w (List.mem_append_left _ hw)
    refine ⟨e, rfl, hstill ▸ halike, ?_⟩
    rw [Server.after_append, hstill]
    exact Server.after_of_still hafter fun w hw =>
      hnone w (List.mem_append_right _ (List.mem_cons_of_mem _ hw))
  | @idle before after e hbefore hafter halike hwrites =>
    have hstill : s.after before = s :=
      Server.after_of_still hbefore fun w hw => hnone w (List.mem_append_left _ hw)
    have hquiet : Quiet (before ++ .read :: after) :=
      hbefore.append (.cons (fun _ h => by cases h) hafter)
    refine ⟨e, rfl, hstill ▸ halike, ?_⟩
    rw [hwrites]
    exact Server.after_of_still hquiet hnone
  | refused hquiet hother =>
    obtain ⟨w, hw⟩ := hother
    exact absurd hw (hnone w)

namespace Call

/-- A call that both kinds of store answer alike: a lifetime that a server can count, no key twice
in a reading of several, and no handler to register. -/
def Common : Call → Prop
  | .getValues keys _ => keys.Nodup
  | .setValue _ _ _ _ ttl | .addDependency _ _ ttl => Duration.Countable ttl
  | .registerHandler _ _ => False
  | _ => True

end Call

namespace Linked
open RemoteStore Observed
variable {cfg : RemoteSettings} {rules : Rules} {mcfg : MemorySettings} {m : Memory} {o : Observed}

/-- A call ends alike on both stores and leaves them linked. -/
def Follows (cfg : RemoteSettings) {A : Type} (o : Observed) (reply : Memory.Reply A)
    (done : A × Observed) : Prop :=
  done.1 = reply.answer ∧ done.2.remote.events = o.remote.events ++ reply.events ∧
    Linked cfg reply.memory done.2

theorem transaction (hsame : SameSettings cfg rules mcfg) (rounds : Nat) {c : Call}
    {refused : c.Answer × List Event} (hc : c.refusal = some refused) (httl : c.Countable)
    (h : Linked cfg m o) :
    Follows cfg o (m.perform mcfg c) ((perform cfg rules rounds c).run answer o) := by
  rcases perform_plan hsame rounds hc httl with
    ⟨a, hdone, hmemory⟩ | ⟨plan, htransacts, hplan, hperforms⟩
  · rw [hdone, hmemory]
    exact ⟨rfl, (List.append_nil _).symm, h⟩
  · obtain ⟨hs, e, htransacted⟩ := htransacts o h.alone.calm
    obtain ⟨hs', hlog, halone, hserver, hnone⟩ := h.alone.run (perform cfg rules rounds c)
    obtain rfl : hs' = hs := List.append_cancel_left (hlog.symm.trans htransacted.log)
    obtain ⟨hanswer, -, hevents, hissued, -, hsettled⟩ := htransacted
    -- The server is still as the call found it when the call decides.
    obtain ⟨s, rfl, halike, hfinal⟩ := hsettled.alone hnone
    have hdecided : plan o.remote.issued s = plan o.remote.issued o.server := hplan _ _ _ halike
    have hnumber := hissued s rfl
    rw [hdecided] at hnumber
    rw [Option.elim_some, hdecided] at hanswer hevents
    rw [hfinal, hdecided] at hserver
    have hperform := hperforms o.server m h.mirrors h.counts
    rw [h.issued] at hperform
    refine ⟨hanswer.trans hperform.answer, ?_, ?_⟩
    · exact hevents.trans (congrArg (o.remote.events ++ ·) hperform.events)
    · refine h.wrote _ hperform.own hserver hperform.mirrors ?_ halone
      rw [hnumber, ← hperform.issued, h.issued]

/-- **Step.** Every call that the stores have in common ends alike on both. -/
theorem perform (hsame : SameSettings cfg rules mcfg) (hlock : cfg.lockTtl ≠ 0) {c : Call}
    (hc : c.Common) {rounds : Nat} (hrounds : o.server.slots.entries.length < rounds)
    (h : Linked cfg m o) :
    Follows cfg o (m.perform mcfg c) ((RemoteStore.perform cfg rules rounds c).run answer o) := by
  have hread {α : Type} {p : RemoteCall α} {reply : Memory.Reply (Except Fault α)}
      (hevents : reply.events = [])
      (hp : ∃ o', p.on o = (reply.answer, o') ∧ Linked cfg reply.memory o' ∧
        o'.remote.events = o.remote.events) :
      Follows cfg o reply (Program.run answer p.run o) := by
    obtain ⟨o', hrun, hlinked, hkept⟩ := hp
    rw [show Program.run answer p.run o = (reply.answer, o') from hrun]
    refine ⟨rfl, ?_, hlinked⟩
    rw [hevents, List.append_nil]
    exact hkept
  cases c with
  | getValue key lock => exact hread rfl (h.getValue hsame hlock key lock)
  | getValues keys locks =>
    refine hread ?_ (h.getValues hsame hlock hc locks)
    change (m.getValues mcfg keys locks).events = []
    unfold Memory.getValues
    split <;> rfl
  | flush root tombstones => exact hread rfl (h.flush tombstones rounds root hrounds)
  | registerHandler key handler => exact absurd hc id
  | setValue lockKey keys value token ttl => exact h.transaction hsame rounds rfl hc
  | addDependency lists dependents ttl => exact h.transaction hsame rounds rfl hc
  | deleteValue keys tombstone force => exact h.transaction hsame rounds rfl trivial
  | writeToken kind keys => exact h.transaction hsame rounds rfl trivial
  | releaseToken keys token => exact h.transaction hsame rounds rfl trivial
  | clearDependencies key tombstone => exact h.transaction hsame rounds rfl trivial

theorem advance {r : Remote} (h : Linked cfg m ⟨r, []⟩) {elapsed : Nat}
    (hwhole : ∃ n, elapsed = Duration.ofMillis n) :
    Linked cfg (m.advance elapsed)
      ⟨{ r with exchange :=
        { r.exchange with server := r.exchange.server.advance elapsed } }, []⟩ := by
  have hlive := r.exchange.server.live?_advance elapsed
  have hnow : r.exchange.server.now = m.now := h.mirrors.now
  refine ⟨⟨congrArg (· + elapsed) hnow, fun k => ?_⟩, fun key hkey => ?_,
    fun key slot t hslot hdeadline => ?_, h.issued, h.alone.calm, h.alone.others⟩
  · have hslots : r.exchange.server.live? (cfg.serverKey k) = m.live? k := h.mirrors.slots k
    rw [m.live?_advance, ← hslots, ← hnow]
    exact hlive _
  · obtain ⟨slot, hslot⟩ := Option.isSome_iff_exists.1 hkey
    refine h.owned key (Option.isSome_iff_exists.2 ⟨slot, ?_⟩)
    exact (Option.filter_eq_some_iff.1 ((hlive key).symm.trans hslot)).1
  · have hbefore := (Option.filter_eq_some_iff.1 ((hlive key).symm.trans hslot)).1
    obtain ⟨left, hleft, heq⟩ := h.counts key slot t hbefore hdeadline
    have hrest : t - (r.exchange.server.now + elapsed) = Duration.ofMillis left - elapsed :=
      (Nat.sub_add_eq t _ elapsed).trans (congrArg (· - elapsed) heq)
    -- What is left of a lifetime stays a number of milliseconds.
    obtain ⟨n, rfl⟩ := hwhole
    have hless : Duration.ofMillis (left - n) = Duration.ofMillis left - Duration.ofMillis n :=
      Nat.sub_mul left n Duration.perMilli
    exact ⟨left - n, Nat.le_trans (Nat.sub_le left n) hleft, hrest.trans hless.symm⟩

end Linked

theorem Exchange.lt_scanRounds (x : Exchange) : x.server.slots.entries.length < x.scanRounds := by
  have hle (n : Nat) (races : List Race) :
      n ≤ races.foldl (fun n race => n + race.writes.length * race.times) n := by
    induction races generalizing n with
    | nil => exact Nat.le_refl n
    | cons race rest ih => exact Nat.le_trans (Nat.le_add_right _ _) (ih _)
  exact hle _ _

inductive StoreStep where
  | call (c : Call)
  | advance (elapsed : Nat)

/-- Calls that both kinds of store answer alike, and lapses of whole milliseconds. -/
def StoreStep.Common : StoreStep → Prop
  | .call c => c.Common
  | .advance elapsed => ∃ n, elapsed = Duration.ofMillis n

namespace Store

def step (s : Store) : StoreStep → Store
  | .call c => (s.perform c).2.1
  | .advance elapsed => s.advance elapsed

def after (s : Store) (steps : List StoreStep) : Store := steps.foldl step s

def now : Store → Nat
  | memory _ m => m.now
  | remote _ _ r => r.exchange.server.now

/-- The live slot of a key, under the name that it has on the server where there is one. -/
def live? : Store → Key → Option Slot
  | memory _ m, key => m.live? key
  | remote _ _ r, key => r.exchange.server.live? key

/-- A store in memory and one that is alone on its server and holds the same. -/
inductive Alongside (cfg : RemoteSettings) (rules : Rules) (mcfg : MemorySettings) :
    Store → Store → Prop where
  | intro {m : Memory} {r : Remote} (h : Linked cfg m ⟨r, []⟩) (hevents : r.events = []) :
    Alongside cfg rules mcfg (.memory mcfg m) (.remote cfg rules r)

namespace Alongside
variable {cfg : RemoteSettings} {rules : Rules} {mcfg : MemorySettings} {a b : Store}

theorem start (cfg : RemoteSettings) (rules : Rules) (mcfg : MemorySettings) :
    Alongside cfg rules mcfg (.memory mcfg {}) (.remote cfg rules {}) := by
  refine .intro ⟨⟨rfl, fun k => rfl⟩, fun key hkey => ?_, fun key slot t hslot => ?_, rfl, rfl,
    fun race hrace => ?_⟩ rfl
  · cases hkey
  · cases hslot
  · cases hrace

theorem slots (h : Alongside cfg rules mcfg a b) :
    a.now = b.now ∧ (∀ k, a.live? k = b.live? (cfg.serverKey k)) ∧
      ∀ key, (b.live? key).isSome → ∃ k, key = cfg.serverKey k := by
  cases h with
  | intro h hevents =>
    exact ⟨h.mirrors.now.symm, fun k => (h.mirrors.slots k).symm, h.owned⟩

variable (hsame : SameSettings cfg rules mcfg) (hlock : cfg.lockTtl ≠ 0)
  (h : Alongside cfg rules mcfg a b)
include hsame hlock h

/-- Both stores give the same answer and log the same events, and then hold the same. -/
theorem perform {c : Call} (hc : c.Common) :
    (a.perform c).1 = (b.perform c).1 ∧
      (a.perform c).2.2.events = (b.perform c).2.2.events ∧
      Alongside cfg rules mcfg (a.perform c).2.1 (b.perform c).2.1 := by
  obtain @⟨m, r, h, hevents⟩ := h
  obtain ⟨hanswer, hlogged, hlinked⟩ := h.perform hsame hlock hc r.exchange.lt_scanRounds
  obtain ⟨hresult, hremote⟩ :=
    Observed.run_answer (RemoteStore.perform cfg rules r.exchange.scanRounds c) ⟨r, []⟩
  dsimp only at hremote hlogged
  refine ⟨(hresult.symm.trans hanswer).symm, ?_, ?_⟩
  · rw [hremote, hevents, List.nil_append] at hlogged
    exact hlogged.symm
  · change Alongside cfg rules mcfg (.memory mcfg (m.perform mcfg c).memory) (.remote cfg rules
      { Prod.snd (Program.run Remote.answer
          (RemoteStore.perform cfg rules r.exchange.scanRounds c) r) with
        events := []
        exchange :=
          { (Prod.snd (Program.run Remote.answer
              (RemoteStore.perform cfg rules r.exchange.scanRounds c) r)).exchange with
            received := [] } })
    rw [← hremote]
    exact .intro ⟨hlinked.mirrors, hlinked.owned, hlinked.counts, hlinked.issued,
      hlinked.alone.calm, hlinked.alone.others⟩ rfl

theorem step {e : StoreStep} (he : e.Common) : Alongside cfg rules mcfg (a.step e) (b.step e) := by
  cases e with
  | call c => exact (h.perform hsame hlock he).2.2
  | advance elapsed =>
    obtain @⟨m, r, h, hevents⟩ := h
    exact .intro (h.advance he) hevents

theorem after {steps : List StoreStep} (hsteps : ∀ e ∈ steps, e.Common) :
    Alongside cfg rules mcfg (a.after steps) (b.after steps) := by
  induction steps generalizing a b with
  | nil => exact h
  | cons e rest ih =>
    exact ih (h.step hsame hlock (hsteps e List.mem_cons_self))
      fun e' he' => hsteps e' (List.mem_cons_of_mem _ he')

end Alongside

/-- **Refinement.** Let a store in memory and a store on a server of its own be set up alike, with
locks that expire, start empty and go through the same calls and lapses of time. Then whatever call
comes next, both give the same answer and log the same events, and the server holds the live slots
of the store in memory under their names there, each with its deadline, and nothing else. -/
theorem remote_refines_memory {cfg : RemoteSettings} {rules : Rules} {mcfg : MemorySettings}
    (hsame : SameSettings cfg rules mcfg) (hlock : 0 < cfg.lockTtl) {steps : List StoreStep}
    (hsteps : ∀ e ∈ steps, e.Common) :
    let a := (Store.memory mcfg {}).after steps
    let b := (Store.remote cfg rules {}).after steps
    (∀ c : Call, c.Common → (a.perform c).1 = (b.perform c).1 ∧
      (a.perform c).2.2.events = (b.perform c).2.2.events) ∧
    a.now = b.now ∧ (∀ k, a.live? k = b.live? (cfg.serverKey k)) ∧
    ∀ key, (b.live? key).isSome → ∃ k, key = cfg.serverKey k := by
  have hne : cfg.lockTtl ≠ 0 := Nat.ne_of_gt hlock
  have halongside := (Alongside.start cfg rules mcfg).after hsame hne hsteps
  refine ⟨fun c hc => ?_, halongside.slots⟩
  obtain ⟨hanswer, hevents, -⟩ := halongside.perform hsame hne hc
  exact ⟨hanswer, hevents⟩

/-- A writer stores a value under two keys, half a second passes, and one of the keys is flushed. -/
def commonRun : List StoreStep :=
  [.call (.writeToken .update ["k", "l"]),
    .call (.setValue "k" ["k", "l"] "v" (Token.issue LockKind.update.name 0)
      (Duration.ofSeconds 1)),
    .advance (Duration.ofMillis 500), .call (.flush "k" false)]

/-- After the run, both stores find the other key with the deadline that it was given. -/
theorem remote_refines_memory_on_commonRun :
    ((Store.memory {} {}).after commonRun).live? "l" = some ⟨"v", some 1000000000⟩ ∧
    ((Store.remote RemoteStore.rooted Rules.standard {}).after commonRun).live? "app:l" =
      some ⟨"v", some 1000000000⟩ := by
  have hsteps : ∀ e ∈ commonRun, e.Common := by
    intro e he
    simp only [commonRun, List.mem_cons, List.not_mem_nil, or_false] at he
    rcases he with rfl | rfl | rfl | rfl
    · trivial
    · exact ⟨1000, by decide, by decide⟩
    · exact ⟨500, rfl⟩
    · trivial
  have hmemory : ((Store.memory {} {}).after commonRun).live? "l" =
      some ⟨"v", some 1000000000⟩ := by
    decide +kernel
  obtain ⟨-, -, hslots, -⟩ := remote_refines_memory RemoteStore.sameSettings_rooted
    (by decide) hsteps
  exact ⟨hmemory, (hslots "l").symm.trans hmemory⟩

end Store
end CacheCoherence
