import CacheCoherence.Proofs.Remote.Alone

/-!
# What a flush removes, however the keys are walked

A server walks its keys as it likes: a key may come up more than once, a batch may be empty, and
where a cursor leads to is the server's own business. All that it owes is that a walk ends and that
it passes every live key on the way. That is enough. Whatever is in the key root, in the root that
is flushed and in the keys themselves, a flush removes the live keys that start as asked, apart from
the tombstones that it is to keep, and no others.
-/
namespace CacheCoherence

theorem RemoteCall.run_bind_ok {σ α β : Type} (answer : (q : RemoteAction) → σ → q.Answer × σ)
    {p : RemoteCall α} {a : α} {s s' : σ} (h : Program.run answer p.run s = (.ok a, s'))
    (f : α → RemoteCall β) :
    Program.run answer (p >>= f).run s = Program.run answer (f a).run s' := by
  have hbind := Program.run_bind answer p.run (fun result => ExceptT.bindCont f result) s
  rw [h] at hbind
  exact hbind

/-- A leg of a walk over the keys of a server: the keys that it passes, and the cursor behind
them. -/
structure Leg where
  keys : List Key
  next : Nat
deriving DecidableEq

/-- A walk from the beginning comes to its end, and passes every live key on the way. -/
structure FullWalk (s : Server) (legs : List Leg) : Prop where
  ends : ∃ before last, legs = before ++ [last] ∧ last.next = 0 ∧ ∀ leg ∈ before, leg.next ≠ 0
  passes : ∀ key, (s.live? key).isSome → ∃ leg ∈ legs, key ∈ leg.keys

structure Walked where
  remote : Remote
  /-- Where the walk stands. -/
  cursor : Nat := 0
  /-- The legs to come. -/
  legs : List Leg

/-- Nothing is to go wrong on a server, and no other client is about to write to it. -/
structure Exchange.LeftAlone (x : Exchange) : Prop where
  failures : x.failures = []
  races : x.races = []

theorem Exchange.LeftAlone.command {x : Exchange} (h : x.LeftAlone) {α : Type} (name : String)
    (arguments : List String) (run : Server → α × Server) :
    ∃ x', x.command name arguments run = (.ok (run x.server).1, x') ∧ x'.LeftAlone ∧
      x'.server = (run x.server).2 := by
  refine ⟨{ x with
    received := x.received ++ [name :: arguments]
    server := (run x.server).2 }, ?_, ⟨h.failures, h.races⟩, rfl⟩
  simp [Exchange.command, h.failures, takeFailure, race, h.races, takeRace]

namespace Walked

/-- Takes one action of a call. A scan from where the walk stands is answered with the keys of the
next leg that match its pattern; any other scan fails. -/
def answer : (q : RemoteAction) → Walked → q.Answer × Walked
  | .request (.scan cursor pattern _), x =>
    match x.legs with
    | [] => (.error (.backend .server), x)
    | leg :: rest =>
      if cursor = x.cursor then
        (.ok (leg.next, leg.keys.filter (Glob.matchesText pattern)),
          { x with cursor := leg.next, legs := rest })
      else (.error (.backend .server), x)
  | q, x => ((x.remote.answer q).1, { x with remote := (x.remote.answer q).2 })

def server (x : Walked) : Server := x.remote.exchange.server

def LeftAlone (x : Walked) : Prop := x.remote.exchange.LeftAlone

/-- A request left the server in a state, and the walk where it was. -/
structure Came (x : Walked) (s : Server) (x' : Walked) : Prop where
  server : x'.server = s
  leftAlone : x'.LeftAlone
  cursor : x'.cursor = x.cursor
  legs : x'.legs = x.legs

section Requests
open RemoteCall
variable {x : Walked} {pattern : String} {leg : Leg} {rest : List Leg}

theorem run_scan (h : x.legs = leg :: rest) (count : Nat) :
    Program.run answer (scan x.cursor pattern count).run x =
      (.ok (leg.next, leg.keys.filter (Glob.matchesText pattern)),
        { x with cursor := leg.next, legs := rest }) := by
  change answer (.request (.scan x.cursor pattern count)) x = _
  rw [answer, h]
  exact if_pos rfl

theorem run_getMany (h : x.LeftAlone) (keys : List Key) :
    ∃ x', Program.run answer (getMany keys).run x = (.ok (keys.map x.server.content), x') ∧
      x.Came x.server x' := by
  obtain ⟨exchange, hcommand, halone, hserver⟩ :=
    Exchange.LeftAlone.command h "MGET" keys fun s => (keys.map s.content, s)
  refine ⟨{ x with remote := { x.remote with exchange } }, ?_, hserver, halone, rfl, rfl⟩
  exact congrArg (fun r => (r.1, { x with remote := { x.remote with exchange := r.2 } })) hcommand

theorem run_delete (h : x.LeftAlone) (keys : List Key) :
    ∃ x', Program.run answer (delete keys).run x = (.ok (), x') ∧
      x.Came (keys.foldl Server.delete x.server) x' := by
  obtain ⟨exchange, hcommand, halone, hserver⟩ :=
    Exchange.LeftAlone.command h "DEL" keys fun s => ((), keys.foldl Server.delete s)
  refine ⟨{ x with remote := { x.remote with exchange } }, ?_, hserver, halone, rfl, rfl⟩
  exact congrArg (fun r => (r.1, { x with remote := { x.remote with exchange := r.2 } })) hcommand

theorem run_victims (tombstones : Bool) (h : x.LeftAlone) (batch : List Key) :
    ∃ x', Program.run answer (RemoteStore.victims batch tombstones).run x =
        (.ok (batch.filter fun k => tombstones || !(x.server.content k).any isTombstone), x') ∧
      x.Came x.server x' := by
  unfold RemoteStore.victims
  cases tombstones with
  | true =>
    refine ⟨x, ?_, rfl, h, rfl, rfl⟩
    have hall : (batch.filter fun k => true || !(x.server.content k).any isTombstone) = batch :=
      List.filter_eq_self.2 fun _ _ => rfl
    rw [hall]
    rfl
  | false =>
    cases batch with
    | nil => exact ⟨x, rfl, rfl, h, rfl, rfl⟩
    | cons key others =>
      obtain ⟨x', hread, hcame⟩ := run_getMany h (key :: others)
      refine ⟨x', ?_, hcame⟩
      rw [if_neg (by simp), run_bind_ok answer hread, untombed_reading]
      simp only [Bool.false_or]
      rfl

end Requests

section Flush
open RemoteCall RemoteStore
variable {x : Walked} (pattern : String) (tombstones : Bool)

/-- A flush takes one leg of the walk, does to its keys what it is to do, and goes on behind it. -/
theorem run_leg {leg : Leg} {rest : List Leg} (h : x.LeftAlone) (hlegs : x.legs = leg :: rest)
    (rounds : Nat) :
    ∃ x', Program.run answer (flushFrom pattern tombstones x.cursor (rounds + 1)).run x =
        Program.run answer (if leg.next = 0 then return ()
          else flushFrom pattern tombstones leg.next rounds : RemoteCall Unit).run x' ∧
      x'.LeftAlone ∧ x'.cursor = leg.next ∧ x'.legs = rest ∧
      ∀ key, x'.server.live? key = if key ∈ leg.keys then
        spared? pattern tombstones key (x.server.live? key) else x.server.live? key := by
  let scanned : Walked := { x with cursor := leg.next, legs := rest }
  obtain ⟨read, hread, hcame⟩ := run_victims (x := scanned) tombstones h
    (leg.keys.filter (Glob.matchesText pattern))
  rw [flushFrom, run_bind_ok answer (run_scan hlegs scanBatch), run_bind_ok answer hread]
  -- What is removed is what the flush is to remove of the leg's keys.
  have hlive := live?_batch pattern tombstones x.server leg.keys
  change ∀ key, Server.live? ((List.filter (fun k => tombstones ||
    !(scanned.server.content k).any isTombstone) _).foldl Server.delete x.server) key = _ at hlive
  generalize (leg.keys.filter (Glob.matchesText pattern)).filter (fun k =>
    tombstones || !(scanned.server.content k).any isTombstone) = gone at hlive ⊢
  cases gone with
  | nil =>
    refine ⟨read, rfl, hcame.leftAlone, hcame.cursor, hcame.legs, fun key => ?_⟩
    rw [hcame.server]
    exact hlive key
  | cons key others =>
    obtain ⟨x', hdelete, hdeleted⟩ := run_delete hcame.leftAlone (key :: others)
    refine ⟨x', run_bind_ok answer hdelete _, hdeleted.leftAlone,
      hdeleted.cursor.trans hcame.cursor, hdeleted.legs.trans hcame.legs, fun key => ?_⟩
    rw [hdeleted.server, hcame.server]
    exact hlive key

theorem spared?_spared? (key : Key) (slot : Option Slot) :
    spared? pattern tombstones key (spared? pattern tombstones key slot) =
      spared? pattern tombstones key slot := by
  unfold spared?
  rw [Option.filter_filter]
  simp only [Bool.and_self]

/-- A flush that goes on to the end of a walk does to all keys that the walk passes what it is to
do. The induction is on the legs ahead of the last. -/
theorem run_flushFrom {before : List Leg} {last : Leg} (h : x.LeftAlone)
    (hlegs : x.legs = before ++ [last]) (hlast : last.next = 0)
    (hbefore : ∀ leg ∈ before, leg.next ≠ 0) {rounds : Nat} (hrounds : x.legs.length ≤ rounds) :
    ∃ x', Program.run answer (flushFrom pattern tombstones x.cursor rounds).run x = (.ok (), x') ∧
      ∀ key, x'.server.live? key = if ∃ leg ∈ x.legs, key ∈ leg.keys then
        spared? pattern tombstones key (x.server.live? key) else x.server.live? key := by
  rw [hlegs] at hrounds ⊢
  induction before generalizing x rounds with
  | nil =>
    obtain ⟨rounds, rfl⟩ := Nat.exists_eq_add_of_le' hrounds
    obtain ⟨x', hrun, -, -, -, hlive⟩ := run_leg pattern tombstones h hlegs rounds
    refine ⟨x', ?_, fun key => ?_⟩
    · rw [List.nil_append, List.length_singleton, hrun, if_pos hlast]
      rfl
    · rw [hlive]
      simp
  | cons leg before ih =>
    rw [List.cons_append, List.length_cons] at hrounds
    obtain ⟨rounds, rfl⟩ := Nat.exists_eq_add_of_le' (Nat.le_trans (Nat.le_add_left 1 _) hrounds)
    obtain ⟨x₁, hrun, halone, hcursor, hrest, hlive₁⟩ := run_leg pattern tombstones h hlegs rounds
    obtain ⟨x', hrun', hlive⟩ := ih halone hrest
      (fun leg hleg => hbefore leg (List.mem_cons_of_mem _ hleg)) (Nat.le_of_succ_le_succ hrounds)
    refine ⟨x', ?_, fun key => ?_⟩
    · rw [hrun, if_neg (hbefore leg List.mem_cons_self), ← hcursor]
      exact hrun'
    · rw [hlive, hlive₁]
      simp only [List.cons_append, List.mem_cons, exists_eq_or_imp]
      by_cases hleg : key ∈ leg.keys
      · simp only [hleg, if_true, true_or, spared?_spared?, ite_self]
      · simp only [hleg, if_false, false_or]

end Flush
end Walked

namespace RemoteStore

theorem scanPattern_selects_iff (cfg : RemoteSettings) (root key : String) :
    Glob.matchesText (cfg.scanPattern root) key = true ↔
      (cfg.serverKey root).toList <+: key.toList := by
  rw [RemoteSettings.scanPattern, Glob.matchesText_startingWith, isUnder,
    List.isPrefixOf_iff_prefix]

/-- **What a flush removes.** The pattern of a flush selects the keys that start with the root that
is flushed, as it is on the server. On a server that is left alone the flush succeeds on every full
walk and removes exactly the live keys that start so, apart from tombstones if these are to be kept.
Every other slot stays as it is. -/
theorem flush_removes_its_keys (cfg : RemoteSettings) (rules : Rules) (root : String)
    (tombstones : Bool) :
    (∀ key, Glob.matchesText (cfg.scanPattern root) key = true ↔
      (cfg.serverKey root).toList <+: key.toList) ∧
    ∀ (r : Remote) (legs : List Leg) (rounds : Nat), r.exchange.LeftAlone →
      FullWalk r.exchange.server legs → legs.length ≤ rounds →
      ∃ x', (perform cfg rules rounds (.flush root tombstones)).run Walked.answer
          { remote := r, legs } = (.ok (), x') ∧
        ∀ key, x'.server.live? key = if (cfg.serverKey root).toList <+: key.toList ∧
          (tombstones = true ∨ r.exchange.server.content key ≠ some Token.tombstone) then none
          else r.exchange.server.live? key := by
  refine ⟨scanPattern_selects_iff cfg root, fun r legs rounds halone hwalk hrounds => ?_⟩
  obtain ⟨before, last, hlegs, hlast, hbefore⟩ := hwalk.ends
  obtain ⟨x', hrun, hlive⟩ := Walked.run_flushFrom (x := { remote := r, legs })
    (cfg.scanPattern root) tombstones halone hlegs hlast hbefore hrounds
  refine ⟨x', hrun, fun key => ?_⟩
  have hspared : x'.server.live? key =
      spared? (cfg.scanPattern root) tombstones key (r.exchange.server.live? key) := by
    rw [hlive]
    split
    · rfl
    · -- What the walk does not pass is not live, so nothing is left to spare.
      rename_i hpassed
      have hnone : r.exchange.server.live? key = none := by
        rw [← Option.not_isSome_iff_eq_none]
        exact fun hsome => hpassed (hwalk.passes key hsome)
      change r.exchange.server.live? key = _
      rw [hnone]
      rfl
  rw [hspared, spared?, Memory.filter_spared, ← Server.content_eq_live?]
  exact if_congr (and_congr_left' (scanPattern_selects_iff cfg root key)) rfl rfl

/-- A server with keys full of characters that have a meaning in patterns, two of them under the
root `ns[1]` of the key root `a*b`, and a third that an unescaped pattern would select, too. -/
def crowdedServer : Server where
  slots := ((Slots.put .empty 0 "a*b:ns[1]^?" "v" 0).put 0 "a*b:ns[1]\\"
    Token.tombstone 0).put 0 "a-b:ns1" "v" 0

/-- A walk over them with an empty leg, in which one key comes up twice. -/
def crookedWalk : List Leg :=
  [⟨["a-b:ns1", "a*b:ns[1]^?"], 7⟩, ⟨[], 7⟩, ⟨["a*b:ns[1]\\", "a*b:ns[1]^?"], 0⟩]

theorem flush_removes_its_keys_of_crowdedServer :
    ({ server := crowdedServer } : Exchange).LeftAlone ∧ FullWalk crowdedServer crookedWalk ∧
      ∃ x', (perform { keyRoot := some "a*b" } Rules.standard 3 (.flush "ns[1]" false)).run
          Walked.answer
            { remote := { exchange := { server := crowdedServer } }, legs := crookedWalk } =
            (.ok (), x') ∧
        x'.server.content "a*b:ns[1]^?" = none ∧
        x'.server.content "a*b:ns[1]\\" = some Token.tombstone ∧
        x'.server.content "a-b:ns1" = some "v" := by
  have halone : ({ server := crowdedServer } : Exchange).LeftAlone := ⟨rfl, rfl⟩
  have hkeys : crowdedServer.ahead 0 = ["a*b:ns[1]\\", "a*b:ns[1]^?", "a-b:ns1"] := by
    decide +kernel
  have hwalk : FullWalk crowdedServer crookedWalk := by
    refine ⟨⟨crookedWalk.take 2, _, rfl, rfl, by decide⟩, fun key hlive => ?_⟩
    rw [← Server.mem_ahead_zero, hkeys] at hlive
    revert key
    decide
  obtain ⟨x', hrun, hlive⟩ := (flush_removes_its_keys { keyRoot := some "a*b" } Rules.standard
    "ns[1]" false).2 { exchange := { server := crowdedServer } } crookedWalk 3 halone hwalk
    (Nat.le_refl 3)
  refine ⟨halone, hwalk, x', hrun, ?_, ?_, ?_⟩ <;>
    rw [Server.content_eq_live?, hlive] <;> decide +kernel

end RemoteStore
end CacheCoherence
