import CacheCoherence.Proofs.Memory.Runs
import CacheCoherence.Proofs.Remote.Atomicity
import CacheCoherence.Proofs.Server.Scan

/-!
# A store alone on its server

Where no other client writes and the server does not fail, each call finds the server as the calls
before it left it. A store on a server and a store in memory are linked if the server holds exactly
what the store in memory holds. Every call keeps them linked and is answered alike by both.
-/
namespace CacheCoherence

namespace Observed

/-- The server does not fail, and no other client writes to it. -/
structure Alone (o : Observed) : Prop where
  calm : o.Calm
  others : o.remote.exchange.OthersAre fun _ => False

/-- A request left the server in a state that nobody else touched. -/
structure Undisturbed (o : Observed) (s : Server) (o' : Observed) : Prop where
  server : o'.server = s
  alone : o'.Alone
  silent : o.Silent o'

theorem Alone.run {α : Type} {o : Observed} (h : o.Alone) (p : RemoteProgram α) :
    ∃ hs, (p.run answer o).2.log = o.log ++ hs ∧ (p.run answer o).2.Alone ∧
      (p.run answer o).2.server.Alike (o.server.after hs) ∧ ∀ w, .other w ∉ hs := by
  obtain ⟨hs, hlog, hcalm, hserver, hothers, hnone⟩ := run_accounts p h.calm h.others
  exact ⟨hs, hlog, ⟨hcalm, hothers⟩, hserver, hnone⟩

end Observed

namespace RemoteCall
open Observed
variable {α : Type} {o : Observed}

theorem on_alone {p : RemoteCall α} {a : α} {s : Server} {hs : List Happening} (ho : o.Alone)
    (h : ∃ ws o', p.on o = (.ok a, o') ∧ o.Passed s hs ws o') :
    ∃ o', p.on o = (.ok a, o') ∧ o.Undisturbed s o' := by
  obtain ⟨ws, o', hrun, hpassed⟩ := h
  obtain ⟨hs', hlog, halone, -, hnone⟩ := ho.run p.run
  have hfinal : (Program.run answer p.run o).2 = o' := congrArg Prod.snd hrun
  rw [hfinal] at hlog halone
  obtain rfl : hs' = hs ++ ws.map .other :=
    List.append_cancel_left (hlog.symm.trans hpassed.log)
  refine ⟨o', hrun, ?_, halone, hpassed.silent⟩
  rw [hpassed.server]
  cases ws with
  | nil => rfl
  | cons w rest => exact absurd (List.mem_append_right hs List.mem_cons_self) (hnone w)

section Requests
variable (h : o.Alone)
include h

theorem on_get_alone (key : Key) :
    ∃ o', (get key).on o = (.ok (o.server.content key), o') ∧ o.Undisturbed o.server o' :=
  on_alone h (on_get h.calm key)

theorem on_getMany_alone (keys : List Key) :
    ∃ o', (getMany keys).on o = (.ok (keys.map o.server.content), o') ∧
      o.Undisturbed o.server o' :=
  on_alone h (on_getMany h.calm keys)

theorem on_setIfAbsent_alone (key : Key) (text : String) (px : Nat) :
    ∃ o', (setIfAbsent key text px).on o = (.ok (o.server.setIfAbsent key text px).1, o') ∧
      o.Undisturbed (o.server.setIfAbsent key text px).2 o' :=
  on_alone h (on_command h.calm "SET" [key, text, "NX", "PX", toString px]
    (fun s => s.setIfAbsent key text px) _ rfl)

theorem on_issue_alone (tag : String) :
    ∃ o', (issue tag).on o = (.ok (Token.issue tag o.remote.issued), o') ∧ o'.server = o.server ∧
      o'.Alone ∧ o'.remote.issued = o.remote.issued + 1 ∧ o'.remote.events = o.remote.events :=
  ⟨_, on_issue tag o, rfl, ⟨h.calm, h.others⟩, rfl, rfl⟩

theorem on_scan_alone (cursor : Nat) (pattern : String) (count : Nat) :
    ∃ o', (scan cursor pattern count).on o = (.ok (o.server.scan cursor pattern count).1, o') ∧
      o.Undisturbed (o.server.scan cursor pattern count).2 o' :=
  on_alone h (on_command h.calm "SCAN"
    [toString cursor, "MATCH", pattern, "COUNT", toString count]
    (fun s => s.scan cursor pattern count) [] rfl)

theorem on_delete_alone (keys : List Key) :
    ∃ o', (delete keys).on o = (.ok (), o') ∧
      o.Undisturbed (keys.foldl Server.delete o.server) o' :=
  on_alone h (on_command h.calm "DEL" keys (fun s => ((), keys.foldl Server.delete s))
    [.ran (keys.map .delete)] rfl)

end Requests
end RemoteCall

theorem Server.setIfAbsent_of_empty {s : Server} {key : Key} (h : s.content key = none)
    (text : String) {ttl : Nat} (httl : ttl ≠ 0) :
    s.setIfAbsent key text (Duration.serverMillis ttl) =
      (true, s.write (.lasting key text ttl)) := by
  simp [setIfAbsent, h, Write.lasting, httl, write]

/-- A server on which all that is live belongs to the store. -/
def Owned (cfg : RemoteSettings) (s : Server) : Prop :=
  ∀ key, (s.live? key).isSome → ∃ k, key = cfg.serverKey k

/-- A store alone on its server holds what a store in memory holds. -/
structure Linked (cfg : RemoteSettings) (m : Memory) (o : Observed) : Prop where
  mirrors : Mirrors cfg o.server m
  owned : Owned cfg o.server
  counts : o.server.Counts
  issued : m.issued = o.remote.issued
  alone : o.Alone

theorem Owned.foldl_write {cfg : RemoteSettings} {s : Server} {ws : List Write} (h : Owned cfg s)
    (hws : ∀ w ∈ ws, RemoteStore.OwnWrite cfg w) : Owned cfg (ws.foldl Server.write s) := by
  intro key hlive
  by_cases hkey : ∃ w ∈ ws, key = w.key
  · obtain ⟨w, hw, rfl⟩ := hkey
    exact (hws w hw).key
  · rw [Server.live?_foldl_write_of_not_mem ws s fun w hw heq => hkey ⟨w, hw, heq⟩] at hlive
    exact h key hlive

namespace Linked
open RemoteCall Observed
variable {cfg : RemoteSettings} {rules : Rules} {mcfg : MemorySettings} {m m' : Memory}
  {o o' : Observed}

theorem wrote (h : Linked cfg m o) (ws : List Write) (hws : ∀ w ∈ ws, RemoteStore.OwnWrite cfg w)
    (hserver : o'.server.Alike (ws.foldl Server.write o.server))
    (hmirrors : Mirrors cfg (ws.foldl Server.write o.server) m')
    (hissued : m'.issued = o'.remote.issued) (halone : o'.Alone) : Linked cfg m' o' where
  mirrors := hmirrors.congr hserver.slots hserver.now rfl rfl
  owned := by
    intro key hlive
    rw [hserver.live?] at hlive
    exact h.owned.foldl_write hws key hlive
  counts := by
    intro key slot t hlive
    rw [hserver.live?] at hlive
    rw [hserver.now]
    exact h.counts.foldl_write (fun w hw => (hws w hw).countable) key slot t hlive
  issued := hissued
  alone := halone

theorem undisturbed (h : Linked cfg m o) (hundisturbed : o.Undisturbed o.server o') :
    Linked cfg m o' := by
  refine h.wrote [] (fun w hw => by cases hw) ?_ h.mirrors
    (h.issued.trans hundisturbed.silent.1.symm) hundisturbed.alone
  rw [hundisturbed.server]
  exact .refl _

/-- What a read found is resolved as the store in memory does it. -/
theorem resolve (hsame : SameSettings cfg rules mcfg) (hlock : cfg.lockTtl ≠ 0) (h : Linked cfg m o)
    (key : Key) (lock : Bool) :
    ∃ o', (RemoteStore.resolve cfg (cfg.serverKey key) (m.content key) lock).on o =
        (.ok (m.lookup mcfg key lock).1, o') ∧
      Linked cfg (m.lookup mcfg key lock).2 o' ∧ o'.remote.events = o.remote.events := by
  cases hcontent : m.content key with
  | some raw =>
    rw [Memory.lookup_of_content mcfg m key lock hcontent]
    exact ⟨o, rfl, h, rfl⟩
  | none =>
    rw [Memory.lookup_of_empty mcfg m key lock hcontent]
    cases lock with
    | false => exact ⟨o, rfl, h, rfl⟩
    | true =>
      obtain ⟨o₁, hissue, hsame₁, halone, hissued, hevents⟩ :=
        on_issue_alone h.alone LockKind.read.name
      obtain ⟨o₂, hset, hundisturbed⟩ := on_setIfAbsent_alone halone (cfg.serverKey key)
        (Token.issue LockKind.read.name m.issued) (Duration.serverMillis cfg.lockTtl)
      have hempty : o.server.content (cfg.serverKey key) = none :=
        (h.mirrors.content key).trans hcontent
      have habsent := Server.setIfAbsent_of_empty hempty
        (Token.issue LockKind.read.name m.issued) hlock
      have hserver := hundisturbed.server
      rw [hsame₁, habsent] at hset hserver
      rw [← h.issued] at hissue hissued
      refine ⟨o₂, ?_, ?_, hundisturbed.silent.2.trans hevents⟩
      · rw [RemoteStore.resolve, if_neg (by simp), on_bind_of_ok hissue, on_bind_of_ok hset]
        rfl
      · refine h.wrote [.lasting (cfg.serverKey key)
          (Token.issue LockKind.read.name m.issued) cfg.lockTtl] ?_ ?_ ?_ ?_ hundisturbed.alone
        · intro w hw
          rw [List.mem_singleton.1 hw]
          exact .lasting key _ hsame.countable_lockTtl
        · rw [hserver]
          exact .refl _
        · simp only [if_true, hsame.lockTtl]
          exact (h.mirrors.put (m := m) key hsame.countable_lockTtl).congr rfl rfl rfl rfl
        · exact hissued.symm.trans hundisturbed.silent.1.symm

theorem getValue (hsame : SameSettings cfg rules mcfg) (hlock : cfg.lockTtl ≠ 0)
    (h : Linked cfg m o) (key : Key) (lock : Bool) :
    ∃ o', (RemoteStore.getValue cfg key lock).on o = ((m.getValue mcfg key lock).answer, o') ∧
      Linked cfg (m.getValue mcfg key lock).memory o' ∧ o'.remote.events = o.remote.events := by
  obtain ⟨o₁, hget, hundisturbed⟩ := on_get_alone h.alone (cfg.serverKey key)
  obtain ⟨o', hresolve, hlinked, hevents⟩ :=
    (h.undisturbed hundisturbed).resolve hsame hlock key lock
  refine ⟨o', ?_, hlinked, hevents.trans hundisturbed.silent.2⟩
  rw [RemoteStore.getValue, on_bind_of_ok hget, h.mirrors.content]
  exact hresolve

/-- Reading different keys at once and then resolving them one by one comes to reading them one by
one: a read lock on one key does not change what another holds. -/
theorem resolveAll (hsame : SameSettings cfg rules mcfg) (hlock : cfg.lockTtl ≠ 0)
    (reads : List (Key × Bool)) (hkeys : (reads.map Prod.fst).Nodup) (read : Key → Option String)
    (hread : ∀ r ∈ reads, read r.1 = m.content r.1) (h : Linked cfg m o) :
    ∃ o', (RemoteStore.resolveAll cfg
        (reads.map fun r => (cfg.serverKey r.1, read r.1, r.2))).on o =
          (.ok (Memory.lookups mcfg reads m).1, o') ∧
      Linked cfg (Memory.lookups mcfg reads m).2 o' ∧ o'.remote.events = o.remote.events := by
  induction reads generalizing m o with
  | nil => exact ⟨o, rfl, h, rfl⟩
  | cons r rest ih =>
    obtain ⟨key, lock⟩ := r
    obtain ⟨hkey, hrest⟩ := List.nodup_cons.1 hkeys
    obtain ⟨o₁, hresolve, hlinked, hevents⟩ := h.resolve hsame hlock key lock
    have hothers : ∀ r ∈ rest, read r.1 = (m.lookup mcfg key lock).2.content r.1 := by
      intro r hr
      have hne : r.1 ≠ key := fun heq => hkey (List.mem_map.2 ⟨r, hr, heq⟩)
      rw [hread r (List.mem_cons_of_mem _ hr)]
      refine (Memory.content_of_live? ?_).symm
      rw [Memory.live?_lookup, if_neg fun hc => hne hc.1]
    obtain ⟨o', hresolveAll, hlinked', hevents'⟩ := ih hrest hothers hlinked
    refine ⟨o', ?_, hlinked', hevents'.trans hevents⟩
    rw [List.map_cons, RemoteStore.resolveAll, hread _ List.mem_cons_self,
      on_bind_of_ok hresolve, on_bind_of_ok hresolveAll]
    rfl

theorem zip_reads (f : Key → Key) (g : Key → Option String) (keys : List Key)
    (locks : List Bool) :
    (keys.map f).zip ((keys.map g).zip locks) =
      (keys.zip locks).map fun r => (f r.1, g r.1, r.2) := by
  induction keys generalizing locks with
  | nil => rfl
  | cons key rest ih =>
    cases locks with
    | nil => rfl
    | cons lock others => simp only [List.map_cons, List.zip_cons_cons, ih]

theorem getValues (hsame : SameSettings cfg rules mcfg) (hlock : cfg.lockTtl ≠ 0)
    (h : Linked cfg m o) {keys : List Key} (hkeys : keys.Nodup) (locks : List Bool) :
    ∃ o', (RemoteStore.getValues cfg keys locks).on o =
        ((m.getValues mcfg keys locks).answer, o') ∧
      Linked cfg (m.getValues mcfg keys locks).memory o' ∧
      o'.remote.events = o.remote.events := by
  rw [RemoteStore.getValues, Memory.getValues]
  by_cases hlengths : keys.length = locks.length
  · rw [if_neg (by simpa using hlengths), if_pos hlengths]
    cases keys with
    | nil => exact ⟨o, rfl, h, rfl⟩
    | cons key rest =>
      obtain ⟨o₁, hget, hundisturbed⟩ :=
        on_getMany_alone h.alone ((key :: rest).map cfg.serverKey)
      have hreads : (((key :: rest).zip locks).map Prod.fst) = key :: rest :=
        List.map_fst_zip (Nat.le_of_eq hlengths)
      obtain ⟨o', hresolve, hlinked, hevents⟩ := (h.undisturbed hundisturbed).resolveAll hsame
        hlock ((key :: rest).zip locks) (hreads.symm ▸ hkeys) m.content (fun _ _ => rfl)
      refine ⟨o', ?_, hlinked, hevents.trans hundisturbed.silent.2⟩
      rw [if_neg (by simp)]
      dsimp only
      rw [on_bind_of_ok hget, List.map_map, zip_reads]
      simp only [Function.comp_apply, h.mirrors.content]
      exact hresolve
  · rw [if_pos hlengths, if_neg hlengths]
    exact ⟨o, rfl, h, rfl⟩

end Linked

section Flush
open RemoteCall Observed
variable {o : Observed} (pattern : String) (tombstones : Bool)

/-- What a flush leaves of a slot. -/
def spared? (key : Key) (slot : Option Slot) : Option Slot :=
  slot.filter fun s => !Glob.matchesText pattern key || (!tombstones && isTombstone s.text)

theorem untombed_reading (batch : List Key) (held : Key → Option String) :
    ((batch.zip (batch.map held)).filter fun slot => !slot.2.any isTombstone).map (·.1) =
      batch.filter fun k => !(held k).any isTombstone := by
  rw [← List.map_prod_left_eq_zip, List.filter_map, List.map_map]
  exact List.map_id _

theorem on_victims (h : o.Alone) (batch : List Key) :
    ∃ o', (RemoteStore.victims batch tombstones).on o =
        (.ok (batch.filter fun k => tombstones || !(o.server.content k).any isTombstone), o') ∧
      o.Undisturbed o.server o' := by
  unfold RemoteStore.victims
  by_cases hall : (tombstones || batch.isEmpty) = true
  · refine ⟨o, ?_, rfl, h, rfl, rfl⟩
    rw [if_pos hall, on_pure, List.filter_eq_self.2]
    intro k hk
    cases tombstones with
    | true => rfl
    | false =>
      rw [List.isEmpty_iff.1 hall] at hk
      cases hk
  · obtain ⟨o', hget, hundisturbed⟩ := on_getMany_alone h batch
    refine ⟨o', ?_, hundisturbed⟩
    rw [if_neg hall, on_bind_of_ok hget, on_pure, untombed_reading]
    have htombstones : tombstones = false := by
      cases tombstones with
      | true => exact absurd rfl hall
      | false => rfl
    rw [htombstones]
    rfl

/-- One batch of a flush does to its keys what the flush is to do. -/
theorem live?_batch (s : Server) (walked : List Key) (key : Key) :
    (((walked.filter (Glob.matchesText pattern)).filter fun k =>
        tombstones || !(s.content k).any isTombstone).foldl Server.delete s).live? key =
      if key ∈ walked then spared? pattern tombstones key (s.live? key) else s.live? key := by
  rw [Server.live?_foldl_delete]
  simp only [List.mem_filter]
  unfold spared?
  by_cases hbatch : key ∈ walked
  · rw [if_pos hbatch]
    cases hlive : s.live? key with
    | none => simp
    | some slot =>
      have hcontent : s.content key = some slot.text := by
        rw [Server.content_eq_live?, hlive]
        rfl
      rw [hcontent]
      cases Glob.matchesText pattern key <;> cases tombstones <;>
        cases htombstone : isTombstone slot.text <;> simp [hbatch, htombstone, Option.filter]
  · rw [if_neg hbatch, if_neg fun h => hbatch h.1.1]

/-- The keys that a flush removes from the next batch of its scan. -/
def flushed (s : Server) (cursor : Nat) : List Key :=
  (((s.ahead cursor).take RemoteStore.scanBatch).filter (Glob.matchesText pattern)).filter
    fun k => tombstones || !(s.content k).any isTombstone

/-- A flush takes one batch, removes what is to be removed, and goes on behind it. -/
theorem on_flushBatch (rounds cursor : Nat) (h : o.Alone) :
    ∃ o', (RemoteStore.flushFrom pattern tombstones cursor (rounds + 1)).on o =
        (if (o.server.scan cursor pattern RemoteStore.scanBatch).1.1 = 0 then pure ()
          else RemoteStore.flushFrom pattern tombstones
            (o.server.scan cursor pattern RemoteStore.scanBatch).1.1 rounds).on o' ∧
      o.Undisturbed ((flushed pattern tombstones o.server cursor).foldl Server.delete
        (o.server.scan cursor pattern RemoteStore.scanBatch).2) o' := by
  obtain ⟨o₁, hscan, hscanned⟩ := on_scan_alone h cursor pattern RemoteStore.scanBatch
  obtain ⟨o₂, hvictims, hread⟩ := on_victims tombstones hscanned.alone
    (o.server.scan cursor pattern RemoteStore.scanBatch).1.2
  have hgone : ((o.server.scan cursor pattern RemoteStore.scanBatch).1.2.filter fun k =>
      tombstones || !(o₁.server.content k).any isTombstone) =
      flushed pattern tombstones o.server cursor := by
    have hfound : (o.server.scan cursor pattern RemoteStore.scanBatch).1.2 =
        ((o.server.ahead cursor).take RemoteStore.scanBatch).filter (Glob.matchesText pattern) := by
      rw [Server.scan_eq]
      split <;> rfl
    rw [hfound, flushed, hscanned.server]
    simp only [(Server.alike_scan o.server cursor pattern RemoteStore.scanBatch).content]
  rw [hgone] at hvictims
  rw [RemoteStore.flushFrom, on_bind_of_ok hscan, on_bind_of_ok hvictims]
  cases hempty : (flushed pattern tombstones o.server cursor).isEmpty with
  | true =>
    refine ⟨o₂, rfl, ?_, hread.alone, hscanned.silent.trans hread.silent⟩
    rw [List.isEmpty_iff.1 hempty, hread.server, hscanned.server]
    rfl
  | false =>
    obtain ⟨o₃, hdelete, hdeleted⟩ :=
      on_delete_alone hread.alone (flushed pattern tombstones o.server cursor)
    refine ⟨o₃, ?_, ?_, hdeleted.alone, (hscanned.silent.trans hread.silent).trans hdeleted.silent⟩
    · exact on_bind_of_ok hdelete _
    · rw [hdeleted.server, hread.server, hscanned.server]

/-- A flush from a cursor on does to the keys ahead what it is to do, and ends. -/
theorem on_flushFrom (rounds cursor : Nat) (h : o.Alone)
    (hrounds : (o.server.ahead cursor).length < rounds) :
    ∃ o', (RemoteStore.flushFrom pattern tombstones cursor rounds).on o = (.ok (), o') ∧
      o'.Alone ∧ o.Silent o' ∧ o'.server.now = o.server.now ∧
      ∀ key, o'.server.live? key =
        if key ∈ o.server.ahead cursor then spared? pattern tombstones key (o.server.live? key)
        else o.server.live? key := by
  induction rounds generalizing cursor o with
  | zero => exact absurd hrounds (Nat.not_lt_zero _)
  | succ rounds ih =>
    obtain ⟨o₁, hbatch, hundisturbed⟩ := on_flushBatch pattern tombstones rounds cursor h
    have halike := Server.alike_scan o.server cursor pattern RemoteStore.scanBatch
    have hnow : o₁.server.now = o.server.now := by
      rw [hundisturbed.server, Server.foldl_delete, Server.now_foldl_write, halike.now]
    have hlive (key : Key) : o₁.server.live? key =
        if key ∈ (o.server.ahead cursor).take RemoteStore.scanBatch then
          spared? pattern tombstones key (o.server.live? key)
        else o.server.live? key := by
      rw [hundisturbed.server, Server.live?_foldl_delete, halike.live?,
        ← Server.live?_foldl_delete]
      exact live?_batch pattern tombstones o.server
        ((o.server.ahead cursor).take RemoteStore.scanBatch) key
    rw [hbatch]
    have hsplit := List.take_append_drop RemoteStore.scanBatch (o.server.ahead cursor)
    by_cases hdrop : (o.server.ahead cursor).drop RemoteStore.scanBatch = []
    · rw [hdrop, List.append_nil] at hsplit
      rw [hsplit] at hlive
      rw [if_pos (Server.scan_last hdrop pattern), on_pure]
      exact ⟨o₁, rfl, hundisturbed.alone, hundisturbed.silent, hnow, hlive⟩
    · obtain ⟨last, hlast, hnext, hscanned⟩ :=
        Server.scan_more hdrop (by decide : RemoteStore.scanBatch ≠ 0) pattern
      have hcursor : o₁.server.cursors[o.server.cursors.length]? = some last := by
        rw [hundisturbed.server, Server.foldl_delete, Server.cursors_foldl_write, hscanned]
        exact List.getElem?_concat_length
      have hahead : o₁.server.ahead (o.server.cursors.length + 1) =
          (o.server.ahead cursor).drop RemoteStore.scanBatch :=
        Server.ahead_next hlast hcursor fun key hlt => by
          rw [hlive, if_neg (Server.not_mem_take_of_lt hlast hlt)]
      have hshorter : (o₁.server.ahead (o.server.cursors.length + 1)).length < rounds := by
        have hlength := congrArg List.length hsplit
        have htake : 0 < ((o.server.ahead cursor).take RemoteStore.scanBatch).length :=
          List.length_pos_of_mem (List.mem_of_getLast? hlast)
        rw [List.length_append] at hlength
        rw [hahead]
        omega
      obtain ⟨o', hrest, halone, hsilent, hnow', hlive'⟩ := ih _ hundisturbed.alone hshorter
      refine ⟨o', ?_, halone, hundisturbed.silent.trans hsilent, hnow'.trans hnow, fun key => ?_⟩
      · rw [hnext, if_neg (Nat.succ_ne_zero _)]
        exact hrest
      · have hmem : key ∈ o.server.ahead cursor ↔
            key ∈ (o.server.ahead cursor).take RemoteStore.scanBatch ∨
              key ∈ (o.server.ahead cursor).drop RemoteStore.scanBatch := by
          rw [← List.mem_append, hsplit]
        rw [hlive', hahead, hlive, if_congr hmem rfl rfl]
        by_cases htake : key ∈ (o.server.ahead cursor).take RemoteStore.scanBatch
        · rw [if_neg (Server.not_mem_drop_of_mem_take htake), if_pos htake, if_pos (.inl htake)]
        · simp only [htake, if_false, false_or]

theorem isUnder_serverKey (cfg : RemoteSettings) (root k : Key) :
    isUnder (cfg.serverKey root) (cfg.serverKey k) = isUnder root k := by
  unfold isUnder RemoteSettings.serverKey
  cases cfg.keyRoot with
  | none => rfl
  | some keyRoot =>
    rw [Bool.eq_iff_iff, List.isPrefixOf_iff_prefix, List.isPrefixOf_iff_prefix]
    simp only [String.toList_append]
    exact List.prefix_append_right_inj _

theorem on_flush (cfg : RemoteSettings) (h : o.Alone) (rounds : Nat) (root : String)
    (hrounds : o.server.slots.entries.length < rounds) :
    ∃ o', (RemoteStore.flush cfg rounds root tombstones).on o = (.ok (), o') ∧
      o'.Alone ∧ o.Silent o' ∧ o'.server.now = o.server.now ∧
      ∀ key, o'.server.live? key =
        spared? (cfg.scanPattern root) tombstones key (o.server.live? key) := by
  obtain ⟨o', hflush, halone, hsilent, hnow, hlive⟩ := on_flushFrom (cfg.scanPattern root)
    tombstones rounds 0 h (Nat.lt_of_le_of_lt Server.length_ahead_zero hrounds)
  refine ⟨o', hflush, halone, hsilent, hnow, fun key => ?_⟩
  rw [hlive]
  split
  · rfl
  · rename_i hgone
    rw [Server.mem_ahead_zero, Bool.not_eq_true, Option.isSome_eq_false_iff] at hgone
    rw [Option.isNone_iff_eq_none.1 hgone]
    rfl

theorem matchesText_scanPattern (cfg : RemoteSettings) (root key : String) :
    Glob.matchesText (cfg.scanPattern root) (cfg.serverKey key) = isUnder root key :=
  (Glob.matchesText_startingWith _ _).trans (isUnder_serverKey cfg root key)

/-- A flush does on the server what it does in memory. -/
theorem Linked.flush {cfg : RemoteSettings} {m : Memory} (h : Linked cfg m o) (rounds : Nat)
    (root : String) (hrounds : o.server.slots.entries.length < rounds) :
    ∃ o', (RemoteStore.flush cfg rounds root tombstones).on o =
        ((m.flush root tombstones).answer, o') ∧
      Linked cfg (m.flush root tombstones).memory o' ∧ o'.remote.events = o.remote.events := by
  obtain ⟨o', hflush, halone, hsilent, hnow, hspared⟩ :=
    on_flush tombstones cfg h.alone rounds root hrounds
  refine ⟨o', hflush, ⟨⟨?_, ?_⟩, ?_, ?_, ?_, halone⟩, hsilent.2⟩
  · exact hnow.trans h.mirrors.now
  · intro k
    rw [hspared, h.mirrors.slots, Memory.live?_flush, spared?, matchesText_scanPattern]
  · intro key hkey
    obtain ⟨slot, hslot⟩ := Option.isSome_iff_exists.1 hkey
    rw [hspared, spared?] at hslot
    exact h.owned key (Option.isSome_iff_exists.2 ⟨slot, (Option.filter_eq_some_iff.1 hslot).1⟩)
  · intro key slot t hslot hdeadline
    rw [hspared, spared?] at hslot
    rw [hnow]
    exact h.counts key slot t (Option.filter_eq_some_iff.1 hslot).1 hdeadline
  · exact h.issued.trans hsilent.1.symm

end Flush
end CacheCoherence
