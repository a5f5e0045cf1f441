import CacheCoherence.Proofs.Library.HandedOver

/-!
# Reading several items at once

A read of several items looks into all the slots first, taking its locks on the way, and settles
what it found afterwards. Single reads in a row do both key by key. On a store in memory whose calls
pass untouched the order does not show: to settle one slot is to empty it or to leave it, which
commutes with a look into another slot. The results with their locks are the same, and so are the
slots, the handlers that are called, the events and the hits and misses.
-/
namespace CacheCoherence
open Operation

namespace MetricsCells

/-- The hits and misses counted in every cell. -/
def tally (m : MetricsCells) : List (Nat × Nat) := m.cells.map fun cell => (cell.hits, cell.misses)

/-- What a note adds to the hits and misses of a cell. -/
def counted : Note → Nat × Nat → Nat × Nat
  | .lookup true, t => (t.1 + 1, t.2)
  | .lookup false, t => (t.1, t.2 + 1)
  | .call, t | .read, t | .store _, t | .deletion _, t => t

theorem tally_record (m : MetricsCells) (ctx : Context) (elapsed : Nat) (n : Note) :
    (m.record ctx elapsed n).tally =
      match ctx with
      | none => m.tally
      | some i => m.tally.modify i (counted n) := by
  cases ctx with
  | none => rfl
  | some i =>
    refine List.ext_getElem? fun j => ?_
    simp only [record, tally, List.getElem?_map, List.getElem?_modify]
    cases m.cells[j]? with
    | none => rfl
    | some cell =>
      by_cases hij : i = j
      · subst hij
        rcases n with _ | hit | _ | _ | _
        case lookup => cases hit <;> simp [counted, Metrics.record]
        all_goals simp [counted, Metrics.record]
      · simp [hij]

theorem tally_record_uncounted (m : MetricsCells) (ctx : Context) (elapsed : Nat) {n : Note}
    (h : counted n = id) : (m.record ctx elapsed n).tally = m.tally := by
  rw [tally_record]
  cases ctx with
  | none => rfl
  | some i =>
    rw [h]
    exact List.modify_id i _

end MetricsCells

theorem Journal.append_nothing (j : Journal) : j.append {} = j := by
  simp [Journal.append]

namespace Memory
variable (cfg : MemorySettings)

def without (m : Memory) (key : Key) : Memory := { m with slots := m.slots.erase key }

theorem deleteValue_forced (m : Memory) (key : Key) :
    m.deleteValue cfg [key] false true =
      { answer := .ok (), memory := m.without key, notified := m.handlersOf [key] } := rfl

theorem handlersOf_lookups (entries : List (Key × Bool)) (m : Memory) (keys : List Key) :
    (lookups cfg entries m).2.handlersOf keys = m.handlersOf keys := by
  unfold handlersOf
  rw [handlers_lookups]

theorem content_without (m : Memory) {key other : Key} (h : other ≠ key) :
    (m.without key).content other = m.content other := by
  change Slots.content (m.slots.erase key) m.now other = _
  rw [Slots.content_erase, if_neg h]
  rfl

/-- A look into a slot goes on as if another slot had not been emptied. -/
theorem lookup_without (m : Memory) {key other : Key} (h : other ≠ key) (lock : Bool) :
    (m.without key).lookup cfg other lock =
      ((m.lookup cfg other lock).1, (m.lookup cfg other lock).2.without key) := by
  have hcontent := content_without m h
  cases hother : m.content other with
  | some raw =>
    rw [lookup_of_content cfg m other lock hother,
      lookup_of_content cfg _ other lock (hcontent.trans hother)]
  | none =>
    rw [lookup_of_empty cfg m other lock hother,
      lookup_of_empty cfg _ other lock (hcontent.trans hother)]
    cases lock with
    | false => rfl
    | true =>
      have hslots : Slots.put (m.slots.erase key) m.now other
          (Token.issue LockKind.read.name m.issued) cfg.lockTtl =
          Table.erase (m.slots.put m.now other
            (Token.issue LockKind.read.name m.issued) cfg.lockTtl) key := by
        refine Table.ext_get? fun k => ?_
        rw [Slots.get?_put, Table.get?_erase, Table.get?_erase, Slots.get?_put]
        by_cases hk : k = key
        · rw [if_pos hk, if_pos hk, if_neg fun hother => h (hother.symm.trans hk)]
        · rw [if_neg hk, if_neg hk]
      simp only [if_true, without, hslots]

theorem lookups_without {entries : List (Key × Bool)} {key : Key}
    (h : key ∉ entries.map Prod.fst) (m : Memory) :
    lookups cfg entries (m.without key) =
      ((lookups cfg entries m).1, (lookups cfg entries m).2.without key) := by
  induction entries generalizing m with
  | nil => rfl
  | cons entry rest ih =>
    obtain ⟨other, lock⟩ := entry
    obtain ⟨hother, hrest⟩ := not_or.1 (mt List.mem_cons.2 h)
    rw [lookups_cons, lookups_cons, lookup_without cfg m (Ne.symm hother), ih hrest]

end Memory

namespace Session
variable {cfg : MemorySettings} {s s' : Session} {m : Memory}

def withMemory (cfg : MemorySettings) (s : Session) (m : Memory) : Session :=
  { s with store := .memory cfg m }

theorem Plain.withMemory (h : s.Plain cfg m) (m' : Memory) : (s.withMemory cfg m').Plain cfg m' :=
  ⟨rfl, h.rules, h.keep⟩

/-- Two sessions differ at most in which calls were made and how often. -/
structure SameReadings (s s' : Session) : Prop where
  store : s.store = s'.store
  rules : s.recorder.rules = s'.recorder.rules
  keep : s.recorder.keep = s'.recorder.keep
  journal : s.journal = s'.journal
  tally : s.metrics.tally = s'.metrics.tally

theorem SameReadings.trans {s'' : Session} (h : s.SameReadings s') (h' : s'.SameReadings s'') :
    s.SameReadings s'' :=
  ⟨h.store.trans h'.store, h.rules.trans h'.rules, h.keep.trans h'.keep,
    h.journal.trans h'.journal, h.tally.trans h'.tally⟩

theorem SameReadings.answer (h : s.SameReadings s') (ctx : Context) (q : Action) :
    (answer ctx q s).1 = (answer ctx q s').1 ∧
      (answer ctx q s).2.SameReadings (answer ctx q s').2 := by
  cases q with
  | note n =>
    refine ⟨rfl, h.store, h.rules, h.keep, h.journal, ?_⟩
    change (s.metrics.record ctx 0 n).tally = (s'.metrics.record ctx 0 n).tally
    rw [MetricsCells.tally_record, MetricsCells.tally_record, h.tally]
  | log e =>
    refine ⟨rfl, h.store, h.rules, h.keep, ?_, h.tally⟩
    change ({ s.journal with events := s.journal.events ++ [e] } : Journal) =
      { s'.journal with events := s'.journal.events ++ [e] }
    rw [h.journal]
  | call c =>
    change (s.perform c).1 = (s'.perform c).1 ∧ (s.perform c).2.SameReadings (s'.perform c).2
    rcases s.perform_cases c with ⟨hfails, heq⟩ | ⟨hpasses, heq⟩ <;>
      rcases s'.perform_cases c with ⟨hfails', heq'⟩ | ⟨hpasses', heq'⟩
    · rw [heq, heq']
      exact ⟨rfl, h.store, h.rules, h.keep, h.journal, h.tally⟩
    · rw [h.rules, hpasses'] at hfails
      cases hfails
    · rw [h.rules, hfails'] at hpasses
      cases hpasses
    · rw [heq, heq', h.store, h.keep, h.journal]
      exact ⟨rfl, rfl, h.rules, h.keep, rfl, h.tally⟩

/-- What an operation comes to does not depend on the calls that were made before. -/
theorem SameReadings.through {α : Type} (h : s.SameReadings s') (ctx : Context)
    (op : Operation α) :
    (op.through ctx s).1 = (op.through ctx s').1 ∧
      (op.through ctx s).2.SameReadings (op.through ctx s').2 := by
  induction op generalizing s s' with
  | done a => exact ⟨rfl, h⟩
  | ask q next ih =>
    obtain ⟨hanswer, hsame⟩ := h.answer ctx q
    have hnext := ih (Session.answer ctx q s).1 hsame
    rw [through_ask, through_ask, ← hanswer]
    exact hnext

end Session

namespace Operation
variable {cfg : MemorySettings} {α : Type} [Cacheable α] (ctx : Context) {s : Session} {m : Memory}

/-- An operation that does nothing but empty one slot commutes with looks into others. -/
theorem Calls.through_lookups {β : Type} {op : Operation β} {key : Key}
    (h : Calls (· = .deleteValue [key] false true) op) {entries : List (Key × Bool)}
    (hkey : key ∉ entries.map Prod.fst) (hs : s.Plain cfg m) :
    ∃ m', (op.through ctx s).2.Plain cfg m' ∧
      (Memory.lookups cfg entries m').1 = (Memory.lookups cfg entries m).1 ∧
      op.through ctx (s.withMemory cfg (Memory.lookups cfg entries m).2) =
        ((op.through ctx s).1,
          (op.through ctx s).2.withMemory cfg (Memory.lookups cfg entries m').2) := by
  induction op generalizing s m with
  | done a => exact ⟨m, hs, rfl, rfl⟩
  | ask q next ih =>
    cases q with
    | note n => exact ih () (h.2 ()) ⟨hs.store, hs.rules, hs.keep⟩
    | log e => exact ih () (h.2 ()) ⟨hs.store, hs.rules, hs.keep⟩
    | call c =>
      obtain rfl := h.1 c rfl
      let seen := (Memory.lookups cfg entries m).2
      let emptied := (s.perform (.deleteValue [key] false true)).2
      have hemptied : emptied.Plain cfg (m.without key) := by
        simp only [emptied, hs.perform]
        exact ⟨rfl, hs.rules, hs.keep⟩
      -- The handlers and the other slots are as before, so emptying the slot comes to the same.
      have hperform : (s.withMemory cfg seen).perform (.deleteValue [key] false true) =
          ((s.perform (.deleteValue [key] false true)).1,
            emptied.withMemory cfg (seen.without key)) := by
        simp only [emptied, hs.perform, (hs.withMemory seen).perform, Memory.perform,
          Memory.deleteValue_forced, seen, Memory.handlersOf_lookups]
        rfl
      have hstep : Session.answer ctx (.call (.deleteValue [key] false true))
          (s.withMemory cfg seen) = _ := hperform
      obtain ⟨m', hplain, hfound, hrun⟩ := ih _ (h.2 _) hemptied
      rw [Memory.lookups_without cfg hkey m] at hfound hrun
      refine ⟨m', hplain, hfound, ?_⟩
      rw [through_ask, through_ask, hstep]
      exact hrun

variable {policy : Policy}

/-- A call that logs nothing and calls no handlers shows only in its answer and its store. -/
theorem noted_through {β : Type} (hs : s.Plain cfg m) (c : Call)
    (hevents : (m.perform cfg c).events = []) (hnotified : (m.perform cfg c).notified = [])
    (next : c.Answer → Operation β) :
    let asked := (do note .call; let answer ← call c; note .read; next answer :
      Operation β).through ctx s
    let settled := (next (m.perform cfg c).answer).through ctx
      (s.withMemory cfg (m.perform cfg c).memory)
    asked.1 = settled.1 ∧ asked.2.SameReadings settled.2 := by
  have hanswer : (s.perform c).1 = (m.perform cfg c).answer := by rw [hs.perform]
  have hsame : Session.SameReadings
      { (s.perform c).2 with metrics := (s.metrics.record ctx 0 .call).record ctx 0 .read }
      (s.withMemory cfg (m.perform cfg c).memory) := by
    rw [hs.perform, hevents, hnotified]
    refine ⟨rfl, rfl, rfl, s.journal.append_nothing, ?_⟩
    exact (MetricsCells.tally_record_uncounted _ ctx 0 rfl).trans
      (MetricsCells.tally_record_uncounted _ ctx 0 rfl)
  rw [← hanswer, through_noted]
  exact hsame.through ctx (next (s.perform c).1)

/-- A single read looks into its slot and settles what it found. -/
theorem getItem_through (hs : s.Plain cfg m) (hcached : skips policy α = false) (key : Key)
    (lock : Bool) :
    let settled := (resolve servableItem key (m.lookup cfg key lock).1 :
      Operation (Found α)).through ctx (s.withMemory cfg (m.lookup cfg key lock).2)
    ((getItem policy key lock : Operation (Found α)).through ctx s).1 = settled.1 ∧
      ((getItem policy key lock : Operation (Found α)).through ctx s).2.SameReadings
        settled.2 := by
  have hread : (getItem policy key lock : Operation (Found α)) =
      fetch servableItem key lock := by
    rw [getItem, if_neg (by simp [hcached])]
  rw [hread, fetch_eq]
  exact noted_through ctx hs (.getValue key lock) rfl rfl (fetched servableItem key)

theorem getItems_through (hs : s.Plain cfg m) (hcached : skips policy α = false)
    (keys : List Key) (lock : Bool) :
    let seen := Memory.lookups cfg (keys.map fun key => (key, lock)) m
    let settled := (resolveAll (keys.zip seen.1) : Operation (List (Found α))).through ctx
      (s.withMemory cfg seen.2)
    ((getItems policy keys lock : Operation (List (Found α))).through ctx s).1 = settled.1 ∧
      ((getItems policy keys lock : Operation (List (Found α))).through ctx s).2.SameReadings
        settled.2 := by
  have hpairs : keys.zip (keys.map fun _ => lock) = keys.map fun key => (key, lock) :=
    List.map_prod_left_eq_zip.symm
  have hperform : m.perform cfg (.getValues keys (keys.map fun _ => lock)) =
      ⟨.ok (Memory.lookups cfg (keys.map fun key => (key, lock)) m).1,
        (Memory.lookups cfg (keys.map fun key => (key, lock)) m).2, [], []⟩ := by
    change m.getValues cfg keys _ = _
    rw [Memory.getValues, if_pos (by rw [List.length_map]), hpairs]
  by_cases hempty : keys = []
  · subst hempty
    exact ⟨rfl, hs.store, rfl, rfl, rfl, rfl⟩
  · have hread := noted_through ctx hs (.getValues keys (keys.map fun _ => lock))
      (by rw [hperform]) (by rw [hperform]) (itemsOf (α := α) keys)
    rw [hperform] at hread
    rw [getItems_eq lock (by simp [hempty, hcached])]
    exact hread

/-- Single reads in a row come to what one look into all slots comes to. -/
theorem mapM_getItem_through (hs : s.Plain cfg m) (hcached : skips policy α = false)
    {keys : List Key} (hkeys : keys.Nodup) (lock : Bool) :
    let seen := Memory.lookups cfg (keys.map fun key => (key, lock)) m
    let settled := (resolveAll (keys.zip seen.1) : Operation (List (Found α))).through ctx
      (s.withMemory cfg seen.2)
    let singly := (keys.mapM fun key => (getItem policy key lock : Operation (Found α)))
    (singly.through ctx s).1 = settled.1 ∧ (singly.through ctx s).2.SameReadings settled.2 := by
  induction keys generalizing s m with
  | nil => exact ⟨rfl, hs.store, rfl, rfl, rfl, rfl⟩
  | cons key rest ih =>
    obtain ⟨hkey, hrest⟩ := List.nodup_cons.1 hkeys
    let looked := m.lookup cfg key lock
    let settling : Operation (Found α) := resolve servableItem key looked.1
    let entries := rest.map fun key => (key, lock)
    have hlooked : (s.withMemory cfg looked.2).Plain cfg looked.2 := hs.withMemory looked.2
    have hentries : key ∉ entries.map Prod.fst := by
      simpa only [entries, List.map_map, Function.comp_def, List.map_id'] using hkey
    -- The first slot may be settled before or after the looks into the others.
    obtain ⟨m', hplain, hfound, hcommutes⟩ := Calls.through_lookups ctx
      (show Calls (· = .deleteValue [key] false true) settling from
        calls_resolve servableItem key looked.1 fun _ _ _ => rfl) hentries hlooked
    obtain ⟨hfirst, hfirstSame⟩ := getItem_through (α := α) ctx hs hcached key lock
    obtain ⟨hothers, hothersSame⟩ := ih hplain hrest
    obtain ⟨hrun, hrunSame⟩ := hfirstSame.through ctx
      (rest.mapM fun key => (getItem policy key lock : Operation (Found α)))
    intro seen settled singly
    let first := settling.through ctx (s.withMemory cfg looked.2)
    let others : List (Found α) × Session :=
      (resolveAll (rest.zip (Memory.lookups cfg entries m').1)).through ctx
        (first.2.withMemory cfg (Memory.lookups cfg entries m').2)
    have hsettled : settled = (first.1 :: others.1, others.2) := by
      have hseen : seen = (looked.1 :: (Memory.lookups cfg entries looked.2).1,
          (Memory.lookups cfg entries looked.2).2) := Memory.lookups_cons ..
      have hearly : (resolve servableItem key looked.1).through ctx
          (s.withMemory cfg (Memory.lookups cfg entries looked.2).2) =
            (first.1, first.2.withMemory cfg (Memory.lookups cfg entries m').2) := hcommutes
      simp only [settled, hseen, List.zip_cons_cons, resolveAll, through_bind, through_pure]
      rw [hearly, ← hfound]
    have hsingly : singly = (do
        let found ← getItem policy key lock
        let others ← rest.mapM fun key => (getItem policy key lock : Operation (Found α))
        return found :: others) := List.mapM_cons
    rw [hsettled, hsingly]
    simp only [through_bind, through_pure]
    refine ⟨?_, hrunSame.trans hothersSame⟩
    rw [hfirst, hrun, hothers]

end Operation

/-- What a read of one item comes to and what store it leaves, by what its slot holds. A slot is
emptied, or locked, or left as it is, and no other slot is touched. -/
structure ReadsOnce {α : Type} [Cacheable α] (cfg : MemorySettings) (m : Memory) (key : Key)
    (lock : Bool) (result : Found α) (store : Store) : Prop where
  /-- A hit is what the live text of the slot decodes to, if that may be served. -/
  item : result.item = (m.content key).bind fun raw => (Json.parse? raw).bind servableItem
  hit : result.item ≠ none → result.token = Token.noLock ∧ store = .memory cfg m
  /-- A value that does not decode or may not be served is removed. -/
  rejected : ∀ raw, m.content key = some raw → isToken raw = false → result.item = none →
    result.token = Token.noLock ∧ store = .memory cfg { m with slots := m.slots.erase key }
  /-- Nobody locks a slot that is locked, marked or buried. -/
  occupied : ∀ raw, m.content key = some raw → isToken raw = true →
    result.token = Token.noLock ∧ store = .memory cfg m
  unlocked : m.content key = none → lock = false →
    result.token = Token.noLock ∧ store = .memory cfg m
  locked : m.content key = none → lock = true →
    let token := Token.issue LockKind.read.name m.issued
    result.token = token ∧ store = .memory cfg
      { m with slots := m.slots.put m.now key token cfg.lockTtl, issued := m.issued + 1 }

namespace Session
variable {cfg : MemorySettings} {α : Type} [Cacheable α] {s : Session} {m : Memory}

theorem Plain.reads_once (hs : s.Plain cfg m) (name : String) {policy : Policy}
    (hcached : skips policy α = false) (key : Key) (lock : Bool) :
    let read := s.run name (getItem policy key lock : Operation (Found α))
    ReadsOnce cfg m key lock read.1 read.2.store := by
  obtain ⟨hresult, hafter⟩ := hs.run name (getItem policy key lock : Operation (Found α))
  have hread : (getItem policy key lock : Operation (Found α)) =
      fetch servableItem key lock := by
    rw [getItem, if_neg (by simp [hcached])]
  rw [hread] at hresult hafter
  intro read
  simp only [read, hread, hresult, hafter.store]
  cases hcontent : m.content key with
  | none =>
    rw [fetch_on_vacant cfg (servableItem : Entry α) m key hcontent,
      Memory.lookup_of_empty cfg m key lock hcontent]
    refine ⟨by rw [hcontent]; rfl, fun hitem => absurd rfl hitem, ?_, ?_, ?_, ?_⟩
    · exact fun raw hraw => absurd (hcontent.symm.trans hraw) (Option.some_ne_none raw).symm
    · exact fun raw hraw => absurd (hcontent.symm.trans hraw) (Option.some_ne_none raw).symm
    · rintro - rfl
      exact ⟨rfl, rfl⟩
    · rintro - rfl
      exact ⟨rfl, rfl⟩
  | some raw =>
    have hsame {text : String} (htext : m.content key = some text) : raw = text :=
      Option.some.inj (hcontent.symm.trans htext)
    have hfull (h : m.content key = none) : False :=
      Option.some_ne_none raw (hcontent.symm.trans h)
    cases htoken : isToken raw with
    | true =>
      rw [fetch_on_token cfg servableItem m hcontent htoken]
      refine ⟨?_, fun hitem => absurd rfl hitem, ?_, fun _ _ _ => ⟨rfl, rfl⟩,
        fun h => (hfull h).elim, fun h => (hfull h).elim⟩
      · rw [hcontent, Option.bind_some, Json.parse?_eq_none_of_isToken htoken]
        rfl
      · intro text htext hvalue
        rw [← hsame htext, htoken] at hvalue
        cases hvalue
    | false =>
      rw [fetch_on_value cfg servableItem m hcontent htoken]
      have hoccupied {text : String} (htext : m.content key = some text) : isToken text ≠ true := by
        rw [← hsame htext, htoken]
        exact Bool.false_ne_true
      cases hserved : (Json.parse? raw).bind (servableItem : Entry α) with
      | some item =>
        refine ⟨?_, fun _ => ⟨rfl, rfl⟩,
          fun _ _ _ hitem => absurd hitem (Option.some_ne_none item),
          fun _ htext ht => absurd ht (hoccupied htext), fun h => (hfull h).elim,
          fun h => (hfull h).elim⟩
        rw [hcontent, Option.bind_some, hserved]
        rfl
      | none =>
        refine ⟨?_, fun hitem => absurd rfl hitem, fun _ _ _ _ => ⟨rfl, rfl⟩,
          fun _ htext ht => absurd ht (hoccupied htext), fun h => (hfull h).elim,
          fun h => (hfull h).elim⟩
        rw [hcontent, Option.bind_some, hserved]
        rfl

/-- **One read of several items is many reads of one.** On a store in memory whose calls pass
untouched, a read of several items of a type that is cached, under pairwise different keys, comes to
the same as reads of the single items in a row: the results with their locks, the store, what was
logged and which handlers were called, and the hits and misses. Each single read hits if its slot
holds a value that may be served, removes a value that may not, locks an empty slot if that is
wanted, and changes nothing else. -/
theorem batch_agrees_with_single_reads (hs : s.Plain cfg m) (name : String) (policy : Policy)
    (hcached : skips policy α = false) (keys : List Key) (hkeys : keys.Nodup) (lock : Bool) :
    let batch := s.run name (getItems policy keys lock : Operation (List (Found α)))
    let singly := s.run name (keys.mapM fun key =>
      (getItem policy key lock : Operation (Found α)))
    (batch.1 = singly.1 ∧ batch.2.store = singly.2.store ∧ batch.2.journal = singly.2.journal ∧
      batch.2.metrics.tally = singly.2.metrics.tally) ∧
    ∀ key, let read := s.run name (getItem policy key lock : Operation (Found α))
      ReadsOnce cfg m key lock read.1 read.2.store := by
  intro batch singly
  obtain ⟨hbatch, hbatchSame⟩ :=
    getItems_through (α := α) (s.context name) hs hcached keys lock
  obtain ⟨hsingly, hsinglySame⟩ :=
    mapM_getItem_through (α := α) (s.context name) hs hcached hkeys lock
  refine ⟨⟨?_, ?_, ?_, ?_⟩, fun key => hs.reads_once name hcached key lock⟩
  · exact hbatch.trans hsingly.symm
  · exact hbatchSame.store.trans hsinglySame.store.symm
  · exact hbatchSame.journal.trans hsinglySame.journal.symm
  · exact hbatchSame.tally.trans hsinglySame.tally.symm

/-- A session on slots of every kind: `a` holds a node, `b` a text that is no document, `c` a node
that must not be served, `d` a lock and `e` a tombstone. -/
def mixed : Session where
  policy := Catalogue.lasting
  store := .memory {} {
    slots := [("a", "[]"), ("b", "no document"),
      ("c", "[\"k\",[],null,null,null,[],null,true]"),
      ("d", Token.issue LockKind.update.name 0), ("e", Token.tombstone)].foldl
        (fun slots slot => slots.put 0 slot.1 slot.2 0) .empty
    issued := 1 }

def mixedBatch : Operation (List (Found Catalogue.Node)) :=
  getItems Catalogue.lasting ["a", "b", "c", "d", "e", "f"] true

def mixedSingly : Operation (List (Found Catalogue.Node)) :=
  ["a", "b", "c", "d", "e", "f"].mapM fun key => getItem Catalogue.lasting key true

/-- Only the first slot is hit, the next two are emptied, and the one that was empty is locked. -/
theorem batch_agrees_on_mixed_slots :
    ((mixed.run "" mixedBatch).1 = (mixed.run "" mixedSingly).1 ∧
      (mixed.run "" mixedBatch).2.store = (mixed.run "" mixedSingly).2.store) ∧
    (mixed.run "" mixedBatch).1.map (·.isHit) = [true, false, false, false, false, false] ∧
    ["a", "b", "c", "d", "e", "f"].map
        (fun key => ((mixed.run "" mixedBatch).2.store.held key).isSome) =
      [true, false, false, true, true, true] := by
  -- The session is kept out of sight, so that nothing is run to compare both sides.
  have hagrees (s : Session) (hs : s = mixed) :
      (s.run "" mixedBatch).1 = (s.run "" mixedSingly).1 ∧
        (s.run "" mixedBatch).2.store = (s.run "" mixedSingly).2.store := by
    obtain ⟨m, hplain⟩ : ∃ m, s.Plain {} m := hs ▸ ⟨_, rfl, rfl, rfl⟩
    obtain ⟨⟨hresults, hstore, -⟩, -⟩ := batch_agrees_with_single_reads (α := Catalogue.Node)
      hplain "" Catalogue.lasting (by decide +kernel) ["a", "b", "c", "d", "e", "f"]
      (by decide) true
    exact ⟨hresults, hstore⟩
  exact ⟨hagrees mixed rfl, by decide +kernel, by decide +kernel⟩

end Session
end CacheCoherence
