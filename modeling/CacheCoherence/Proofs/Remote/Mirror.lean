import CacheCoherence.Proofs.Memory.Invalidation
import CacheCoherence.Proofs.Server.Writes

/-!
# A server that mirrors a store in memory

A server mirrors a store in memory if the two stand at the same instant and every key of the store
is live on the server, under its name there, exactly as it is in memory. Keys of the server that are
none of the store's do not count. Corresponding writes keep the two alike, one by one and in bulk.
-/
namespace CacheCoherence

theorem RemoteSettings.serverKey_injective (cfg : RemoteSettings) {k k' : Key}
    (h : cfg.serverKey k = cfg.serverKey k') : k = k' := by
  unfold serverKey at h
  cases hroot : cfg.keyRoot with
  | none =>
    rw [hroot] at h
    exact h
  | some root =>
    rw [hroot] at h
    have hchars : (root ++ ":" ++ k).toList = (root ++ ":" ++ k').toList := congrArg String.toList h
    simp only [String.toList_append] at hchars
    exact String.toList_inj.1 (List.append_cancel_left hchars)

/-- The key of the store that a key on the server is the name of. -/
def RemoteSettings.ownKey? (cfg : RemoteSettings) (key : Key) : Option Key :=
  match cfg.keyRoot with
  | some root => (textAfter? (root ++ ":").toList key.toList).map String.ofList
  | none => some key

theorem textAfter?_eq_some {start cs rest : List Char} (h : textAfter? start cs = some rest) :
    cs = start ++ rest := by
  induction start generalizing cs with
  | nil =>
    cases cs <;> exact Option.some.inj h
  | cons a start ih =>
    cases cs with
    | nil => cases h
    | cons c cs =>
      unfold textAfter? at h
      split at h
      · rename_i heq
        rw [heq, ih h, List.cons_append]
      · cases h

theorem RemoteSettings.ownKey?_eq_some_iff (cfg : RemoteSettings) {key k : Key} :
    cfg.ownKey? key = some k ↔ key = cfg.serverKey k := by
  unfold ownKey? serverKey
  cases cfg.keyRoot with
  | none => exact Option.some_inj
  | some root =>
    constructor
    · intro h
      obtain ⟨rest, hrest, rfl⟩ := Option.map_eq_some_iff.1 h
      refine String.toList_inj.1 ?_
      rw [textAfter?_eq_some hrest]
      simp
    · rintro rfl
      simp only [String.toList_append]
      rw [← String.toList_append, textAfter?_append, Option.map_some, String.ofList_toList]

namespace Server
variable (cfg : RemoteSettings) (s : Server)

/-- The slots of the store on a server, under the keys of the store. -/
def ownSlots : Slots :=
  s.slots.entries.foldr (fun entry slots => match cfg.ownKey? entry.1 with
    | some key => slots.insert key entry.2
    | none => slots) .empty

theorem get?_ownSlots (k : Key) :
    Table.get? (s.ownSlots cfg) k = s.slots.get? (cfg.serverKey k) := by
  unfold ownSlots Table.get?
  induction s.slots.entries with
  | nil => rfl
  | cons entry rest ih =>
    obtain ⟨key, slot⟩ := entry
    rw [List.foldr_cons, Table.find]
    cases hown : cfg.ownKey? key with
    | none =>
      have hne : key ≠ cfg.serverKey k := fun heq => by
        rw [cfg.ownKey?_eq_some_iff.2 heq] at hown
        cases hown
      rw [if_neg hne]
      exact ih
    | some k' =>
      obtain rfl := cfg.ownKey?_eq_some_iff.1 hown
      refine (Table.get?_insert _ k' k slot).trans ?_
      by_cases hk : k = k'
      · rw [if_pos hk, if_pos (congrArg cfg.serverKey hk.symm)]
      · rw [if_neg hk, if_neg fun hkey => hk (cfg.serverKey_injective hkey).symm]
        exact ih

/-- The store in memory that holds what the store on a server holds. -/
def view (issued : Nat) : Memory := { slots := s.ownSlots cfg, now := s.now, issued }

end Server

/-- A store on a server and a store in memory that are set up alike. -/
structure SameSettings (cfg : RemoteSettings) (rules : Rules) (mcfg : MemorySettings) : Prop where
  rules : mcfg.rules = rules
  lockTtl : mcfg.lockTtl = cfg.lockTtl
  tombstoneTtl : mcfg.tombstoneTtl = cfg.tombstoneTtl
  countable_lockTtl : Duration.Countable cfg.lockTtl
  countable_tombstoneTtl : Duration.Countable cfg.tombstoneTtl

/-- The server holds what the store in memory holds. -/
structure Mirrors (cfg : RemoteSettings) (s : Server) (m : Memory) : Prop where
  now : s.now = m.now
  slots : ∀ k, s.live? (cfg.serverKey k) = m.live? k

namespace Mirrors
variable {cfg : RemoteSettings} {rules : Rules} {mcfg : MemorySettings} {s : Server} {m : Memory}
  {slots : Slots}

theorem content (h : Mirrors cfg s m) (k : Key) : s.content (cfg.serverKey k) = m.content k := by
  rw [Server.content_eq_live?, h.slots, Memory.content_eq_live?]

theorem view (cfg : RemoteSettings) (s : Server) (issued : Nat) :
    Mirrors cfg s (s.view cfg issued) where
  now := rfl
  slots := by
    intro k
    unfold Server.live? Memory.live? Slots.live? Server.view
    rw [s.get?_ownSlots cfg k]

/-- Watches and cursors on the one side, and numbers and handlers on the other, do not count. -/
theorem congr {s' : Server} {m' : Memory} (h : Mirrors cfg s m) (hs : s'.slots = s.slots)
    (hnow : s'.now = s.now) (hm : m'.slots = m.slots) (hnow' : m'.now = m.now) :
    Mirrors cfg s' m' where
  now := by rw [hnow, hnow', h.now]
  slots := by
    intro k
    have hslots := h.slots k
    unfold Server.live? Memory.live? at hslots ⊢
    rwa [hs, hnow, hm, hnow']

theorem put {text : String} {ttl : Nat} (h : Mirrors cfg s { m with slots }) (key : Key)
    (httl : Duration.Countable ttl) :
    Mirrors cfg (s.write (.lasting (cfg.serverKey key) text ttl))
      { m with slots := slots.put m.now key text ttl } where
  now := by rw [Server.now_write, h.now]
  slots := by
    intro k
    have hnow : s.now = m.now := h.now
    have hput := Slots.live?_putAll slots m.now [key] text ttl k
    change _ = (Slots.putAll slots m.now [key] text ttl).live? m.now k
    rw [Server.live?_write_lasting s _ text httl, hput, hnow]
    by_cases hk : k = key
    · rw [if_pos (congrArg cfg.serverKey hk), if_pos (List.mem_singleton.2 hk)]
    · rw [if_neg fun hkey => hk (cfg.serverKey_injective hkey),
        if_neg fun hmem => hk (List.mem_singleton.1 hmem)]
      exact h.slots k

theorem erase (h : Mirrors cfg s { m with slots }) (key : Key) :
    Mirrors cfg (s.write (.delete (cfg.serverKey key))) { m with slots := slots.erase key } where
  now := by rw [Server.now_write, h.now]
  slots := by
    intro k
    change (s.delete (cfg.serverKey key)).live? (cfg.serverKey k) =
      Slots.live? (slots.erase key) m.now k
    rw [Server.live?_delete, Slots.live?_erase]
    by_cases hk : k = key
    · rw [if_pos (congrArg cfg.serverKey hk), if_pos hk]
    · rw [if_neg fun hkey => hk (cfg.serverKey_injective hkey), if_neg hk]
      exact h.slots k

theorem invalidation (hsame : SameSettings cfg rules mcfg) (h : Mirrors cfg s { m with slots })
    (tombstone : Bool) (key : Key) :
    Mirrors cfg (s.write (RemoteStore.invalidation cfg tombstone (cfg.serverKey key)))
      { m with slots := Memory.invalidate mcfg m.now tombstone slots key } := by
  cases tombstone with
  | true =>
    change Mirrors cfg _ { m with slots := slots.put m.now key Token.tombstone mcfg.tombstoneTtl }
    rw [hsame.tombstoneTtl]
    exact h.put key hsame.countable_tombstoneTtl
  | false => exact h.erase key

theorem fold {α : Type} {f : α → Write} {g : Slots → α → Slots} (l : List α)
    (hstep : ∀ a ∈ l, ∀ s slots, Mirrors cfg s { m with slots } →
      Mirrors cfg (s.write (f a)) { m with slots := g slots a })
    (h : Mirrors cfg s { m with slots }) :
    Mirrors cfg ((l.map f).foldl Server.write s) { m with slots := l.foldl g slots } := by
  induction l generalizing s slots with
  | nil => exact h
  | cons a rest ih =>
    exact ih (fun b hb => hstep b (List.mem_cons_of_mem _ hb))
      (hstep a List.mem_cons_self s slots h)

theorem putAll {text : String} {ttl : Nat} (h : Mirrors cfg s { m with slots }) (keys : List Key)
    (httl : Duration.Countable ttl) :
    Mirrors cfg ((keys.map fun k => Write.lasting (cfg.serverKey k) text ttl).foldl Server.write s)
      { m with slots := slots.putAll m.now keys text ttl } :=
  h.fold keys fun key _ _ _ h => h.put key httl

theorem invalidateAll (hsame : SameSettings cfg rules mcfg) (h : Mirrors cfg s { m with slots })
    (tombstone : Bool) (keys : List Key) :
    Mirrors cfg ((keys.map fun k => RemoteStore.invalidation cfg tombstone
        (cfg.serverKey k)).foldl Server.write s)
      { m with slots := keys.foldl (Memory.invalidate mcfg m.now tombstone) slots } :=
  h.fold keys fun key _ _ _ h => h.invalidation hsame tombstone key

theorem eraseAll (h : Mirrors cfg s { m with slots }) (keys : List Key) :
    Mirrors cfg ((keys.map fun k => Write.delete (cfg.serverKey k)).foldl Server.write s)
      { m with slots := keys.foldl Table.erase slots } :=
  h.fold keys fun key _ _ _ h => h.erase key

end Mirrors
end CacheCoherence
