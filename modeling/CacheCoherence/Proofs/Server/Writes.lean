import CacheCoherence.Proofs.Slots
import CacheCoherence.Remote.Store

/-!
# Writes on a server

What a server holds after a write, and how a connection learns of it: a watched key that was written
to makes the next transaction fail, so a transaction that runs finds every watched slot as it was.
Lifetimes are whole milliseconds, as many as the server can count.
-/
namespace CacheCoherence

namespace Duration

/-- A length of time that a server can count: whole milliseconds, as many as 64 bits with a sign
hold. -/
def Countable (d : Nat) : Prop := ∃ n, n ≤ Int64.maxValue.toInt.toNat ∧ d = ofMillis n

/-- What a server can count it takes without loss. -/
theorem ofMillis_serverMillis {d : Nat} (h : Countable d) (hne : d ≠ 0) :
    ofMillis (serverMillis d) = d := by
  obtain ⟨n, hn, rfl⟩ := h
  have hmax : Int64.maxValue.toInt.toNat = 9223372036854775807 := by decide
  have hpos : n ≠ 0 := by
    rintro rfl
    exact hne rfl
  have hdiv : ofMillis n / perMilli = n := by
    rw [ofMillis, Nat.mul_div_cancel n (by decide)]
  have hsize : UInt64.size = 18446744073709551616 := rfl
  unfold serverMillis
  rw [hdiv]
  congr 1
  omega

end Duration

def Write.key : Write → Key
  | .set key _ _ => key
  | .delete key => key

/-- A write gives no lifetime that a server cannot count. -/
def Write.Countable : Write → Prop
  | .set _ _ px => ∀ ms, px = some ms → ms ≤ Int64.maxValue.toInt.toNat
  | .delete _ => True

namespace Server
variable {s s' : Server} {w : Write} {k : Key}

def live? (s : Server) (key : Key) : Option Slot := s.slots.live? s.now key

theorem content_eq_live? (s : Server) (key : Key) :
    s.content key = (s.live? key).map (·.text) := rfl

theorem lifetime_eq_live? (s : Server) (key : Key) :
    s.lifetime key = (s.live? key).elim (-2 : Int) fun slot => slot.deadline.elim (-1) fun t =>
      (min ((t - s.now) / Duration.perMilli) Int64.maxValue.toInt.toNat : Nat) := by
  unfold lifetime live?
  cases s.slots.live? s.now key with
  | none => rfl
  | some slot =>
    simp only [Option.elim_some]
    cases slot.deadline <;> rfl

theorem content_of_live? {key key' : Key} (h : s'.live? key' = s.live? key) :
    s'.content key' = s.content key := by
  rw [content_eq_live?, content_eq_live?, h]

theorem write_delete (s : Server) (key : Key) :
    s.write (.delete key) =
      if (s.content key).isSome then { s.touch key with slots := s.slots.erase key } else s := rfl

@[simp] theorem now_write (s : Server) (w : Write) : (s.write w).now = s.now := by
  cases w with
  | set key text px => rfl
  | delete key =>
    rw [write_delete]
    split <;> rfl

@[simp] theorem watched_write (s : Server) (w : Write) : (s.write w).watched = s.watched := by
  cases w with
  | set key text px => rfl
  | delete key =>
    rw [write_delete]
    split <;> rfl

@[simp] theorem cursors_write (s : Server) (w : Write) : (s.write w).cursors = s.cursors := by
  cases w with
  | set key text px => rfl
  | delete key =>
    rw [write_delete]
    split <;> rfl

/-- Servers at one instant that hold the same under these keys. -/
structure AgreesOn (keys : List Key) (s s' : Server) : Prop where
  now : s.now = s'.now
  slots : ∀ k ∈ keys, s.slots.get? k = s'.slots.get? k

namespace AgreesOn
variable {keys : List Key} (h : AgreesOn keys s s')
include h

theorem live? (hk : k ∈ keys) : s.live? k = s'.live? k := by
  unfold Server.live?
  rw [h.now]
  exact Slots.live?_congr (h.slots k hk)

theorem content (hk : k ∈ keys) : s.content k = s'.content k := content_of_live? (h.live? hk)

theorem lifetime (hk : k ∈ keys) : s.lifetime k = s'.lifetime k := by
  have hlive := h.live? hk
  unfold Server.live? at hlive
  unfold Server.lifetime
  rw [hlive, h.now]

end AgreesOn

section Live
variable (s : Server)

theorem get?_write_of_ne (h : k ≠ w.key) : (s.write w).slots.get? k = s.slots.get? k := by
  cases w with
  | set key text px => exact Table.get?_insert_of_ne _ h _
  | delete key =>
    rw [write_delete]
    split
    · exact Table.get?_erase_of_ne _ h
    · rfl

theorem live?_write_of_ne (h : k ≠ w.key) : (s.write w).live? k = s.live? k := by
  unfold live?
  rw [now_write]
  exact Slots.live?_congr (get?_write_of_ne s h)

/-- A write of a lifetime that the server can count puts the very slot that was meant. -/
theorem slots_write_lasting (key : Key) (text : String) {ttl : Nat} (h : Duration.Countable ttl) :
    (s.write (.lasting key text ttl)).slots = s.slots.put s.now key text ttl := by
  by_cases hzero : ttl = 0
  · simp [Write.lasting, write, set, touch, Slots.put, Slot.lasting, hzero]
  · simp [Write.lasting, write, set, touch, Slots.put, Slot.lasting, hzero,
      Duration.ofMillis_serverMillis h hzero]

theorem live?_write_lasting (key : Key) (text : String) {ttl : Nat}
    (h : Duration.Countable ttl) (k : Key) :
    (s.write (.lasting key text ttl)).live? k =
      if k = key then some (.lasting s.now text ttl) else s.live? k := by
  unfold live?
  rw [now_write, slots_write_lasting s key text h]
  have hget := Slots.get?_put s.slots s.now key k text ttl
  by_cases hk : k = key
  · rw [if_pos hk] at hget ⊢
    exact Slots.live?_of_get?_lasting hget
  · rw [if_neg hk] at hget ⊢
    exact Slots.live?_congr hget

theorem live?_delete (key k : Key) :
    (s.delete key).live? k = if k = key then none else s.live? k := by
  by_cases hk : k = key
  · subst hk
    rw [if_pos rfl]
    unfold delete
    split
    · exact Slots.live?_of_get?_none (Table.get?_erase_self _ _)
    · rename_i hnone
      rw [content_eq_live?, Option.isSome_map, Bool.not_eq_true,
        Option.isSome_eq_false_iff] at hnone
      exact Option.isNone_iff_eq_none.1 hnone
  · rw [if_neg hk]
    exact live?_write_of_ne s (w := .delete key) hk

theorem countable_lasting (key : Key) (text : String) {ttl : Nat} (h : Duration.Countable ttl) :
    (Write.lasting key text ttl).Countable := by
  intro ms hms
  split at hms
  · cases hms
  · rename_i hne
    obtain rfl := Option.some.inj hms
    obtain ⟨n, hn, rfl⟩ := h
    have hmax : Int64.maxValue.toInt.toNat = 9223372036854775807 := by decide
    unfold Duration.serverMillis
    rw [Duration.ofMillis, Nat.mul_div_cancel n (by decide)]
    omega

end Live

section Watches

theorem untouched_touch {key : Key} (h : (s.touch key).touched = false) :
    s.touched = false ∧ ∀ k ∈ s.watched, k ≠ key := by
  obtain ⟨hbefore, hout⟩ := Bool.or_eq_false_iff.1 h
  refine ⟨hbefore, ?_⟩
  rintro k hk rfl
  rw [List.contains_iff_mem.2 hk] at hout
  cases hout

/-- A write that touched no watched key left every watched slot as it was. -/
theorem untouched_write (h : (s.write w).touched = false) :
    s.touched = false ∧ ∀ k ∈ s.watched, (s.write w).slots.get? k = s.slots.get? k := by
  cases w with
  | set key text px =>
    obtain ⟨hbefore, hne⟩ := untouched_touch (s := s) h
    exact ⟨hbefore, fun k hk => get?_write_of_ne s (hne k hk)⟩
  | delete key =>
    rw [write_delete] at h ⊢
    split at h
    · rename_i hsome
      obtain ⟨hbefore, hne⟩ := untouched_touch (s := s) h
      rw [if_pos hsome]
      exact ⟨hbefore, fun k hk => Table.get?_erase_of_ne _ (hne k hk)⟩
    · rename_i hnone
      rw [if_neg hnone]
      exact ⟨h, fun _ _ => rfl⟩

theorem touched_write_of_unwatched (h : s.watched = []) :
    (s.write w).touched = s.touched := by
  cases w with
  | set key text px => simp [write, set, touch, h]
  | delete key =>
    rw [write_delete]
    split
    · simp [touch, h]
    · rfl

end Watches

section Fold
variable (ws : List Write)

@[simp] theorem now_foldl_write (s : Server) : (ws.foldl write s).now = s.now := by
  induction ws generalizing s with
  | nil => rfl
  | cons w rest ih => rw [List.foldl_cons, ih, now_write]

@[simp] theorem watched_foldl_write (s : Server) :
    (ws.foldl write s).watched = s.watched := by
  induction ws generalizing s with
  | nil => rfl
  | cons w rest ih => rw [List.foldl_cons, ih, watched_write]

@[simp] theorem cursors_foldl_write (s : Server) :
    (ws.foldl write s).cursors = s.cursors := by
  induction ws generalizing s with
  | nil => rfl
  | cons w rest ih => rw [List.foldl_cons, ih, cursors_write]

theorem foldl_delete (s : Server) (keys : List Key) :
    keys.foldl delete s = (keys.map Write.delete).foldl write s := by
  rw [List.foldl_map]
  rfl

theorem untouched_foldl_write (h : (ws.foldl write s).touched = false) :
    s.touched = false ∧ ∀ k ∈ s.watched, (ws.foldl write s).slots.get? k = s.slots.get? k := by
  induction ws generalizing s with
  | nil => exact ⟨h, fun _ _ => rfl⟩
  | cons w rest ih =>
    obtain ⟨hfirst, hrest⟩ := ih h
    obtain ⟨hbefore, hsame⟩ := untouched_write hfirst
    refine ⟨hbefore, fun k hk => ?_⟩
    rw [List.foldl_cons, hrest k (by rwa [watched_write]), hsame k hk]

theorem touched_foldl_write_of_unwatched (h : s.watched = []) :
    (ws.foldl write s).touched = s.touched := by
  induction ws generalizing s with
  | nil => rfl
  | cons w rest ih =>
    rw [List.foldl_cons, ih (by rwa [watched_write]), touched_write_of_unwatched h]

theorem live?_foldl_write_of_not_mem (s : Server) (h : ∀ w ∈ ws, k ≠ w.key) :
    (ws.foldl write s).live? k = s.live? k := by
  induction ws generalizing s with
  | nil => rfl
  | cons w rest ih =>
    rw [List.foldl_cons, ih _ fun w' hw' => h w' (List.mem_cons_of_mem _ hw')]
    exact live?_write_of_ne s (h w List.mem_cons_self)

end Fold

/-- Every lifetime that is left on a server is one that the server can count. -/
def Counts (s : Server) : Prop :=
  ∀ key slot t, s.live? key = some slot → slot.deadline = some t → Duration.Countable (t - s.now)

theorem Counts.write (h : s.Counts) (hw : w.Countable) : (s.write w).Counts := by
  intro key slot t hlive hdeadline
  by_cases hkey : key = w.key
  · cases w with
    | set key' text px =>
      obtain rfl : key = key' := hkey
      have hget : (s.write (.set key text px)).slots.get? key =
          some ⟨text, px.map fun ms => s.now + Duration.ofMillis ms⟩ := Table.get?_insert_self _ _ _
      unfold live? Slots.live? at hlive
      rw [hget] at hlive
      obtain ⟨hslot, -⟩ := Option.filter_eq_some_iff.1 hlive
      obtain rfl := Option.some.inj hslot
      obtain ⟨ms, hms, rfl⟩ := Option.map_eq_some_iff.1 hdeadline
      rw [now_write, Nat.add_sub_cancel_left]
      exact ⟨ms, hw ms hms, rfl⟩
    | delete key' =>
      obtain rfl : key = key' := hkey
      change (s.delete key).live? key = some slot at hlive
      rw [live?_delete, if_pos rfl] at hlive
      cases hlive
  · rw [live?_write_of_ne s hkey] at hlive
    rw [now_write]
    exact h key slot t hlive hdeadline

theorem Counts.foldl_write {ws : List Write} (h : s.Counts) (hws : ∀ w ∈ ws, w.Countable) :
    (ws.foldl Server.write s).Counts := by
  induction ws generalizing s with
  | nil => exact h
  | cons w rest ih =>
    exact ih (h.write (hws w List.mem_cons_self)) fun w' hw' => hws w' (List.mem_cons_of_mem _ hw')

end Server
end CacheCoherence
