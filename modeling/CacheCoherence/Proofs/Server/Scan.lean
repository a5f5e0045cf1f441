import CacheCoherence.Proofs.Server.Writes

/-!
# Scans by a beginning

A text that is escaped stands for itself in a pattern, so the pattern of a beginning selects exactly
the keys that start that way. A scan walks the keys in order, and what has become of the keys that
it has left behind does not matter to what is still ahead of it.
-/
namespace CacheCoherence

namespace Glob

/-- A character that is escaped if need be is read as itself. -/
theorem atoms_literally (cs rest : List Char) :
    atoms none (literally cs ++ rest) = cs.map .char ++ atoms none rest := by
  induction cs with
  | nil => rfl
  | cons c cs ih =>
    cases hspecial : isSpecial c with
    | true =>
      have hliteral : literally (c :: cs) ++ rest = '\\' :: c :: (literally cs ++ rest) := by
        simp [literally, hspecial]
      rw [hliteral, atoms, ih]
      rfl
    | false =>
      have hliteral : literally (c :: cs) ++ rest = c :: (literally cs ++ rest) := by
        simp [literally, hspecial]
      simp only [isSpecial, Bool.or_eq_false_iff, decide_eq_false_iff_not] at hspecial
      obtain ⟨⟨⟨⟨hstar, hany⟩, hopen⟩, -⟩, hescape⟩ := hspecial
      rw [hliteral, atoms, ih]
      · rfl
      all_goals grind

theorem anyEnd_isEmpty (cs : List Char) : anyEnd (accepts []) cs = true := by
  induction cs with
  | nil => rfl
  | cons c cs ih => exact (congrArg _ ih).trans (Bool.or_true _)

theorem accepts_startingWith (start cs : List Char) :
    accepts (start.map .char ++ [.run]) cs = start.isPrefixOf cs := by
  induction start generalizing cs with
  | nil => exact (anyEnd_isEmpty cs).trans (by simp)
  | cons a start ih =>
    cases cs with
    | nil => rfl
    | cons c cs =>
      rw [List.map_cons, List.cons_append, accepts, ih]
      · rfl
      · exact fun h => by cases h

theorem matchesText_startingWith (root key : String) :
    matchesText (startingWith root) key = isUnder root key := by
  rw [matchesText, ofText, startingWith, String.toList_ofList, atoms_literally]
  exact accepts_startingWith _ _

end Glob
namespace Table
variable {α : Type} (t : Table α)

theorem pairwise_keys : t.keys.Pairwise (· < ·) := List.pairwise_map.2 t.sorted

theorem filter_keys (p : Key → Bool) : t.keys.filter p = (t.filter fun k _ => p k).keys :=
  List.filter_map

end Table

theorem filter_behind_last {l : List Key} (h : l.Pairwise (· < ·)) {n : Nat} {last : Key}
    (hlast : (l.take n).getLast? = some last) : l.filter (fun k => last < k) = l.drop n := by
  obtain ⟨front, hfront⟩ := List.getLast?_eq_some_iff.1 hlast
  have hsplit := List.take_append_drop n l
  rw [← hsplit, hfront, List.append_assoc] at h
  obtain ⟨-, hrest, hbefore⟩ := List.pairwise_append.1 h
  obtain ⟨hbehind, -⟩ := List.pairwise_cons.1 hrest
  have hnone : (front ++ [last]).filter (fun k => last < k) = [] := by
    refine List.filter_eq_nil_iff.2 fun k hk hlt => ?_
    rcases List.mem_append.1 hk with hk | hk
    · exact String.lt_asymm (hbefore k hk last List.mem_cons_self) (of_decide_eq_true hlt)
    · rw [List.mem_singleton.1 hk] at hlt
      exact String.lt_irrefl _ (of_decide_eq_true hlt)
  have hall : (l.drop n).filter (fun k => last < k) = l.drop n :=
    List.filter_eq_self.2 fun k hk => decide_eq_true (hbehind k hk)
  calc l.filter (fun k => last < k)
      = (l.take n ++ l.drop n).filter (fun k => last < k) := by rw [hsplit]
    _ = l.drop n := by rw [List.filter_append, hfront, hnone, hall, List.nil_append]

namespace Server
variable {s s' : Server}

/-- The keys that a scan has yet to walk. -/
def ahead (s : Server) : Nat → List Key
  | 0 => (s.slots.sweep s.now).keys
  | n + 1 => match s.cursors[n]? with
    | some last => (s.slots.sweep s.now).keys.filter fun k => last < k
    | none => []

theorem mem_ahead_zero (key : Key) : key ∈ s.ahead 0 ↔ (s.live? key).isSome := by
  refine (Table.mem_keys_iff _ key).trans ?_
  unfold Slots.sweep
  rw [Table.get?_filter]
  exact Option.isSome_iff_exists.symm

theorem length_ahead_zero : (s.ahead 0).length ≤ s.slots.entries.length := by
  unfold ahead Table.keys Slots.sweep Table.filter
  rw [List.length_map]
  exact List.length_filter_le _ _

theorem pairwise_ahead (s : Server) (cursor : Nat) : (s.ahead cursor).Pairwise (· < ·) := by
  unfold ahead
  split
  · exact Table.pairwise_keys _
  · split
    · exact (Table.pairwise_keys _).filter _
    · exact .nil

theorem scan_eq (s : Server) (cursor : Nat) (pattern : String) (count : Nat) :
    s.scan cursor pattern count =
      match ((s.ahead cursor).take count).getLast?, (s.ahead cursor).drop count with
      | some last, _ :: _ =>
        ((s.cursors.length + 1, ((s.ahead cursor).take count).filter (Glob.matchesText pattern)),
          { s with cursors := s.cursors ++ [last] })
      | _, _ => ((0, ((s.ahead cursor).take count).filter (Glob.matchesText pattern)), s) := by
  unfold scan
  cases cursor <;> rfl

theorem scan_last {cursor count : Nat} (h : (s.ahead cursor).drop count = []) (pattern : String) :
    (s.scan cursor pattern count).1.1 = 0 := by
  rw [scan_eq, h]
  cases ((s.ahead cursor).take count).getLast? <;> rfl

/-- From any other batch, the scan goes on at a new cursor behind its last key. -/
theorem scan_more {cursor count : Nat} (h : (s.ahead cursor).drop count ≠ []) (hcount : count ≠ 0)
    (pattern : String) : ∃ last, ((s.ahead cursor).take count).getLast? = some last ∧
      (s.scan cursor pattern count).1.1 = s.cursors.length + 1 ∧
      (s.scan cursor pattern count).2 = { s with cursors := s.cursors ++ [last] } := by
  obtain ⟨next, rest, hdrop⟩ := List.exists_cons_of_ne_nil h
  cases hlast : ((s.ahead cursor).take count).getLast? with
  | none =>
    have hnone := (List.take_eq_nil_iff.1 (List.getLast?_eq_none_iff.1 hlast)).resolve_left hcount
    rw [hnone, List.drop_nil] at h
    exact absurd rfl h
  | some last =>
    refine ⟨last, rfl, ?_, ?_⟩ <;> rw [scan_eq, hlast, hdrop]

/-- A scan goes on behind its last batch. What happened to keys up to there does not matter. -/
theorem ahead_next {cursor count n : Nat} {last : Key}
    (hlast : ((s.ahead cursor).take count).getLast? = some last)
    (hcursor : s'.cursors[n]? = some last)
    (hlive : ∀ key, last < key → s'.live? key = s.live? key) :
    s'.ahead (n + 1) = (s.ahead cursor).drop count := by
  have hsame : s'.ahead (n + 1) = (s.slots.sweep s.now).keys.filter fun k => last < k := by
    rw [ahead, hcursor]
    simp only
    rw [Table.filter_keys, Table.filter_keys]
    refine congrArg Table.keys (Table.ext_get? fun k => ?_)
    unfold Slots.sweep
    rw [Table.get?_filter, Table.get?_filter, Table.get?_filter, Table.get?_filter]
    by_cases hk : last < k
    · have hkey := hlive k hk
      unfold live? Slots.live? at hkey
      rw [hkey]
    · have hnone (found : Option Slot) : found.filter (fun _ => decide (last < k)) = none := by
        cases found <;> simp [hk]
      rw [hnone, hnone]
  rw [hsame, ← filter_behind_last (pairwise_ahead s cursor) hlast]
  have hmem : last ∈ s.ahead cursor :=
    List.mem_of_mem_take (List.mem_of_getLast? hlast)
  cases cursor with
  | zero => rfl
  | succ i =>
    rw [ahead] at hmem ⊢
    cases hprevious : s.cursors[i]? with
    | none =>
      rw [hprevious] at hmem
      cases hmem
    | some previous =>
      rw [hprevious] at hmem
      have hlt : previous < last := of_decide_eq_true (List.mem_filter.1 hmem).2
      simp only [List.filter_filter]
      refine List.filter_congr fun k _ => ?_
      by_cases hk : last < k
      · simp [hk, String.lt_trans hlt hk]
      · simp [hk]

theorem not_mem_drop_of_mem_take {cursor count : Nat} {key : Key}
    (h : key ∈ (s.ahead cursor).take count) : key ∉ (s.ahead cursor).drop count := by
  have hsorted := pairwise_ahead s cursor
  rw [← List.take_append_drop count (s.ahead cursor)] at hsorted
  exact fun hdrop => String.lt_irrefl key ((List.pairwise_append.1 hsorted).2.2 key h key hdrop)

/-- No key of a batch is behind its last. -/
theorem not_mem_take_of_lt {cursor count : Nat} {key last : Key}
    (hlast : ((s.ahead cursor).take count).getLast? = some last) (hlt : last < key) :
    key ∉ (s.ahead cursor).take count := by
  intro htake
  refine not_mem_drop_of_mem_take htake ?_
  rw [← filter_behind_last (pairwise_ahead s cursor) hlast]
  exact List.mem_filter.2 ⟨List.mem_of_mem_take htake, decide_eq_true hlt⟩

theorem live?_foldl_delete (s : Server) (keys : List Key) (k : Key) :
    (keys.foldl delete s).live? k = if k ∈ keys then none else s.live? k := by
  induction keys generalizing s with
  | nil => rfl
  | cons key rest ih =>
    rw [List.foldl_cons, ih, live?_delete]
    by_cases hk : k = key <;> simp [hk]

end Server
end CacheCoherence
