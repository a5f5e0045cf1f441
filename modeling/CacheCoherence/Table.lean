/-!
# Finite maps with text keys

A table lists its entries in strictly ascending order of their keys, and carries the proof of
it, so two tables with the same look-ups are the same table (`Table.ext_get?`) and a walk over
the entries meets the keys in sorted order. Each operation comes with its equation for `get?`;
later modules reason through these equations alone.
-/
namespace CacheCoherence

/-- A cache key. Two keys name the same slot exactly when their texts are equal. -/
abbrev Key := String

/-- Entries in strictly ascending order of their keys. -/
structure Table (α : Type) where
  entries : List (Key × α)
  sorted : entries.Pairwise (fun a b => a.1 < b.1)

namespace Table
variable {α β : Type}

def empty : Table α := ⟨[], .nil⟩

instance : Inhabited (Table α) := ⟨empty⟩

def find (k : Key) : List (Key × α) → Option α
  | [] => none
  | (k', a) :: rest => if k' = k then some a else find k rest

/-- One pass that puts an entry in its place, over an entry with the same key if there is one. -/
def place (k : Key) (a : α) : List (Key × α) → List (Key × α)
  | [] => [(k, a)]
  | (k', b) :: rest =>
    if k < k' then (k, a) :: (k', b) :: rest
    else if k' = k then (k, a) :: rest
    else (k', b) :: place k a rest

theorem mem_place {k : Key} {a : α} {e : Key × α} {l : List (Key × α)} (h : e ∈ place k a l) :
    e = (k, a) ∨ e ∈ l := by
  induction l with
  | nil => simpa [place] using h
  | cons x rest ih =>
    obtain ⟨k', b⟩ := x
    simp only [place] at h
    split at h
    · simpa using h
    · split at h
      · rcases List.mem_cons.1 h with h | h
        · exact .inl h
        · exact .inr (List.mem_cons_of_mem _ h)
      · rcases List.mem_cons.1 h with h | h
        · exact .inr (h ▸ List.mem_cons_self)
        · exact (ih h).imp_right (List.mem_cons_of_mem _)

theorem lt_of_not_lt_of_ne {a b : Key} (h : ¬ a < b) (hne : b ≠ a) : b < a := by
  apply Classical.byContradiction
  intro hba
  exact hne (String.le_antisymm (Classical.byContradiction fun hn => h (String.not_le.1 hn))
    (Classical.byContradiction fun hn => hba (String.not_le.1 hn)))

theorem sorted_place {k : Key} {a : α} {l : List (Key × α)}
    (h : l.Pairwise (fun x y => x.1 < y.1)) :
    (place k a l).Pairwise (fun x y => x.1 < y.1) := by
  induction l with
  | nil => simp [place]
  | cons x rest ih =>
    obtain ⟨k', b⟩ := x
    have hrest := List.pairwise_cons.1 h
    simp only [place]
    split
    · rename_i hlt
      refine List.pairwise_cons.2 ⟨?_, h⟩
      intro e he
      rcases List.mem_cons.1 he with rfl | he
      · exact hlt
      · exact String.lt_trans hlt (hrest.1 e he)
    · rename_i hnlt
      split
      · rename_i heq
        subst heq
        exact List.pairwise_cons.2 ⟨hrest.1, hrest.2⟩
      · rename_i hne
        refine List.pairwise_cons.2 ⟨?_, ih hrest.2⟩
        intro e he
        rcases mem_place he with rfl | he
        · exact lt_of_not_lt_of_ne hnlt hne
        · exact hrest.1 e he

theorem find_place_self (k : Key) (a : α) (l : List (Key × α)) :
    find k (place k a l) = some a := by
  induction l with
  | nil => simp [place, find]
  | cons x rest ih =>
    obtain ⟨k', b⟩ := x
    simp only [place]
    split
    · simp [find]
    · split
      · simp [find]
      · rename_i hne
        simp [find, hne, ih]

theorem find_place_of_ne {k k' : Key} (h : k' ≠ k) (a : α) (l : List (Key × α)) :
    find k' (place k a l) = find k' l := by
  induction l with
  | nil => simp [place, find, Ne.symm h]
  | cons x rest ih =>
    obtain ⟨k'', b⟩ := x
    simp only [place]
    split
    · simp [find, Ne.symm h]
    · split
      · rename_i heq
        subst heq
        simp [find, Ne.symm h]
      · simp [find, ih]

theorem find_filter {p : Key → Bool} (k : Key) (l : List (Key × α)) :
    find k (l.filter fun e => p e.1) = if p k then find k l else none := by
  induction l with
  | nil => simp [find]
  | cons x rest ih =>
    obtain ⟨k', b⟩ := x
    by_cases hp : p k' <;> by_cases hk : k' = k <;> simp_all [find]

theorem find_eq_none_of_lt {k : Key} {l : List (Key × α)} (h : ∀ e ∈ l, k < e.1) :
    find k l = none := by
  induction l with
  | nil => rfl
  | cons x rest ih =>
    obtain ⟨k', b⟩ := x
    have hk : k' ≠ k := by
      rintro rfl
      exact String.lt_irrefl _ (h _ List.mem_cons_self)
    simp only [find, hk, if_false]
    exact ih fun e he => h e (List.mem_cons_of_mem _ he)

theorem mem_of_find {k : Key} {a : α} {l : List (Key × α)} (h : find k l = some a) :
    (k, a) ∈ l := by
  induction l with
  | nil => simp [find] at h
  | cons x rest ih =>
    obtain ⟨k', b⟩ := x
    simp only [find] at h
    split at h
    · rename_i heq
      subst heq
      simp_all
    · exact List.mem_cons_of_mem _ (ih h)

theorem find_of_mem {k : Key} {a : α} {l : List (Key × α)}
    (hs : l.Pairwise (fun x y => x.1 < y.1)) (h : (k, a) ∈ l) : find k l = some a := by
  induction l with
  | nil => simp at h
  | cons x rest ih =>
    obtain ⟨k', b⟩ := x
    have hrest := List.pairwise_cons.1 hs
    rcases List.mem_cons.1 h with h | h
    · cases h
      simp [find]
    · have hk : k' ≠ k := by
        intro heq
        have hlt : k' < k := hrest.1 (k, a) h
        exact String.lt_irrefl k (heq ▸ hlt)
      simp only [find, hk, if_false]
      exact ih hrest.2 h

def get? (t : Table α) (k : Key) : Option α := find k t.entries

def insert (t : Table α) (k : Key) (a : α) : Table α :=
  ⟨place k a t.entries, sorted_place t.sorted⟩

def erase (t : Table α) (k : Key) : Table α :=
  ⟨t.entries.filter fun e => e.1 ≠ k, t.sorted.filter _⟩

def filter (p : Key → α → Bool) (t : Table α) : Table α :=
  ⟨t.entries.filter fun e => p e.1 e.2, t.sorted.filter _⟩

def map (f : α → β) (t : Table α) : Table β :=
  ⟨t.entries.map fun e => (e.1, f e.2), List.Pairwise.map _ (fun _ _ h => h) t.sorted⟩

/-- The keys in ascending order. -/
def keys (t : Table α) : List Key := t.entries.map (·.1)

/-- The table of a list of entries; of two with one key the later counts. -/
def ofList (l : List (Key × α)) : Table α :=
  l.foldl (fun t e => t.insert e.1 e.2) empty

@[simp] theorem get?_empty (k : Key) : (empty : Table α).get? k = none := rfl

theorem get?_insert (t : Table α) (k k' : Key) (a : α) :
    (t.insert k a).get? k' = if k' = k then some a else t.get? k' := by
  by_cases h : k' = k
  · subst h
    simp [get?, insert, find_place_self]
  · simp [get?, insert, find_place_of_ne h, h]

@[simp] theorem get?_insert_self (t : Table α) (k : Key) (a : α) :
    (t.insert k a).get? k = some a := by simp [get?_insert]

theorem get?_insert_of_ne (t : Table α) {k k' : Key} (h : k' ≠ k) (a : α) :
    (t.insert k a).get? k' = t.get? k' := by simp [get?_insert, h]

theorem get?_erase (t : Table α) (k k' : Key) :
    (t.erase k).get? k' = if k' = k then none else t.get? k' := by
  have h := find_filter (p := fun x => decide (x ≠ k)) k' t.entries
  simp only [get?, erase]
  rw [h]
  by_cases hk : k' = k <;> simp [hk]

@[simp] theorem get?_erase_self (t : Table α) (k : Key) : (t.erase k).get? k = none := by
  simp [get?_erase]

theorem get?_erase_of_ne (t : Table α) {k k' : Key} (h : k' ≠ k) :
    (t.erase k).get? k' = t.get? k' := by simp [get?_erase, h]

theorem mem_entries_iff (t : Table α) (k : Key) (a : α) :
    (k, a) ∈ t.entries ↔ t.get? k = some a :=
  ⟨find_of_mem t.sorted, mem_of_find⟩

theorem mem_keys_iff (t : Table α) (k : Key) : k ∈ t.keys ↔ ∃ a, t.get? k = some a := by
  simp only [keys, List.mem_map]
  constructor
  · rintro ⟨⟨k', a⟩, h, rfl⟩
    exact ⟨a, (mem_entries_iff t _ _).1 h⟩
  · rintro ⟨a, h⟩
    exact ⟨(k, a), (mem_entries_iff t _ _).2 h, rfl⟩

theorem get?_filter (t : Table α) (p : Key → α → Bool) (k : Key) :
    (t.filter p).get? k = (t.get? k).filter (p k) := by
  cases h : t.get? k with
  | none =>
    cases h' : (t.filter p).get? k with
    | none => rfl
    | some a =>
      have := List.mem_filter.1 ((mem_entries_iff _ _ _).2 h')
      rw [(mem_entries_iff _ _ _).1 this.1] at h
      cases h
  | some a =>
    have hm := (mem_entries_iff _ _ _).2 h
    by_cases hp : p k a = true
    · have : (t.filter p).get? k = some a :=
        (mem_entries_iff _ _ _).1 (List.mem_filter.2 ⟨hm, hp⟩)
      simp [this, Option.filter, hp]
    · cases h' : (t.filter p).get? k with
      | none => simp [Option.filter, hp]
      | some b =>
        have hb := List.mem_filter.1 ((mem_entries_iff _ _ _).2 h')
        have hab : t.get? k = some b := (mem_entries_iff _ _ _).1 hb.1
        rw [h] at hab
        cases hab
        exact absurd hb.2 hp

theorem entries_ext {l m : List (Key × α)} (hl : l.Pairwise (fun x y => x.1 < y.1))
    (hm : m.Pairwise (fun x y => x.1 < y.1)) (h : ∀ k, find k l = find k m) : l = m := by
  induction l generalizing m with
  | nil =>
    cases m with
    | nil => rfl
    | cons y m =>
      have := h y.1
      simp [find] at this
  | cons x l ih =>
    obtain ⟨k, a⟩ := x
    cases m with
    | nil =>
      have := h k
      simp [find] at this
    | cons y m =>
      obtain ⟨k', b⟩ := y
      have hx := List.pairwise_cons.1 hl
      have hy := List.pairwise_cons.1 hm
      have hk : k = k' := by
        apply Classical.byContradiction
        intro hne
        by_cases hlt : k < k'
        · have hf := h k
          have : find k ((k', b) :: m) = none := find_eq_none_of_lt fun e he => by
            rcases List.mem_cons.1 he with rfl | he
            · exact hlt
            · exact String.lt_trans hlt (hy.1 e he)
          rw [this] at hf
          simp [find] at hf
        · have hlt' : k' < k := lt_of_not_lt_of_ne hlt (Ne.symm hne)
          have hf := h k'
          have : find k' ((k, a) :: l) = none := find_eq_none_of_lt fun e he => by
            rcases List.mem_cons.1 he with rfl | he
            · exact hlt'
            · exact String.lt_trans hlt' (hx.1 e he)
          rw [this] at hf
          simp [find] at hf
      subst hk
      have hab := h k
      simp only [find, if_true, Option.some.injEq] at hab
      subst hab
      rw [ih hx.2 hy.2]
      intro q
      by_cases hq : k = q
      · subst hq
        rw [find_eq_none_of_lt hx.1, find_eq_none_of_lt hy.1]
      · have := h q
        simpa [find, hq] using this

theorem ext_get? {t u : Table α} (h : ∀ k, t.get? k = u.get? k) : t = u := by
  obtain ⟨l, hl⟩ := t
  obtain ⟨m, hm⟩ := u
  have : l = m := entries_ext hl hm h
  subst this
  rfl

end Table
end CacheCoherence
