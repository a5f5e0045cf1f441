import CacheCoherence.Proofs.DependencyLists

/-!
# Lists under merges

A dependency list is read and written anew with every batch of dependents that is merged into it.
Its text is always the one that spells the set of all keys that were merged so far, whatever
characters they hold. So the text does not tell in which order the dependents came, how they were
grouped or how often one of them was named, and reading it back neither adds nor drops a key.
-/
namespace CacheCoherence

namespace KeySet
variable {s t : KeySet} {ks ks' : List Key}

instance : Membership Key KeySet := ⟨fun s k => s.get? k = some ()⟩

instance : EmptyCollection KeySet := ⟨Table.empty⟩

instance : Union KeySet := ⟨fun s t => s.addAll t.keys⟩

theorem mem_iff (s : KeySet) (k : Key) : k ∈ s ↔ s.get? k = some () := Iff.rfl

@[simp] theorem not_mem_empty (k : Key) : k ∉ (∅ : KeySet) := by
  intro h
  cases h

@[simp] theorem mem_addAll (s : KeySet) (ks : List Key) (k : Key) :
    k ∈ s.addAll ks ↔ k ∈ s ∨ k ∈ ks := by
  rw [mem_iff, mem_iff, get?_addAll]
  by_cases h : k ∈ ks
  · simp [h]
  · simp [h]

@[simp] theorem mem_ofList (ks : List Key) (k : Key) : k ∈ ofList ks ↔ k ∈ ks := by
  change k ∈ (∅ : KeySet).addAll ks ↔ k ∈ ks
  simp

@[simp] theorem mem_keys (s : KeySet) (k : Key) : k ∈ s.keys ↔ k ∈ s := by
  rw [Table.mem_keys_iff, mem_iff]
  constructor
  · rintro ⟨u, hu⟩
    exact hu
  · intro h
    exact ⟨(), h⟩

@[simp] theorem mem_union (s t : KeySet) (k : Key) : k ∈ s ∪ t ↔ k ∈ s ∨ k ∈ t := by
  change k ∈ s.addAll t.keys ↔ _
  rw [mem_addAll, mem_keys]

theorem ext_mem (h : ∀ k, k ∈ s ↔ k ∈ t) : s = t := by
  apply Table.ext_get?
  intro k
  have hk := h k
  rw [mem_iff, mem_iff] at hk
  cases hs : s.get? k with
  | some u => exact (hk.1 hs).symm
  | none =>
    cases ht : t.get? k with
    | none => rfl
    | some u =>
      rw [hk.2 ht] at hs
      cases hs

theorem addAll_append (s : KeySet) (ks ks' : List Key) :
    s.addAll (ks ++ ks') = (s.addAll ks).addAll ks' := List.foldl_append

theorem addAll_congr (s : KeySet) (h : ∀ k, k ∈ ks ↔ k ∈ ks') : s.addAll ks = s.addAll ks' := by
  apply ext_mem
  intro k
  rw [mem_addAll, mem_addAll, h k]

theorem addAll_eq_union (s : KeySet) (ks : List Key) : s.addAll ks = s ∪ ofList ks := by
  apply ext_mem
  intro k
  rw [mem_addAll, mem_union, mem_ofList]

end KeySet

namespace DependencyList
variable (key : Key)

/-- The set that a slot with this text stands for; an empty slot stands for the empty one. -/
def readBack : Option String → Except Fault KeySet
  | none => .ok ∅
  | some raw => decode key raw

/-- The text of a slot after batches of dependents were merged into it one after another. -/
def mergeAll (current : Option String) (batches : List (List Key)) :
    Except Fault (Option String) :=
  batches.foldlM (fun current batch => (merge key current batch).map some) current

@[simp] theorem readBack_encode (s : KeySet) : readBack key (some (encode s)) = .ok s :=
  decode_encode key s

theorem merge_eq_map (current : Option String) (dependents : List Key) :
    merge key current dependents =
      (readBack key current).map fun s => encode (s.addAll dependents) := by
  cases current with
  | none => rfl
  | some raw => rfl

theorem merge_of_readBack {current : Option String} {s : KeySet}
    (h : readBack key current = .ok s) (dependents : List Key) :
    merge key current dependents = .ok (encode (s.addAll dependents)) := by
  rw [merge_eq_map, h]
  rfl

theorem mergeAll_cons (current : Option String) (batch : List Key) (rest : List (List Key)) :
    mergeAll key current (batch :: rest) =
      (merge key current batch).bind fun text => mergeAll key (some text) rest := by
  unfold mergeAll
  rw [List.foldlM_cons]
  cases merge key current batch with
  | error fault => rfl
  | ok text => rfl

/-- Merging batch after batch comes to merging all of them at once. -/
theorem mergeAll_eq_map (current : Option String) (batch : List Key) (rest : List (List Key)) :
    mergeAll key current (batch :: rest) =
      (readBack key current).map fun s => some (encode (s.addAll (batch :: rest).flatten)) := by
  induction rest generalizing current batch with
  | nil =>
    rw [mergeAll_cons, merge_eq_map, List.flatten_singleton]
    cases readBack key current with
    | error fault => rfl
    | ok s => rfl
  | cons next rest ih =>
    rw [mergeAll_cons]
    cases hread : readBack key current with
    | error fault =>
      rw [merge_eq_map, hread]
      rfl
    | ok s =>
      rw [merge_of_readBack key hread]
      change mergeAll key (some (encode (s.addAll batch))) (next :: rest) =
        .ok (some (encode (s.addAll (batch ++ (next :: rest).flatten))))
      rw [ih, readBack_encode, KeySet.addAll_append]
      rfl

/-- A second merge of the same dependents changes nothing. -/
theorem merge_merge_self (current : Option String) (dependents : List Key) :
    ((merge key current dependents).bind fun text => merge key (some text) dependents) =
      merge key current dependents := by
  rw [merge_eq_map]
  cases readBack key current with
  | error fault => rfl
  | ok s =>
    change merge key (some (encode (s.addAll dependents))) dependents = _
    rw [merge_encode, ← KeySet.addAll_append]
    have hsame : s.addAll (dependents ++ dependents) = s.addAll dependents := by
      apply KeySet.addAll_congr
      simp
    rw [hsame]
    rfl

/-- Batches that name the same keys leave the same text, however they name them. -/
theorem mergeAll_congr (current : Option String) {batch batch' : List Key}
    {rest rest' : List (List Key)}
    (h : ∀ k, k ∈ (batch :: rest).flatten ↔ k ∈ (batch' :: rest').flatten) :
    mergeAll key current (batch :: rest) = mergeAll key current (batch' :: rest') := by
  rw [mergeAll_eq_map, mergeAll_eq_map]
  simp only [fun s => KeySet.addAll_congr s h]

/-- After any batches the slot stands for what it stood for before and all that was merged. -/
theorem readBack_mergeAll {current : Option String} {s : KeySet}
    (h : readBack key current = .ok s) (batches : List (List Key)) :
    ∃ stored, mergeAll key current batches = .ok stored ∧
      readBack key stored = .ok (s ∪ .ofList batches.flatten) := by
  rw [← KeySet.addAll_eq_union]
  cases batches with
  | nil => exact ⟨current, rfl, h⟩
  | cons batch rest =>
    refine ⟨some (encode (s.addAll (batch :: rest).flatten)), ?_, readBack_encode key _⟩
    rw [mergeAll_eq_map, h]
    rfl

/-- **Lists survive their encoding.** Whatever characters the keys hold, the text of a set of keys
is a JSON array of them in ascending order and reads back as that set. Merging dependents into the
text of a set yields the text of the union, and merging them into no list the text of their set. A
second merge changes nothing. Batches that name the same keys lead to the same text, in whatever
order, groups and repetitions they come. After any sequence of merges the slot reads back as exactly
the keys that it held and those that were merged. -/
theorem lists_survive_encoding :
    (∀ s : KeySet, Json.parse? (encode s) = some (Json.texts s.keys) ∧
      s.keys.Pairwise (· < ·) ∧ decode key (encode s) = .ok s) ∧
    (∀ (s : KeySet) (dependents : List Key),
      merge key (some (encode s)) dependents = .ok (encode (s ∪ .ofList dependents))) ∧
    (∀ dependents : List Key, merge key none dependents = .ok (encode (.ofList dependents))) ∧
    (∀ (current : Option String) (dependents : List Key),
      ((merge key current dependents).bind fun text => merge key (some text) dependents) =
        merge key current dependents) ∧
    (∀ (current : Option String) (batch batch' : List Key) (rest rest' : List (List Key)),
      (∀ k, k ∈ (batch :: rest).flatten ↔ k ∈ (batch' :: rest').flatten) →
        mergeAll key current (batch :: rest) = mergeAll key current (batch' :: rest')) ∧
    ∀ (start : Option KeySet) (batches : List (List Key)), ∃ stored s,
      mergeAll key (start.map encode) batches = .ok stored ∧ readBack key stored = .ok s ∧
        ∀ k, k ∈ s ↔ (∃ before ∈ start, k ∈ before) ∨ ∃ batch ∈ batches, k ∈ batch := by
  refine ⟨?_, ?_, fun _ => rfl, merge_merge_self key,
    fun current _ _ _ _ h => mergeAll_congr key current h, ?_⟩
  · intro s
    have hparse : Json.parse? (encode s) = some (Json.texts s.keys) :=
      Json.parse?_compact (Json.wellFormed_texts s.keys)
    have hsorted : s.keys.Pairwise (· < ·) := List.pairwise_map.2 s.sorted
    exact ⟨hparse, hsorted, decode_encode key s⟩
  · intro s dependents
    rw [merge_encode, KeySet.addAll_eq_union]
  · intro start batches
    have hstart : readBack key (start.map encode) = .ok (start.getD ∅) := by
      cases start with
      | none => rfl
      | some before => exact readBack_encode key before
    obtain ⟨stored, hmerged, hread⟩ := readBack_mergeAll key hstart batches
    refine ⟨stored, _, hmerged, hread, ?_⟩
    intro k
    rw [KeySet.mem_union, KeySet.mem_ofList, List.mem_flatten]
    cases start with
    | none => simp
    | some before => simp

/-- Keys with a quotation mark, a backslash, a control character and no characters at all, merged in
two ways. -/
theorem lists_survive_encoding_of_hardKeys :
    mergeAll "d" none [["\"", "\\"], ["", "\x01", "\""]] =
      mergeAll "d" none [["\x01", "", "\\", "\\", "\""]] ∧
    merge "d" none ["\x01", "", "\\", "\\", "\""] =
      .ok "[\"\",\"\\u0001\",\"\\\"\",\"\\\\\"]" := by
  obtain ⟨-, -, hnew, -, hsame, -⟩ := lists_survive_encoding "d"
  constructor
  · apply hsame
    intro k
    simp only [List.flatten_cons, List.flatten_nil, List.mem_append, List.mem_cons,
      List.not_mem_nil, or_false]
    grind
  · rw [hnew]
    apply congrArg Except.ok
    decide +kernel

end DependencyList
end CacheCoherence
