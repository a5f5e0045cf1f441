import CacheCoherence.KeyNames
import CacheCoherence.Proofs.Text.Percent

/-!
# Different components never share a key

A key is read back from left to right. No component holds a character that ends one, and whatever
stands behind a component starts with such a character or is the end of the key: a literal by the
rule for templates, a further component because of its colon. The brace of a placeholder that found
no component is neither in a component nor does it end one, so a missing component is not taken for
an empty one.
-/
namespace CacheCoherence

namespace Template

/-- The characters that a rendered component is made of. -/
def inComponent (c : Char) : Bool := keepsInComponent c || c = '%'

theorem inComponent_of_mem {s : String} : ∀ c ∈ component s, inComponent c = true := by
  intro c hc
  rcases Text.of_mem_percentEncode hc with h | rfl | h
  · simp [inComponent, h]
  · rfl
  · simp [inComponent, keepsInComponent, h]

theorem component_injective : Function.Injective component := fun _ _ h =>
  String.toList_injective (Text.percentEncode_injective (by decide) h)

/-- The rest of a key starts with a character that ends a component, unless nothing is left. -/
def EndsComponent (rest : List Char) : Prop := ∀ c ∈ rest.head?, delimits c = true

theorem not_inComponent_of_delimits {c : Char} (h : delimits c = true) : inComponent c = false := by
  simp only [delimits, Bool.and_eq_true, Bool.not_eq_true'] at h
  simpa [inComponent, h.1.1] using h.1.2

theorem EndsComponent.takeWhile {rest : List Char} (h : EndsComponent rest) :
    rest.takeWhile inComponent = [] := by
  cases rest with
  | nil => rfl
  | cons c rest =>
    have hc := not_inComponent_of_delimits (h c rfl)
    exact List.takeWhile_cons_of_neg (by simp [hc])

theorem EndsComponent.appended (components : List String) :
    EndsComponent (appended components) := by
  intro c hc
  cases components with
  | nil => cases hc
  | cons => cases hc; decide

theorem component_append {s s' : String} {rest rest' : List Char} (hrest : EndsComponent rest)
    (hrest' : EndsComponent rest') (h : component s ++ rest = component s' ++ rest') :
    s = s' ∧ rest = rest' := by
  have hcut := congrArg (List.takeWhile inComponent) h
  rw [List.takeWhile_append_of_pos inComponent_of_mem,
    List.takeWhile_append_of_pos inComponent_of_mem, hrest.takeWhile, hrest'.takeWhile,
    List.append_nil, List.append_nil] at hcut
  exact ⟨component_injective hcut, List.append_cancel_left (hcut ▸ h)⟩

theorem appended_injective : Function.Injective appended := by
  intro cs cs' h
  induction cs generalizing cs' with
  | nil =>
    cases cs' with
    | nil => rfl
    | cons => cases h
  | cons c cs ih =>
    cases cs' with
    | nil => cases h
    | cons c' cs' =>
      obtain ⟨rfl, hrest⟩ := component_append (.appended cs) (.appended cs') (List.cons.inj h).2
      rw [ih hrest]

section Fill
variable {literal : List Char} {rest : List (List Char)}

theorem delimited_tail (h : delimited (literal :: rest) = true) : delimited rest = true := by
  match literal, rest, h with
  | [], [], _ => rfl
  | _ :: _, _, h => exact (Bool.and_eq_true_iff.1 h).2

/-- In a template that tells where a component ends, the literal behind a component does so, also
where it is the empty one at the end and further components follow. -/
theorem EndsComponent.behind (h : delimited (literal :: rest) = true) (components : List String) :
    EndsComponent (literal ++ fill rest components) := by
  match literal, rest, h with
  | [], [], _ => exact .appended components
  | c :: _, _, h =>
    intro d hd
    cases hd
    exact (Bool.and_eq_true_iff.1 h).1

/-- A placeholder that found no component is no component, not even the empty one. -/
theorem placeholder_ne_component {s : String} {left right : List Char}
    (hends : EndsComponent right) : placeholder ++ left ≠ component s ++ right := by
  intro h
  cases hs : component s with
  | nil =>
    rw [hs, List.nil_append] at h
    have hbrace := hends '{' (by rw [← h]; rfl)
    exact absurd hbrace (by decide)
  | cons c cs =>
    rw [hs] at h
    obtain ⟨rfl, -⟩ := List.cons.inj h
    have hbrace := inComponent_of_mem (s := s) '{' (by rw [hs]; exact List.mem_cons_self)
    exact absurd hbrace (by decide)

end Fill

/-- One template is never filled in the same way by different components. -/
theorem fill_injective {tails : List (List Char)} (h : delimited tails = true) :
    Function.Injective (fill tails) := by
  intro cs cs' heq
  induction tails generalizing cs cs' with
  | nil => exact appended_injective heq
  | cons literal rest ih =>
    cases cs <;> cases cs' <;> simp only [fill, List.append_assoc] at heq
    case nil.nil => rfl
    case nil.cons c' cs' => exact absurd heq (placeholder_ne_component (.behind h cs'))
    case cons.nil c cs => exact absurd heq.symm (placeholder_ne_component (.behind h cs))
    case cons.cons c cs c' cs' =>
      obtain ⟨rfl, hbehind⟩ := component_append (.behind h cs) (.behind h cs') heq
      rw [ih (delimited_tail h) (List.append_cancel_left hbehind)]

theorem render_injective {t : Template} (h : t.Unambiguous) : Function.Injective t.render :=
  fun _ _ heq => fill_injective h (List.append_cancel_left heq)

end Template

namespace KeyNames
open Template

/-- An identifier without a template stands before the first colon. -/
theorem not_colon_of_mem {id : String} :
    ∀ c ∈ Text.percentEncode keepsInId id.toList, (c != ':') = true := by
  intro c hc
  rcases Text.of_mem_percentEncode hc with h | rfl | h
  · exact bne_iff_ne.2 (of_decide_eq_true (Bool.and_eq_true_iff.1 h).1)
  · rfl
  · rw [bne_iff_ne]
    rintro rfl
    exact absurd h (by decide)

theorem takeWhile_appended (components : List String) :
    (appended components).takeWhile (· != ':') = [] := by
  cases components <;> rfl

theorem id_append {id id' : String} {components components' : List String}
    (h : Text.percentEncode keepsInId id.toList ++ appended components =
      Text.percentEncode keepsInId id'.toList ++ appended components') :
    id = id' ∧ components = components' := by
  have hcut := congrArg (List.takeWhile (· != ':')) h
  rw [List.takeWhile_append_of_pos not_colon_of_mem, List.takeWhile_append_of_pos not_colon_of_mem,
    takeWhile_appended, takeWhile_appended, List.append_nil, List.append_nil] at hcut
  exact ⟨String.toList_injective (Text.percentEncode_injective (by decide) hcut),
    appended_injective (List.append_cancel_left (hcut ▸ h))⟩

theorem rendered_of_key {names : KeyNames} {id id' : String} {components components' : List String}
    (h : names.key id components = names.key id' components') :
    names.rendered id components = names.rendered id' components' :=
  (List.cons.inj (List.append_cancel_left (String.ofList_injective h))).2

theorem rendered_injective (names : KeyNames) (id : String) :
    Function.Injective (names.rendered id) := by
  intro components components' h
  cases ht : names.templates.get? id with
  | some t =>
    simp only [rendered, ht] at h
    exact render_injective t.property h
  | none =>
    simp only [rendered, ht] at h
    exact (id_append h).2

/-- Under one identifier different components never share a key, and neither do different
identifiers without a template, whatever their components. -/
theorem components_of_key (names : KeyNames) :
    (∀ id, Function.Injective (names.key id)) ∧
      ∀ id id' components components', names.templates.get? id = none →
        names.templates.get? id' = none →
        names.key id components = names.key id' components' →
        id = id' ∧ components = components' := by
  refine ⟨fun id components components' h => names.rendered_injective id (rendered_of_key h), ?_⟩
  intro id id' components components' hid hid' h
  have hrendered := rendered_of_key h
  simp only [rendered, hid, hid'] at hrendered
  exact id_append hrendered

/-- A missing component is told from an empty one where a template has a place for it, and the
colon between an identifier and its components from one inside the identifier. -/
theorem components_of_key_pair :
    ∃ names, (ofRoot "shop").withTemplate? "PAIR" "PAIR_{}_{}" = some names ∧
      names.key "PAIR" ["left"] ≠ names.key "PAIR" ["left", ""] ∧
      names.templates.get? "EDGE" = none ∧ names.templates.get? "EDGE:x" = none ∧
      names.key "EDGE" ["x", "y"] ≠ names.key "EDGE:x" ["y"] := by
  refine ⟨_, rfl, fun h => ?_, rfl, rfl, fun h => ?_⟩
  · exact absurd ((components_of_key _).1 "PAIR" h) (by decide)
  · exact absurd ((components_of_key _).2 "EDGE" "EDGE:x" ["x", "y"] ["y"] rfl rfl h).1 (by decide)

end KeyNames
end CacheCoherence
