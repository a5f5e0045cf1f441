import CacheCoherence.Text.Percent
import Mathlib.Tactic.SplitIfs

/-!
# Percent encoding is injective

An encoded text is read from left to right without looking ahead. A character that is kept is told
from an encoded one by the percent sign, the first byte of an encoded character says how many bytes
belong to it, and the bytes determine the character. So two texts with the same encoding are equal,
provided the percent sign itself is not kept.
-/
namespace CacheCoherence.Text

theorem upperHexDigit_injective : ∀ n < 16, ∀ n' < 16,
    upperHexDigit n = upperHexDigit n' → n = n' := by decide

theorem percentByte_append {b b' : Nat} (hb : b < 256) (hb' : b' < 256) {rest rest' : List Char}
    (h : percentByte b ++ rest = percentByte b' ++ rest') : b = b' ∧ rest = rest' := by
  simp only [percentByte, List.cons_append, List.nil_append, List.cons.injEq, true_and] at h
  obtain ⟨hhigh, hlow, hrest⟩ := h
  have hdiv := upperHexDigit_injective (b / 16) (by omega) (b' / 16) (by omega) hhigh
  have hmod := upperHexDigit_injective (b % 16) (by omega) (b' % 16) (by omega) hlow
  exact ⟨by omega, hrest⟩

section Utf8
variable {c c' : Char}

theorem toNat_lt (c : Char) : c.toNat < 0x110000 := by
  rcases c.valid with h | h
  · exact Nat.lt_trans h (by decide)
  · exact h.2

theorem utf8Bytes_lt : ∀ b ∈ utf8Bytes c, b < 256 := by
  have hc := toNat_lt c
  intro b hb
  simp only [utf8Bytes] at hb
  split_ifs at hb
  all_goals
    simp only [List.mem_cons, List.not_mem_nil, or_false] at hb
    omega

/-- How many bytes follow the first byte of a character. -/
def following (b : Nat) : Nat :=
  if b < 0xc0 then 0 else if b < 0xe0 then 1 else if b < 0xf0 then 2 else 3

/-- The first byte of a character tells how many bytes follow it. -/
theorem utf8Bytes_eq_cons (c : Char) :
    ∃ b bs, utf8Bytes c = b :: bs ∧ bs.length = following b := by
  have hc := toNat_lt c
  simp only [utf8Bytes, following]
  split_ifs
  all_goals
    refine ⟨_, _, rfl, ?_⟩
    simp only [List.length_cons, List.length_nil]
    split_ifs <;> omega

theorem utf8Bytes_injective (h : utf8Bytes c = utf8Bytes c') : c = c' := by
  have hc := toNat_lt c
  have hc' := toNat_lt c'
  have hsame : c.toNat = c'.toNat := by
    simp only [utf8Bytes] at h
    -- lists of different lengths are out at once, so only characters of one length are compared
    split_ifs at h <;> simp only [List.cons.injEq, reduceCtorEq, and_false, and_true] at h <;> omega
  rw [← Char.ofNat_toNat c, hsame, Char.ofNat_toNat]

end Utf8

theorem flatMap_percentByte_append {bs bs' : List Nat} (hlength : bs.length = bs'.length)
    (hbs : ∀ b ∈ bs, b < 256) (hbs' : ∀ b ∈ bs', b < 256) {rest rest' : List Char}
    (h : bs.flatMap percentByte ++ rest = bs'.flatMap percentByte ++ rest') :
    bs = bs' ∧ rest = rest' := by
  induction bs generalizing bs' with
  | nil =>
    obtain rfl : bs' = [] := List.length_eq_zero_iff.1 hlength.symm
    exact ⟨rfl, h⟩
  | cons b bs ih =>
    cases bs' with
    | nil => cases hlength
    | cons b' bs' =>
      rw [List.flatMap_cons, List.flatMap_cons, List.append_assoc, List.append_assoc] at h
      obtain ⟨rfl, htail⟩ :=
        percentByte_append (hbs b List.mem_cons_self) (hbs' b' List.mem_cons_self) h
      obtain ⟨rfl, hrest⟩ := ih (Nat.succ.inj hlength)
        (fun d hd => hbs d (List.mem_cons_of_mem _ hd))
        (fun d hd => hbs' d (List.mem_cons_of_mem _ hd)) htail
      exact ⟨rfl, hrest⟩

theorem percentBytes_append {c c' : Char} {rest rest' : List Char}
    (h : (utf8Bytes c).flatMap percentByte ++ rest = (utf8Bytes c').flatMap percentByte ++ rest') :
    c = c' ∧ rest = rest' := by
  obtain ⟨b, bs, hbytes, hlength⟩ := utf8Bytes_eq_cons c
  obtain ⟨b', bs', hbytes', hlength'⟩ := utf8Bytes_eq_cons c'
  have hlt : ∀ d ∈ b :: bs, d < 256 := hbytes ▸ utf8Bytes_lt
  have hlt' : ∀ d ∈ b' :: bs', d < 256 := hbytes' ▸ utf8Bytes_lt
  have hfirst := h
  rw [hbytes, hbytes', List.flatMap_cons, List.flatMap_cons, List.append_assoc,
    List.append_assoc] at hfirst
  obtain ⟨rfl, -⟩ :=
    percentByte_append (hlt b List.mem_cons_self) (hlt' b' List.mem_cons_self) hfirst
  have hsame : (utf8Bytes c).length = (utf8Bytes c').length := by
    rw [hbytes, hbytes', List.length_cons, List.length_cons, hlength, hlength']
  obtain ⟨heq, hrest⟩ := flatMap_percentByte_append hsame utf8Bytes_lt utf8Bytes_lt h
  exact ⟨utf8Bytes_injective heq, hrest⟩

section Encode
variable {keep : Char → Bool}

theorem percentChar_of_not_keep {c : Char} (h : keep c = false) :
    ∃ rest, percentChar keep c = '%' :: rest := by
  obtain ⟨b, bs, hbytes, -⟩ := utf8Bytes_eq_cons c
  refine ⟨[upperHexDigit (b / 16), upperHexDigit (b % 16)] ++ bs.flatMap percentByte, ?_⟩
  rw [percentChar, if_neg (by rw [h]; exact Bool.false_ne_true), hbytes]
  rfl

/-- One character, kept or encoded, is read back ahead of whatever follows it. -/
theorem percentChar_append (hpercent : keep '%' = false) {c c' : Char} {rest rest' : List Char}
    (h : percentChar keep c ++ rest = percentChar keep c' ++ rest') : c = c' ∧ rest = rest' := by
  have hkept {d : Char} (hd : keep d = true) : percentChar keep d = [d] := if_pos hd
  cases hc : keep c <;> cases hc' : keep c'
  case false.false =>
    simp only [percentChar, hc, hc', Bool.false_eq_true, if_false] at h
    exact percentBytes_append h
  case false.true =>
    obtain ⟨tail, htail⟩ := percentChar_of_not_keep hc
    rw [hkept hc', htail] at h
    obtain ⟨rfl, -⟩ := List.cons.inj h
    rw [hpercent] at hc'
    cases hc'
  case true.false =>
    obtain ⟨tail, htail⟩ := percentChar_of_not_keep hc'
    rw [hkept hc, htail] at h
    obtain ⟨rfl, -⟩ := List.cons.inj h
    rw [hpercent] at hc
    cases hc
  case true.true =>
    rw [hkept hc, hkept hc'] at h
    exact List.cons.inj h

theorem percentChar_ne_nil (c : Char) : percentChar keep c ≠ [] := by
  cases hc : keep c with
  | true => simp [percentChar, hc]
  | false =>
    obtain ⟨rest, hrest⟩ := percentChar_of_not_keep hc
    rw [hrest]
    exact List.cons_ne_nil _ _

/-- Texts with the same encoding are equal. -/
theorem percentEncode_injective (hpercent : keep '%' = false) :
    Function.Injective (percentEncode keep) := by
  intro cs cs' h
  induction cs generalizing cs' with
  | nil =>
    cases cs' with
    | nil => rfl
    | cons c' cs' =>
      rw [percentEncode, percentEncode, List.flatMap_nil, List.flatMap_cons] at h
      exact absurd (List.append_eq_nil_iff.1 h.symm).1 (percentChar_ne_nil c')
  | cons c cs ih =>
    cases cs' with
    | nil =>
      rw [percentEncode, percentEncode, List.flatMap_nil, List.flatMap_cons] at h
      exact absurd (List.append_eq_nil_iff.1 h).1 (percentChar_ne_nil c)
    | cons c' cs' =>
      rw [percentEncode, percentEncode, List.flatMap_cons, List.flatMap_cons] at h
      obtain ⟨rfl, hrest⟩ := percentChar_append hpercent h
      rw [ih hrest]

theorem isAlphanum_upperHexDigit : ∀ n < 16, (upperHexDigit n).isAlphanum = true := by decide

/-- An encoded text holds kept characters, percent signs and digits of bytes only. -/
theorem of_mem_percentEncode {cs : List Char} {d : Char} (h : d ∈ percentEncode keep cs) :
    keep d = true ∨ d = '%' ∨ d.isAlphanum = true := by
  obtain ⟨c, -, hd⟩ := List.mem_flatMap.1 h
  cases hc : keep c with
  | true =>
    rw [percentChar, if_pos hc] at hd
    exact .inl (List.mem_singleton.1 hd ▸ hc)
  | false =>
    rw [percentChar, if_neg (by rw [hc]; exact Bool.false_ne_true)] at hd
    obtain ⟨b, hb, hd⟩ := List.mem_flatMap.1 hd
    have hlt := utf8Bytes_lt b hb
    simp only [percentByte, List.mem_cons, List.not_mem_nil, or_false] at hd
    rcases hd with rfl | rfl | rfl
    · exact .inr (.inl rfl)
    · exact .inr (.inr (isAlphanum_upperHexDigit _ (by omega)))
    · exact .inr (.inr (isAlphanum_upperHexDigit _ (by omega)))

end Encode

end CacheCoherence.Text
