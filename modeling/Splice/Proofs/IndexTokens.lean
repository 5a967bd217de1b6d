import Splice.IndexSpec
import Splice.Proofs.Numerals

/-!
# Index tokens

What stands between the parentheses of an index is taken for a number or for a name, by its notation
alone. Main statement: a token that denotes an integer of 64 bits is that integer, any other token
names the attribute that is written so; and what is written for either is read back as the same.
-/

namespace Splice

namespace Numeral

variable {text : String} {sign : Sign} {n : Int}

/-- A text denotes one integer at most. -/
theorem Denotes.unique {sign' : Sign} {n' : Int} (h : Denotes text sign n)
    (h' : Denotes text sign' n') : n = n' := by
  have hn : signed? text.toList = some n := signed?_eq_some_iff.mpr ⟨sign, h⟩
  have hn' : signed? text.toList = some n' := signed?_eq_some_iff.mpr ⟨sign', h'⟩
  exact Option.some.inj (hn.symm.trans hn')

theorem Denotes.exists_isDigit (h : Denotes text sign n) :
    ∃ c ∈ text.toList, c.isDigit = true := by
  obtain ⟨cs, m, htext, hdigits, -⟩ := h
  obtain ⟨c, hc⟩ := List.exists_mem_of_ne_nil cs hdigits.ne_nil
  exact ⟨c, htext ▸ List.mem_append_right _ hc, hdigits.isDigit c hc⟩

theorem Denotes.isDigit_or_isSign (h : Denotes text sign n) {c : Char} (hc : c ∈ text.toList) :
    c.isDigit = true ∨ c = '+' ∨ c = '-' := by
  obtain ⟨cs, m, htext, hdigits, -⟩ := h
  rw [htext, List.mem_append] at hc
  rcases hc with hsign | hdigit
  · cases sign with
    | absent => cases hsign
    | plus => exact Or.inr (Or.inl (List.mem_singleton.mp hsign))
    | minus => exact Or.inr (Or.inr (List.mem_singleton.mp hsign))
  · exact Or.inl (hdigits.isDigit c hdigit)

end Numeral

namespace IndexSpec

open Numeral

variable {token : String}

/-- The integers that an index can be. -/
def InRange (n : Int) : Prop := -2 ^ 63 ≤ n ∧ n < 2 ^ 63

theorem inRange_toInt (n : Int64) : InRange n.toInt := ⟨n.le_toInt, n.toInt_lt⟩

/-- The token is a numeral of an integer of 64 bits. -/
def IsNumber (token : String) : Prop := ∃ sign n, Denotes token sign n ∧ InRange n

theorem read_int64_eq_some_iff {n : Int} :
    IntType.int64.read token = some n ↔ (∃ sign, Denotes token sign n) ∧ InRange n := by
  rw [IntType.read_eq_some_iff]
  simp [IntType.Admits, IntType.isSigned, IntType.lower, IntType.upper, InRange]

theorem ofToken_of_read_eq_some {n : Int} (h : IntType.int64.read token = some n) :
    ofToken token = .literal (Int64.ofInt n) := by
  simp [ofToken, h]

theorem ofToken_eq_literal_iff {n : Int64} :
    ofToken token = .literal n ↔ ∃ sign, Denotes token sign n.toInt := by
  constructor
  · intro h
    cases hread : IntType.int64.read token with
    | none =>
      rw [ofToken_of_read_eq_none hread] at h
      cases h
    | some m =>
      rw [ofToken_of_read_eq_some hread] at h
      cases h
      rw [IntType.toInt_ofInt_of_read hread]
      exact (read_int64_eq_some_iff.mp hread).1
  · intro h
    have hread := read_int64_eq_some_iff.mpr ⟨h, inRange_toInt n⟩
    rw [ofToken_of_read_eq_some hread, Int64.ofInt_toInt]

theorem ofToken_eq_attribute_iff {name : String} :
    ofToken token = .attribute name ↔ name = token ∧ ¬ IsNumber token := by
  constructor
  · intro h
    cases hread : IntType.int64.read token with
    | none =>
      rw [ofToken_of_read_eq_none hread] at h
      cases h
      refine ⟨rfl, ?_⟩
      rintro ⟨sign, n, hdenotes, hrange⟩
      rw [read_int64_eq_some_iff.mpr ⟨⟨sign, hdenotes⟩, hrange⟩] at hread
      cases hread
    | some m =>
      rw [ofToken_of_read_eq_some hread] at h
      cases h
  · rintro ⟨rfl, hnumber⟩
    refine ofToken_of_read_eq_none (Option.eq_none_iff_forall_ne_some.mpr fun n hread => ?_)
    obtain ⟨⟨sign, hdenotes⟩, hrange⟩ := read_int64_eq_some_iff.mp hread
    exact hnumber ⟨sign, n, hdenotes, hrange⟩

/-- What has no digit in it is no number, so a lone sign is not. -/
theorem not_isNumber_of_forall_mem (h : ∀ c ∈ token.toList, c.isDigit = false) :
    ¬ IsNumber token := by
  rintro ⟨sign, n, hdenotes, -⟩
  obtain ⟨c, hc, hdigit⟩ := hdenotes.exists_isDigit
  rw [h c hc] at hdigit
  cases hdigit

/-- What has anything but digits and signs in it is no number: a space, or a foreign digit. -/
theorem not_isNumber_of_mem {c : Char} (hc : c ∈ token.toList) (hdigit : c.isDigit = false)
    (hplus : c ≠ '+') (hminus : c ≠ '-') : ¬ IsNumber token := by
  rintro ⟨sign, n, hdenotes, -⟩
  rcases hdenotes.isDigit_or_isSign hc with h | h | h
  · rw [hdigit] at h
    cases h
  · exact hplus h
  · exact hminus h

theorem not_isNumber_of_not_inRange {sign : Sign} {n : Int} (h : Denotes token sign n)
    (hrange : ¬ InRange n) : ¬ IsNumber token := by
  rintro ⟨sign', n', hdenotes, hrange'⟩
  exact hrange (h.unique hdenotes ▸ hrange')

/-- A token is a literal exactly when it is a numeral, of at most one sign and one or more digits,
of an integer of 64 bits, and it is that integer then. Any other token is an attribute of its own
name: one without a digit, one with anything but digits and signs in it, and a numeral of an integer
out of range. The text of an index is read as that index again, and so is every integer in its
decimal form. -/
theorem ofToken_classifies (token : String) :
    (∀ index : Int64, ofToken token = .literal index ↔
      ∃ sign n, Denotes token sign n ∧ InRange n ∧ index.toInt = n) ∧
    (∀ name, ofToken token = .attribute name ↔
      name = token ∧ ¬ ∃ sign n, Denotes token sign n ∧ InRange n) ∧
    ((∀ c ∈ token.toList, c.isDigit = false) → ofToken token = .attribute token) ∧
    (∀ c ∈ token.toList, c.isDigit = false → c ≠ '+' → c ≠ '-' →
      ofToken token = .attribute token) ∧
    (∀ sign n, Denotes token sign n → ¬ InRange n → ofToken token = .attribute token) ∧
    ofToken (ofToken token).text = ofToken token ∧
    ∀ n : Int64, ofToken n.toInt.repr = .literal n := by
  have hname : ¬ IsNumber token → ofToken token = .attribute token :=
    fun h => ofToken_eq_attribute_iff.mpr ⟨rfl, h⟩
  refine ⟨fun index => ?_, fun name => ofToken_eq_attribute_iff,
    fun h => hname (not_isNumber_of_forall_mem h),
    fun c hc hdigit hplus hminus => hname (not_isNumber_of_mem hc hdigit hplus hminus),
    fun sign n h hrange => hname (not_isNumber_of_not_inRange h hrange),
    ofToken_text token, ofToken_repr⟩
  rw [ofToken_eq_literal_iff]
  constructor
  · rintro ⟨sign, hdenotes⟩
    exact ⟨sign, index.toInt, hdenotes, inRange_toInt index, rfl⟩
  · rintro ⟨sign, n, hdenotes, -, rfl⟩
    exact ⟨sign, hdenotes⟩

theorem ofToken_classifies_limits :
    Denotes "-9223372036854775808" .minus (-9223372036854775808) ∧
      InRange (-9223372036854775808) ∧
      ofToken "-9223372036854775808" = .literal Int64.minValue ∧
      Denotes "+9223372036854775808" .plus 9223372036854775808 ∧
      ¬ InRange 9223372036854775808 ∧
      ofToken "+9223372036854775808" = .attribute "+9223372036854775808" ∧
      (∀ c ∈ "-".toList, c.isDigit = false) ∧ ofToken "-" = .attribute "-" ∧
      '٣' ∈ "٣".toList ∧ Char.isDigit '٣' = false ∧ ofToken "٣" = .attribute "٣" := by
  have hleast : Denotes "-9223372036854775808" .minus (-9223372036854775808) :=
    ⟨"9223372036854775808".toList, 9223372036854775808, rfl,
      ⟨by simp, by simp [Char.isDigit], by cbv⟩, rfl⟩
  have hlarge : Denotes "+9223372036854775808" .plus 9223372036854775808 :=
    ⟨"9223372036854775808".toList, 9223372036854775808, rfl,
      ⟨by simp, by simp [Char.isDigit], by cbv⟩, rfl⟩
  have hin : InRange (-9223372036854775808) := ⟨by decide, by decide⟩
  have hout : ¬ InRange 9223372036854775808 := fun h => absurd h.2 (by decide)
  have hsign : ∀ c ∈ "-".toList, c.isDigit = false := by simp [Char.isDigit]
  have hscript : '٣' ∈ "٣".toList := by simp
  refine ⟨hleast, hin, ?_, hlarge, hout, ?_, hsign, ?_, hscript, by decide, ?_⟩
  · exact ((ofToken_classifies _).1 _).mpr ⟨.minus, _, hleast, hin, by decide⟩
  · exact (ofToken_classifies _).2.2.2.2.1 .plus _ hlarge hout
  · exact (ofToken_classifies _).2.2.1 hsign
  · exact (ofToken_classifies _).2.2.2.1 '٣' hscript (by decide) (by decide) (by decide)

end IndexSpec
end Splice
