import Splice.Cast
import Splice.Proofs.Numerals

/-!
# Integer casts across widths

The integer types differ in their bounds and in whether a minus sign is allowed, and in nothing
else. What a value is cast to is decided by the 64 bit signed type wherever that has room, and every
other type takes its part of it. Main statement: the casts to all integer types in terms of the
notation of the value, and the error of every value that cannot be cast.
-/

namespace Splice
namespace Value

theorem cast_integer_eq_ok_iff {value : Value} {type : IntType} {n : Int} :
    value.cast (.integer type) = .ok n ↔ value.toInt? type = some n := by
  rw [cast]
  cases value.toInt? type with
  | none => exact iff_of_false (by rintro ⟨⟩) (by simp)
  | some m => exact ⟨fun h => congrArg some (Except.ok.inj h), fun h => congrArg _ (Option.some.inj h)⟩

/-- A value is cast, or else is in the error together with the type. -/
theorem cast_integer_eq_ok_or_error (value : Value) (type : IntType) :
    (∃ n, value.cast (.integer type) = .ok n) ∨
      value.cast (.integer type) = .error ⟨value.text, type.name⟩ := by
  rw [cast]
  cases value.toInt? type with
  | none => exact Or.inr rfl
  | some n => exact Or.inl ⟨n, rfl⟩

/-- The integer that a value holds or is the numeral of, where the type has room for it. -/
theorem toInt?_eq_some_iff {value : Value} {type : IntType} {n : Int} :
    value.toInt? type = some n ↔
      ((∃ k : Int64, value = .int k ∧ k.toInt = n) ∨
        ∃ text sign, value = .string text ∧ type.Admits sign ∧ Numeral.Denotes text sign n) ∧
      type.lower ≤ n ∧ n < type.upper := by
  cases value with
  | int k =>
    rw [toInt?, IntType.fit_eq_some_iff]
    constructor
    · rintro ⟨rfl, hbounds⟩
      exact ⟨Or.inl ⟨k, rfl, rfl⟩, hbounds⟩
    · rintro ⟨⟨_, ⟨⟩, rfl⟩ | ⟨_, _, ⟨⟩, _⟩, hbounds⟩
      exact ⟨rfl, hbounds⟩
  | string text =>
    rw [toInt?, IntType.read_eq_some_iff]
    constructor
    · rintro ⟨⟨sign, hsign, hdenotes⟩, hbounds⟩
      exact ⟨Or.inr ⟨text, sign, rfl, hsign, hdenotes⟩, hbounds⟩
    · rintro ⟨⟨_, ⟨⟩, _⟩ | ⟨_, sign, ⟨⟩, hsign, hdenotes⟩, hbounds⟩
      exact ⟨⟨sign, hsign, hdenotes⟩, hbounds⟩
  | _ => simp [toInt?]

/-- A type within reach of the signed type of 64 bits takes its part of what that takes. -/
theorem toInt?_eq_some_iff_int64 {value : Value} {type : IntType} {n : Int}
    (hn : n < type.upper → n < IntType.int64.upper) :
    value.toInt? type = some n ↔
      value.toInt? .int64 = some n ∧ (type.lower ≤ n ∧ n < type.upper) ∧
        (type.isSigned = false → ¬ ∃ rest, value = .string ("-" ++ rest)) := by
  have hlower : IntType.int64.lower ≤ type.lower := by cases type <;> decide
  rw [toInt?_eq_some_iff, toInt?_eq_some_iff]
  constructor
  · rintro ⟨hvalue, hbounds⟩
    have hwide : IntType.int64.lower ≤ n ∧ n < IntType.int64.upper :=
      ⟨hlower.trans hbounds.1, hn hbounds.2⟩
    rcases hvalue with ⟨k, rfl, rfl⟩ | ⟨text, sign, rfl, hsign, hdenotes⟩
    · exact ⟨⟨Or.inl ⟨k, rfl, rfl⟩, hwide⟩, hbounds, fun _ => by rintro ⟨_, ⟨⟩⟩⟩
    · refine ⟨⟨Or.inr ⟨text, sign, rfl, Or.inl rfl, hdenotes⟩, hwide⟩, hbounds, ?_⟩
      rintro hunsigned ⟨rest, hrest⟩
      rcases hsign with hsigned | hplain
      · rw [hunsigned] at hsigned
        cases hsigned
      · exact hplain (hdenotes.sign_eq_minus_iff.mpr ⟨rest, string.inj hrest⟩)
  · rintro ⟨⟨⟨k, rfl, rfl⟩ | ⟨text, sign, rfl, -, hdenotes⟩, -⟩, hbounds, hminus⟩
    · exact ⟨Or.inl ⟨k, rfl, rfl⟩, hbounds⟩
    · refine ⟨Or.inr ⟨text, sign, rfl, ?_, hdenotes⟩, hbounds⟩
      cases hsigned : type.isSigned with
      | true => exact Or.inl hsigned
      | false =>
        refine Or.inr fun h => hminus hsigned ?_
        obtain ⟨rest, rfl⟩ := hdenotes.sign_eq_minus_iff.mp h
        exact ⟨rest, rfl⟩

/-- No value but a string holds an integer above the signed bounds, and no signed type takes it. -/
theorem toInt?_eq_some_iff_of_le {value : Value} {type : IntType} {n : Int}
    (hsigned : type.isSigned = false) (hn : IntType.int64.upper ≤ n) :
    value.toInt? type = some n ↔
      (∃ text sign, value = .string text ∧ sign ≠ .minus ∧ Numeral.Denotes text sign n) ∧
        n < type.upper := by
  have hzero : type.lower ≤ n := by
    rw [(IntType.bounds_of_isSigned_eq_false hsigned).1]
    exact le_trans (by decide) hn
  rw [toInt?_eq_some_iff]
  constructor
  · rintro ⟨⟨k, rfl, rfl⟩ | ⟨text, sign, rfl, hsign, hdenotes⟩, -, hupper⟩
    · exact absurd k.toInt_lt hn.not_gt
    · refine ⟨⟨text, sign, rfl, hsign.resolve_left ?_, hdenotes⟩, hupper⟩
      rw [hsigned]
      exact Bool.false_ne_true
  · rintro ⟨⟨text, sign, rfl, hsign, hdenotes⟩, hupper⟩
    exact ⟨Or.inr ⟨text, sign, rfl, Or.inr hsign, hdenotes⟩, hzero, hupper⟩

end Value

/-- All casts of a value to integers follow from its notation. The signed type of 64 bits takes an
integer, and a string that is a numeral with either sign or none, up to its bounds. The signed type
of 32 bits takes what that takes within its own bounds. An unsigned type does so too, except what is
written with a minus sign; above the signed bounds only those of 64 bits have room, and only strings
hold a number. Every other cast fails, with the text of the value and the name of the type. -/
theorem cast_integer_across_widths (value : Value) (n : Int) :
    (value.cast (.integer .int64) = .ok n ↔
      ((∃ k : Int64, value = .int k ∧ k.toInt = n) ∨
        ∃ text sign, value = .string text ∧ Numeral.Denotes text sign n ∧
          -2 ^ 63 ≤ n ∧ n < 2 ^ 63)) ∧
    (value.cast (.integer .int32) = .ok n ↔
      value.cast (.integer .int64) = .ok n ∧ -2 ^ 31 ≤ n ∧ n < 2 ^ 31) ∧
    (∀ type : IntType, type.isSigned = false → n < 2 ^ 63 →
      (value.cast (.integer type) = .ok n ↔
        value.cast (.integer .int64) = .ok n ∧ 0 ≤ n ∧ n < 2 ^ type.bits ∧
          ¬ ∃ rest, value = .string ("-" ++ rest))) ∧
    (∀ type : IntType, type.isSigned = false → 2 ^ 63 ≤ n →
      (value.cast (.integer type) = .ok n ↔
        type.bits = 64 ∧ ∃ text sign, value = .string text ∧ sign ≠ .minus ∧
          Numeral.Denotes text sign n ∧ n < 2 ^ 64)) ∧
    ∀ type : IntType, (∃ m, value.cast (.integer type) = .ok m) ∨
      value.cast (.integer type) = .error ⟨value.text, type.name⟩ := by
  simp only [Value.cast_integer_eq_ok_iff]
  refine ⟨?_, ?_, ?_, ?_, value.cast_integer_eq_ok_or_error⟩
  · rw [Value.toInt?_eq_some_iff]
    constructor
    · rintro ⟨hint | ⟨text, sign, rfl, -, hdenotes⟩, hbounds⟩
      · exact Or.inl hint
      · exact Or.inr ⟨text, sign, rfl, hdenotes, hbounds⟩
    · rintro (⟨k, rfl, rfl⟩ | ⟨text, sign, rfl, hdenotes, hbounds⟩)
      · exact ⟨Or.inl ⟨k, rfl, rfl⟩, k.le_toInt, k.toInt_lt⟩
      · exact ⟨Or.inr ⟨text, sign, rfl, Or.inl rfl, hdenotes⟩, hbounds⟩
  · rw [Value.toInt?_eq_some_iff_int64 fun h => h.trans (by decide)]
    simp [IntType.isSigned, IntType.lower, IntType.upper]
  · intro type hsigned hn
    obtain ⟨hlower, hupper⟩ := IntType.bounds_of_isSigned_eq_false hsigned
    rw [Value.toInt?_eq_some_iff_int64 fun _ => hn, hlower, hupper, and_assoc]
    simp [hsigned]
  · intro type hsigned hn
    have hbits : n < type.upper ↔ type.bits = 64 ∧ n < 2 ^ 64 := by
      cases type <;> simp_all [IntType.isSigned, IntType.upper, IntType.bits]
      omega
    rw [Value.toInt?_eq_some_iff_of_le hsigned hn, hbits]
    constructor
    · rintro ⟨⟨text, sign, hvalue, hsign, hdenotes⟩, htype, hupper⟩
      exact ⟨htype, text, sign, hvalue, hsign, hdenotes, hupper⟩
    · rintro ⟨htype, text, sign, hvalue, hsign, hdenotes, hupper⟩
      exact ⟨⟨text, sign, hvalue, hsign, hdenotes⟩, htype, hupper⟩

theorem cast_integer_across_widths_signs :
    let zero : Value := .string "-0"
    let large : Value := .string "+09223372036854775808"
    zero.cast (.integer .int64) = .ok (0 : Int) ∧
      IntType.word.isSigned = false ∧ (0 : Int) < 2 ^ 63 ∧
      zero.cast (.integer .word) ≠ .ok (0 : Int) ∧
      zero.cast (.integer .word) = .error ⟨"-0", "usize"⟩ ∧
      (2 : Int) ^ 63 ≤ 9223372036854775808 ∧
      large.cast (.integer .word) = .ok (9223372036854775808 : Int) ∧
      large.cast (.integer .int64) = .error ⟨"+09223372036854775808", "i64"⟩ := by
  intro zero large
  obtain ⟨hwide, -, hbelow, -, -⟩ := cast_integer_across_widths zero 0
  obtain ⟨-, -, -, habove, -⟩ := cast_integer_across_widths large 9223372036854775808
  have hzero : Numeral.Denotes "-0" .minus 0 :=
    ⟨['0'], 0, rfl, ⟨by simp, by simp [Char.isDigit], by cbv⟩, rfl⟩
  have hlarge : Numeral.Denotes "+09223372036854775808" .plus 9223372036854775808 :=
    ⟨"09223372036854775808".toList, 9223372036854775808, rfl,
      ⟨by simp, by simp [Char.isDigit], by cbv⟩, rfl⟩
  have hsigned : IntType.word.isSigned = false := rfl
  refine ⟨hwide.mpr (Or.inr ⟨"-0", .minus, rfl, hzero, by decide, by decide⟩), hsigned, by decide,
    ?_, by cbv, by decide, ?_, by cbv⟩
  · intro hcast
    exact ((hbelow .word hsigned (by decide)).mp hcast).2.2.2 ⟨"0", rfl⟩
  · exact (habove .word hsigned (by decide)).mpr
      ⟨rfl, _, .plus, rfl, by decide, hlarge, by decide⟩

end Splice
