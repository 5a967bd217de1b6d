import Mathlib
import Splice.Numeral

/-!
# What numerals denote

The notation of integers apart from any reader of it: a sign or none, and then digits, of which each
counts ten times as much as the same digit one place behind. Main statements: the readers accept
exactly such texts and give the number that the text denotes, and every integer type reads those of
its own signs within its bounds.
-/

namespace Splice
namespace Numeral

/-- What can stand in front of the digits. -/
inductive Sign where
  | absent
  | plus
  | minus
  deriving DecidableEq

namespace Sign

def chars : Sign → List Char
  | absent => []
  | plus => ['+']
  | minus => ['-']

def apply : Sign → Nat → Int
  | absent, n | plus, n => n
  | minus, n => -n

end Sign

def digitValue (c : Char) : Nat := c.toNat - '0'.toNat

/-- One or more digits with their value at base ten, the last digit being that of the ones. -/
structure Digits (cs : List Char) (n : Nat) : Prop where
  ne_nil : cs ≠ []
  isDigit : ∀ c ∈ cs, c.isDigit
  value : Nat.ofDigits 10 (cs.reverse.map digitValue) = n

/-- The text is the sign with digits after it, and denotes the integer. -/
def Denotes (text : String) (sign : Sign) (n : Int) : Prop :=
  ∃ cs m, text.toList = sign.chars ++ cs ∧ Digits cs m ∧ sign.apply m = n

theorem ofDigitChars_eq_ofDigits (cs : List Char) :
    Nat.ofDigitChars 10 cs 0 = Nat.ofDigits 10 (cs.reverse.map digitValue) := by
  induction cs using List.reverseRecOn with
  | nil => rfl
  | append_singleton cs c ih =>
    rw [Nat.ofDigitChars_append, ih, List.reverse_concat, List.map_cons, Nat.ofDigits_cons,
      Nat.ofDigitChars_cons, Nat.ofDigitChars_nil, digitValue, Nat.add_comm]

theorem natural?_eq_some_iff_digits {cs : List Char} {n : Nat} :
    natural? cs = some n ↔ Digits cs n := by
  rw [natural?_eq_some_iff, ofDigitChars_eq_ofDigits]
  constructor
  · rintro ⟨⟨hne, hdigit⟩, hvalue⟩
    exact ⟨hne, hdigit, hvalue⟩
  · rintro ⟨hne, hdigit, hvalue⟩
    exact ⟨⟨hne, hdigit⟩, hvalue⟩

/-- Digits do not start with a sign. -/
theorem Digits.ne_cons {cs : List Char} {n : Nat} (h : Digits cs n) {c : Char}
    (hc : c.isDigit = false) (rest : List Char) : cs ≠ c :: rest := by
  rintro rfl
  have hdigit := h.isDigit c List.mem_cons_self
  rw [hc] at hdigit
  cases hdigit

theorem unsigned?_eq_some_iff {text : String} {n : Int} :
    unsigned? text.toList = some n ↔ ∃ sign, sign ≠ .minus ∧ Denotes text sign n := by
  constructor
  · intro h
    unfold unsigned? at h
    split at h
    · rename_i cs hcs
      obtain ⟨m, hm, rfl⟩ := Option.map_eq_some_iff.mp h
      exact ⟨.plus, by simp, cs, m, hcs, natural?_eq_some_iff_digits.mp hm, rfl⟩
    · obtain ⟨m, hm, rfl⟩ := Option.map_eq_some_iff.mp h
      exact ⟨.absent, by simp, text.toList, m, rfl, natural?_eq_some_iff_digits.mp hm, rfl⟩
  · rintro ⟨sign, hsign, cs, m, htext, hdigits, rfl⟩
    have hm := natural?_eq_some_iff_digits.mpr hdigits
    rw [htext]
    cases sign with
    | absent => exact unsigned?_of_natural? hm
    | plus => simp [Sign.chars, unsigned?, hm, Sign.apply]
    | minus => exact absurd rfl hsign

theorem signed?_eq_some_iff {text : String} {n : Int} :
    signed? text.toList = some n ↔ ∃ sign, Denotes text sign n := by
  unfold signed?
  split
  · rename_i cs hcs
    constructor
    · intro h
      obtain ⟨m, hm, rfl⟩ := Option.map_eq_some_iff.mp h
      exact ⟨.minus, cs, m, hcs, natural?_eq_some_iff_digits.mp hm, rfl⟩
    · rintro ⟨sign, ds, m, htext, hdigits, rfl⟩
      rw [hcs] at htext
      cases sign with
      | absent => exact absurd htext.symm (hdigits.ne_cons (by decide) cs)
      | plus => simp [Sign.chars] at htext
      | minus =>
        obtain rfl : cs = ds := by simpa [Sign.chars] using htext
        rw [natural?_eq_some_iff_digits.mpr hdigits]
        rfl
  · rename_i hcs
    rw [unsigned?_eq_some_iff]
    constructor
    · rintro ⟨sign, -, h⟩
      exact ⟨sign, h⟩
    · rintro ⟨sign, h⟩
      refine ⟨sign, ?_, h⟩
      rintro rfl
      obtain ⟨ds, m, htext, -⟩ := h
      exact hcs ds htext

/-- The sign of a numeral is seen in its first character. -/
theorem Denotes.sign_eq_minus_iff {text : String} {sign : Sign} {n : Int}
    (h : Denotes text sign n) : sign = .minus ↔ ∃ rest, text = "-" ++ rest := by
  obtain ⟨cs, m, htext, hdigits, -⟩ := h
  constructor
  · rintro rfl
    refine ⟨String.ofList cs, String.toList_inj.mp ?_⟩
    simpa [Sign.chars] using htext
  · rintro ⟨rest, rfl⟩
    cases sign with
    | absent =>
      have hcs : cs = '-' :: rest.toList := by simpa [Sign.chars] using htext.symm
      exact absurd hcs (hdigits.ne_cons (by decide) rest.toList)
    | plus => simp [Sign.chars] at htext
    | minus => rfl

end Numeral

namespace IntType

/-- The size of the type in bits. -/
def bits : IntType → Nat
  | int64 | uint64 | word => 64
  | int32 | uint32 => 32

/-- A minus sign takes a signed type. -/
def Admits (type : IntType) (sign : Numeral.Sign) : Prop :=
  type.isSigned = true ∨ sign ≠ .minus

theorem bounds_of_isSigned_eq_false {type : IntType} (h : type.isSigned = false) :
    type.lower = 0 ∧ type.upper = 2 ^ type.bits := by
  cases type <;> simp_all [isSigned, lower, upper, bits]

/-- A type reads the numerals of its signs whose number it has room for. -/
theorem read_eq_some_iff {type : IntType} {text : String} {n : Int} :
    type.read text = some n ↔
      (∃ sign, type.Admits sign ∧ Numeral.Denotes text sign n) ∧ type.lower ≤ n ∧ n < type.upper := by
  have hnumeral : (if type.isSigned then Numeral.signed? text.toList
      else Numeral.unsigned? text.toList) = some n ↔
        ∃ sign, type.Admits sign ∧ Numeral.Denotes text sign n := by
    cases hsigned : type.isSigned with
    | true => simpa [Admits, hsigned] using Numeral.signed?_eq_some_iff
    | false => simpa [Admits, hsigned] using Numeral.unsigned?_eq_some_iff
  rw [read, Option.bind_eq_some_iff, ← hnumeral]
  constructor
  · rintro ⟨m, hm, hfit⟩
    obtain ⟨rfl, hbounds⟩ := fit_eq_some_iff.mp hfit
    exact ⟨hm, hbounds⟩
  · rintro ⟨hm, hbounds⟩
    exact ⟨n, hm, fit_eq_some_iff.mpr ⟨rfl, hbounds⟩⟩

theorem toInt_ofInt_of_read {text : String} {n : Int} (h : int64.read text = some n) :
    (Int64.ofInt n).toInt = n := by
  obtain ⟨-, hlower, hupper⟩ := read_eq_some_iff.mp h
  exact Int64.toInt_ofInt_of_le hlower hupper

end IntType
end Splice
