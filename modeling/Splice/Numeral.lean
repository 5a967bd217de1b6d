/-!
# Decimal numerals

A numeral is a run of ASCII digits, read at base ten, with any number of leading zeros. An
unsigned numeral may have a plus sign in front, a signed one either sign. The integer types a
value can be read as differ in their bounds and in whether a minus sign is allowed.
-/

namespace Splice
namespace Numeral

def natural? (cs : List Char) : Option Nat :=
  if cs ≠ [] ∧ cs.all Char.isDigit then some (Nat.ofDigitChars 10 cs 0) else none

def unsigned? : List Char → Option Int
  | '+' :: cs => (natural? cs).map Int.ofNat
  | cs => (natural? cs).map Int.ofNat

def signed? : List Char → Option Int
  | '-' :: cs => (natural? cs).map fun n => -(Int.ofNat n)
  | cs => unsigned? cs

theorem natural?_eq_some_iff {cs : List Char} {n : Nat} :
    natural? cs = some n ↔
      (cs ≠ [] ∧ ∀ c ∈ cs, c.isDigit) ∧ Nat.ofDigitChars 10 cs 0 = n := by
  simp [natural?]

@[simp] theorem natural?_toDigits (n : Nat) : natural? (Nat.toDigits 10 n) = some n :=
  natural?_eq_some_iff.2 ⟨⟨Nat.toDigits_ne_nil, fun _ hc =>
    Nat.isDigit_of_mem_toDigits (by decide) (by decide) hc⟩, Nat.ofDigitChars_ten_toDigits⟩

theorem unsigned?_of_natural? {cs : List Char} {n : Nat} (h : natural? cs = some n) :
    unsigned? cs = some (n : Int) := by
  unfold unsigned?
  split
  · simp [natural?] at h
  · simp [h]

theorem signed?_of_natural? {cs : List Char} {n : Nat} (h : natural? cs = some n) :
    signed? cs = some (n : Int) := by
  unfold signed?
  split
  · simp [natural?] at h
  · exact unsigned?_of_natural? h

@[simp] theorem signed?_repr (n : Int) : signed? n.repr.toList = some n := by
  rw [Int.repr_eq_if]
  split
  · rename_i h
    rw [Nat.toList_repr, signed?_of_natural? (natural?_toDigits _)]
    simp [Int.toNat_of_nonneg h]
  · have h : 0 ≤ -n := by omega
    simp [signed?, Int.toNat_of_nonneg h]

end Numeral

/-- The integer types a value can be cast to; `word` is an unsigned machine word of 64 bits. -/
inductive IntType where
  | int64
  | int32
  | uint32
  | uint64
  | word
  deriving DecidableEq

namespace IntType

def name : IntType → String
  | int64 => "i64"
  | int32 => "i32"
  | uint32 => "u32"
  | uint64 => "u64"
  | word => "usize"

def isSigned : IntType → Bool
  | int64 | int32 => true
  | uint32 | uint64 | word => false

/-- The least value of the type. -/
def lower : IntType → Int
  | int64 => -0x8000000000000000
  | int32 => -0x80000000
  | uint32 | uint64 | word => 0

/-- The first value above the type. -/
def upper : IntType → Int
  | int64 => 0x8000000000000000
  | int32 => 0x80000000
  | uint32 => 0x100000000
  | uint64 | word => 0x10000000000000000

def fit (t : IntType) (n : Int) : Option Int :=
  if t.lower ≤ n ∧ n < t.upper then some n else none

theorem fit_eq_some_iff {t : IntType} {n m : Int} :
    t.fit n = some m ↔ n = m ∧ t.lower ≤ n ∧ n < t.upper := by
  grind [fit]

/-- Reads a numeral of the type. A minus sign is refused by the unsigned types even before zero. -/
def read (t : IntType) (text : String) : Option Int :=
  (if t.isSigned then Numeral.signed? text.toList else Numeral.unsigned? text.toList).bind t.fit

theorem fit_int64_toInt (n : Int64) : int64.fit n.toInt = some n.toInt :=
  fit_eq_some_iff.2 ⟨rfl, n.le_toInt, n.toInt_lt⟩

@[simp] theorem read_int64_repr (n : Int64) : int64.read n.toInt.repr = some n.toInt := by
  simp [read, isSigned, fit_int64_toInt]

end IntType
end Splice
