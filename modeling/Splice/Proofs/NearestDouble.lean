import Mathlib
import Splice.Binary64

/-!
# Rounding to doubles

A finite double stands for a rational number, and a quotient becomes the double whose number is
nearest to it. Rounding puts the quotient on the grid of the doubles of its size, on which the
nearest point is the nearest integer; any other double either lies on the same grid or is further
away than the lowest point of it. Main statement: where the result is finite no finite double is
nearer, and of two at the same distance it is the even one.
-/

namespace Splice
namespace Binary64

/-- The number that a finite double stands for. -/
def toRat (x : Binary64) : ℚ :=
  (if x.isNegative then -1 else 1) * (x.significand * 2 ^ x.power)

/-- No finite double is nearer to the number, and none is as near unless this one is even. -/
structure NearestTo (q : ℚ) (x : Binary64) : Prop where
  isFinite : x.isFinite
  le : ∀ y : Binary64, y.isFinite → |q - x.toRat| ≤ |q - y.toRat|
  even_of_tie : ∀ y : Binary64, y.isFinite → y.toRat ≠ x.toRat →
    |q - y.toRat| = |q - x.toRat| → x.significand % 2 = 0

/-! ## Fields of a double -/

theorem significand_lt (x : Binary64) : x.significand < 2 ^ 53 := by
  have hfraction : x.fraction < exponentUnit := Nat.mod_lt _ (by decide)
  unfold significand
  unfold exponentUnit at hfraction ⊢
  split <;> omega

theorem le_power (x : Binary64) : -1074 ≤ x.power := by
  unfold power
  split <;> omega

section Magnitude

variable (negative : Bool) {m : Nat}

theorem toNat_bits_ofMagnitude (h : m < signUnit) :
    (ofMagnitude negative m).bits.toNat = (if negative then signUnit else 0) + m := by
  rw [ofMagnitude, UInt64.toNat_ofNat']
  apply Nat.mod_eq_of_lt
  unfold signUnit at *
  split <;> omega

theorem isNegative_ofMagnitude (h : m < signUnit) :
    (ofMagnitude negative m).isNegative = negative := by
  rw [isNegative, toNat_bits_ofMagnitude negative h]
  cases negative <;> simp [h]

theorem exponent_ofMagnitude (h : m < signUnit) :
    (ofMagnitude negative m).exponent = m / exponentUnit := by
  rw [exponent, toNat_bits_ofMagnitude negative h]
  unfold signUnit exponentUnit at *
  cases negative <;> simp <;> omega

theorem fraction_ofMagnitude (h : m < signUnit) :
    (ofMagnitude negative m).fraction = m % exponentUnit := by
  rw [fraction, toNat_bits_ofMagnitude negative h]
  unfold signUnit exponentUnit at *
  split <;> omega

/-- So many units from the grid of an exponent: they are the significand, unless they reach the next
power of two, whose double has the grid above. -/
theorem significand_ofMagnitude {k units : Nat} (hunits : units ≤ 2 ^ 53)
    (hgrid : 2 ^ 52 ≤ units ∨ k = 0) (h : k * exponentUnit + units < 2047 * exponentUnit) :
    let x := ofMagnitude negative (k * exponentUnit + units)
    x.significand = units ∧ x.power = (k : ℤ) - 1074 ∨
      units = 2 ^ 53 ∧ x.significand = 2 ^ 52 ∧ x.power = (k : ℤ) - 1073 := by
  have hbound : k * exponentUnit + units < signUnit := h.trans (by decide)
  dsimp only
  rw [significand, power, exponent_ofMagnitude negative hbound,
    fraction_ofMagnitude negative hbound]
  unfold exponentUnit at *
  by_cases hzero : (k * 0x10000000000000 + units) / 0x10000000000000 = 0
  · rw [if_pos hzero, if_pos hzero]
    omega
  · rw [if_neg hzero, if_neg hzero]
    omega

theorem isFinite_ofMagnitude_iff (h : m < signUnit) :
    (ofMagnitude negative m).isFinite = true ↔ m / exponentUnit ≠ 2047 := by
  rw [isFinite, exponent_ofMagnitude negative h, bne_iff_ne]

theorem toRat_ofMagnitude {k units : Nat} (hunits : units ≤ 2 ^ 53)
    (hgrid : 2 ^ 52 ≤ units ∨ k = 0) (h : k * exponentUnit + units < 2047 * exponentUnit) :
    (ofMagnitude negative (k * exponentUnit + units)).toRat =
      (if negative then -1 else 1) * (units * 2 ^ ((k : ℤ) - 1074)) := by
  have hbound : k * exponentUnit + units < signUnit := h.trans (by decide)
  rw [toRat, isNegative_ofMagnitude negative hbound]
  congr 1
  rcases significand_ofMagnitude negative hunits hgrid h with ⟨hs, hp⟩ | ⟨hu, hs, hp⟩
  · rw [hs, hp]
  · have hpower : (k : ℤ) - 1073 = (k : ℤ) - 1074 + 1 := by ring
    rw [hs, hp, hu, hpower, zpow_add_one₀ (by norm_num)]
    push_cast
    ring

end Magnitude

/-! ## Points of a grid -/

/-- The numbers of doubles, whichever sign is put in front. -/
theorem exists_toRat_eq (negative : Bool) (x : Binary64) :
    ∃ m e : ℤ, |m| < 2 ^ 53 ∧ -1074 ≤ e ∧
      x.toRat = (if negative then -1 else 1) * (m * 2 ^ e) := by
  have hlt : |(x.significand : ℤ)| < 2 ^ 53 := by
    rw [abs_of_nonneg (Int.natCast_nonneg _)]
    exact_mod_cast x.significand_lt
  by_cases hsign : x.isNegative = negative
  · refine ⟨x.significand, x.power, hlt, x.le_power, ?_⟩
    rw [toRat, hsign]
    push_cast
    rfl
  · refine ⟨-x.significand, x.power, (abs_neg _).trans_lt hlt, x.le_power, ?_⟩
    rw [toRat, Bool.eq_not.mpr hsign]
    cases negative <;> simp

end Binary64

/-! ## Rounding to integers -/

theorem roundHalfEven_of_lt {num den : Nat} (h : 2 * (num % den) < den) :
    roundHalfEven num den = num / den := by
  simp [roundHalfEven, h]

theorem roundHalfEven_of_gt {num den : Nat} (h : den < 2 * (num % den)) :
    roundHalfEven num den = num / den + 1 := by
  unfold roundHalfEven
  dsimp only
  rw [if_neg (by omega)]

theorem roundHalfEven_of_eq {num den : Nat} (h : 2 * (num % den) = den) :
    roundHalfEven num den % 2 = 0 ∧
      (roundHalfEven num den = num / den ∨ roundHalfEven num den = num / den + 1) := by
  unfold roundHalfEven
  dsimp only
  split <;> omega

theorem div_eq_quotient_add_rest (num : Nat) {den : Nat} (hden : 0 < den) :
    (num : ℚ) / den = (num / den : ℕ) + ((num % den : ℕ) : ℚ) / den := by
  have hpos : (0 : ℚ) < den := by exact_mod_cast hden
  have h : (num : ℚ) = den * (num / den : ℕ) + (num % den : ℕ) := by
    exact_mod_cast (Nat.div_add_mod num den).symm
  rw [h]
  field_simp

/-- Rounding goes by half a unit at most, and by exactly that only to an even integer. -/
theorem roundHalfEven_within_half (num : Nat) {den : Nat} (hden : 0 < den) :
    |(num : ℚ) / den - roundHalfEven num den| ≤ 1 / 2 ∧
      (|(num : ℚ) / den - roundHalfEven num den| = 1 / 2 → roundHalfEven num den % 2 = 0) := by
  have hpos : (0 : ℚ) < den := by exact_mod_cast hden
  have hrest : ((num % den : ℕ) : ℚ) / den * den = (num % den : ℕ) := div_mul_cancel₀ _ hpos.ne'
  have hnonneg : (0 : ℚ) ≤ ((num % den : ℕ) : ℚ) / den := by positivity
  have hlt : ((num % den : ℕ) : ℚ) / den < 1 :=
    (div_lt_one hpos).mpr (by exact_mod_cast Nat.mod_lt num hden)
  rw [div_eq_quotient_add_rest num hden]
  generalize ((num % den : ℕ) : ℚ) / den = rest at *
  rcases lt_trichotomy (2 * (num % den)) den with h | h | h
  · have hhalf : rest < 1 / 2 := by
      have : (2 * (num % den : ℕ) : ℚ) < den := by exact_mod_cast h
      nlinarith
    rw [roundHalfEven_of_lt h, add_sub_cancel_left, abs_of_nonneg hnonneg]
    exact ⟨hhalf.le, fun heq => absurd heq hhalf.ne⟩
  · have hhalf : rest = 1 / 2 := by
      have : (2 * (num % den : ℕ) : ℚ) = den := by exact_mod_cast h
      nlinarith
    obtain ⟨heven, hround | hround⟩ := roundHalfEven_of_eq h
    · refine ⟨?_, fun _ => heven⟩
      rw [hround, add_sub_cancel_left, hhalf]
      norm_num
    · refine ⟨?_, fun _ => heven⟩
      rw [hround, hhalf]
      push_cast
      rw [add_sub_add_left_eq_sub]
      norm_num
  · have hhalf : 1 / 2 < rest := by
      have : (den : ℚ) < (2 * (num % den : ℕ) : ℚ) := by exact_mod_cast h
      nlinarith
    have habs : |rest - 1| < 1 / 2 := by
      rw [abs_of_neg (by linarith)]
      linarith
    rw [roundHalfEven_of_gt h]
    push_cast
    rw [add_sub_add_left_eq_sub]
    exact ⟨habs.le, fun heq => absurd heq habs.ne⟩

/-! ## Powers of two -/

theorem two_zpow_pos (e : ℤ) : (0 : ℚ) < 2 ^ e := zpow_pos (by norm_num) e

/-- A quotient in units of a power of two, which is put into the numerator or the denominator. -/
theorem timesTwo_div_timesTwo (num den : Nat) (e : ℤ) :
    (timesTwo num (-e) : ℚ) / timesTwo den e = (num : ℚ) / den / 2 ^ e := by
  unfold timesTwo
  obtain ⟨n, rfl | rfl⟩ := e.eq_nat_or_neg
  · simp [Nat.shiftLeft_eq, div_div]
  · simp [Nat.shiftLeft_eq, div_mul_eq_mul_div]

theorem timesTwo_pos {n : Nat} (hn : 0 < n) (e : ℤ) : 0 < timesTwo n e := by
  rw [timesTwo, Nat.shiftLeft_eq]
  positivity

/-- The difference of two logarithms, each rounded down, is off by less than one. -/
theorem div_within_log2 {num den : Nat} (hnum : 0 < num) (hden : 0 < den) :
    (2 : ℚ) ^ ((num.log2 : ℤ) - den.log2 - 1) ≤ num / den ∧
      (num : ℚ) / den < 2 ^ ((num.log2 : ℤ) - den.log2 + 1) := by
  have hpos : (0 : ℚ) < den := by exact_mod_cast hden
  have hnumlow : (2 : ℚ) ^ (num.log2 : ℤ) ≤ num := by
    exact_mod_cast Nat.log2_self_le hnum.ne'
  have hnumhigh : (num : ℚ) < 2 ^ (num.log2 + 1 : ℤ) := by
    exact_mod_cast Nat.lt_log2_self (n := num)
  have hdenlow : (2 : ℚ) ^ (den.log2 : ℤ) ≤ den := by
    exact_mod_cast Nat.log2_self_le hden.ne'
  have hdenhigh : (den : ℚ) < 2 ^ (den.log2 + 1 : ℤ) := by
    exact_mod_cast Nat.lt_log2_self (n := den)
  constructor
  · rw [le_div_iff₀ hpos]
    calc (2 : ℚ) ^ ((num.log2 : ℤ) - den.log2 - 1) * den
        ≤ 2 ^ ((num.log2 : ℤ) - den.log2 - 1) * 2 ^ (den.log2 + 1 : ℤ) :=
          mul_le_mul_of_nonneg_left hdenhigh.le (two_zpow_pos _).le
      _ = 2 ^ (num.log2 : ℤ) := by
          rw [← zpow_add₀ (by norm_num)]
          congr 1
          ring
      _ ≤ num := hnumlow
  · rw [div_lt_iff₀ hpos]
    calc (num : ℚ) < 2 ^ (num.log2 + 1 : ℤ) := hnumhigh
      _ = 2 ^ ((num.log2 : ℤ) - den.log2 + 1) * 2 ^ (den.log2 : ℤ) := by
          rw [← zpow_add₀ (by norm_num)]
          congr 1
          ring
      _ ≤ 2 ^ ((num.log2 : ℤ) - den.log2 + 1) * den :=
          mul_le_mul_of_nonneg_left hdenlow (two_zpow_pos _).le

/-- The logarithm to base two of a quotient, rounded down. -/
theorem floorLog2_spec {num den : Nat} (hnum : 0 < num) (hden : 0 < den) :
    (2 : ℚ) ^ floorLog2 num den ≤ num / den ∧ (num : ℚ) / den < 2 ^ (floorLog2 num den + 1) := by
  obtain ⟨hlow, hhigh⟩ := div_within_log2 hnum hden
  rw [floorLog2]
  generalize (num.log2 : ℤ) - den.log2 = guess at *
  have hbelow : timesTwo num (-guess) < timesTwo den guess ↔ (num : ℚ) / den < 2 ^ guess := by
    have hden' : (0 : ℚ) < timesTwo den guess := by exact_mod_cast timesTwo_pos hden guess
    rw [← Nat.cast_lt (α := ℚ), ← div_lt_one hden', timesTwo_div_timesTwo,
      div_lt_one (two_zpow_pos guess)]
  split
  · rename_i h
    rw [sub_add_cancel]
    exact ⟨hlow, hbelow.mp h⟩
  · rename_i h
    exact ⟨not_lt.mp (mt hbelow.mpr h), hhigh⟩

theorem two_pow_le_div {q : ℚ} {unit : ℤ} (h : (2 : ℚ) ^ (unit + 52) ≤ q) :
    (2 : ℚ) ^ 52 ≤ q / 2 ^ unit := by
  rw [le_div_iff₀ (two_zpow_pos unit)]
  calc (2 : ℚ) ^ 52 * 2 ^ unit = 2 ^ (unit + 52) := by
        rw [zpow_add₀ (by norm_num), mul_comm]
        norm_num
    _ ≤ q := h

/-- An integer at half a unit or less is nearest, and at less than that it is alone. -/
theorem nearest_of_within_half {r : ℚ} {n : Nat} (h : |r - n| ≤ 1 / 2) {k : ℤ} (hk : k ≠ n) :
    |r - n| ≤ |r - k| ∧ (|r - k| = |r - n| → |r - n| = 1 / 2) := by
  have hone : (1 : ℚ) ≤ |(k : ℚ) - n| := by
    exact_mod_cast Int.one_le_abs (sub_ne_zero.mpr hk)
  have htriangle : |(k : ℚ) - n| ≤ |r - k| + |r - n| := by
    rw [abs_sub_comm r k]
    simpa using abs_add_le ((k : ℚ) - r) (r - n)
  constructor
  · linarith
  · intro heq
    linarith

namespace Binary64

/-- A double that is off a grid is below the doubles whose significands are put on it. -/
theorem lt_of_lower_grid {m e unit : ℤ} (hm : |m| < 2 ^ 53) (h : e < unit) :
    (m : ℚ) * 2 ^ (e - unit) < 2 ^ 52 := by
  have hm' : |(m : ℚ)| < 2 ^ 53 := by exact_mod_cast hm
  have hhalfunit : (2 : ℚ) ^ (e - unit) ≤ 2 ^ (-1 : ℤ) :=
    zpow_le_zpow_right₀ (by norm_num) (by omega)
  calc (m : ℚ) * 2 ^ (e - unit)
      ≤ |(m : ℚ)| * 2 ^ (e - unit) :=
        mul_le_mul_of_nonneg_right (le_abs_self _) (two_zpow_pos _).le
    _ ≤ |(m : ℚ)| * 2 ^ (-1 : ℤ) := mul_le_mul_of_nonneg_left hhalfunit (abs_nonneg _)
    _ < 2 ^ 52 := by
        rw [zpow_neg_one]
        linarith

/-- The nearest point of a grid is nearest of all doubles: those off the grid are below the lowest
point of its own doubles, which is no nearer. -/
theorem nearest_of_grid {q : ℚ} {unit : ℤ} {units : Nat}
    (hgrid : unit = -1074 ∨ (2 : ℚ) ^ (unit + 52) ≤ q)
    (hhalf : |q / 2 ^ unit - units| ≤ 1 / 2) {m e : ℤ} (hm : |m| < 2 ^ 53) (he : -1074 ≤ e)
    (hne : (m : ℚ) * 2 ^ e ≠ units * 2 ^ unit) :
    |q - units * 2 ^ unit| ≤ |q - m * 2 ^ e| ∧
      (|q - m * 2 ^ e| = |q - units * 2 ^ unit| → |q / 2 ^ unit - units| = 1 / 2) := by
  have hunit := two_zpow_pos unit
  -- Distances are compared in units of the grid.
  have hscaled (t : ℚ) : |q - t * 2 ^ unit| = |q / 2 ^ unit - t| * 2 ^ unit := by
    have hq : q - t * 2 ^ unit = (q / 2 ^ unit - t) * 2 ^ unit := by field_simp
    rw [hq, abs_mul, abs_of_pos hunit]
  have hdouble : (m : ℚ) * 2 ^ e = m * 2 ^ (e - unit) * 2 ^ unit := by
    rw [mul_assoc, ← zpow_add₀ (by norm_num), sub_add_cancel]
  have hne' : (m : ℚ) * 2 ^ (e - unit) ≠ units := by
    intro h
    exact hne (by rw [hdouble, h])
  have hlow : unit = -1074 ∨ (2 : ℚ) ^ 52 ≤ q / 2 ^ unit := hgrid.imp_right two_pow_le_div
  rw [hdouble, hscaled, hscaled, mul_le_mul_iff_left₀ hunit, mul_left_inj' hunit.ne']
  generalize q / 2 ^ unit = r at *
  by_cases hcase : unit ≤ e
  · obtain ⟨n, hn⟩ := Int.eq_ofNat_of_zero_le (sub_nonneg.mpr hcase)
    have hinteger : (m : ℚ) * 2 ^ (e - unit) = ((m * 2 ^ n : ℤ) : ℚ) := by
      rw [hn]
      push_cast
      rfl
    rw [hinteger] at hne' ⊢
    exact nearest_of_within_half hhalf (by exact_mod_cast hne')
  · have hr : (2 : ℚ) ^ 52 ≤ r := hlow.resolve_left (by omega)
    have hbelow := lt_of_lower_grid hm (not_le.mp hcase)
    have hnear : |r - units| ≤ |r - ((2 ^ 52 : ℤ) : ℚ)| := by
      by_cases h : (2 ^ 52 : ℤ) = units
      · rw [h, Int.cast_natCast]
      · exact (nearest_of_within_half hhalf h).1
    have hlt : |r - units| < |r - m * 2 ^ (e - unit)| := by
      have hpower : ((2 ^ 52 : ℤ) : ℚ) = 2 ^ 52 := by norm_num
      rw [hpower, abs_of_nonneg (sub_nonneg.mpr hr)] at hnear
      rw [abs_of_pos (by linarith : 0 < r - m * 2 ^ (e - unit))]
      linarith
    exact ⟨hlt.le, fun heq => absurd heq hlt.ne'⟩

/-! ## Doubles of quotients -/

/-- A number is rounded to so many units on the grid of an exponent. Except for the lowest grid, the
number is above its lowest power of two. -/
structure Rounded (q : ℚ) (k units : Nat) : Prop where
  units_le : units ≤ 2 ^ 53
  le_units : 2 ^ 52 ≤ units ∨ k = 0
  low : (k : ℤ) - 1074 = -1074 ∨ (2 : ℚ) ^ ((k : ℤ) - 1074 + 52) ≤ q
  within_half : |q / 2 ^ ((k : ℤ) - 1074) - units| ≤ 1 / 2
  even_of_half : |q / 2 ^ ((k : ℤ) - 1074) - units| = 1 / 2 → units % 2 = 0

theorem exists_rounded (negative : Bool) (num : Nat) {den : Nat} (hden : 0 < den) :
    ∃ k units, Rounded ((num : ℚ) / den) k units ∧ ofRatio negative num den =
      ofMagnitude negative (min (k * exponentUnit + units) (2047 * exponentUnit)) := by
  rcases Nat.eq_zero_or_pos num with rfl | hnum
  · exact ⟨0, 0, ⟨by simp, Or.inr rfl, Or.inl rfl, by simp, fun _ => rfl⟩, rfl⟩
  obtain ⟨hlow, hhigh⟩ := floorLog2_spec hnum hden
  rw [ofRatio, if_neg hnum.ne']
  generalize hunit : max (floorLog2 num den - 52) (-1074) = unit
  have hround := roundHalfEven_within_half (timesTwo num (-unit)) (timesTwo_pos hden unit)
  generalize hunits : roundHalfEven (timesTwo num (-unit)) (timesTwo den unit) = units at hround
  rw [timesTwo_div_timesTwo] at hround
  have hk : ((unit + 1074).toNat : ℤ) - 1074 = unit := by omega
  refine ⟨(unit + 1074).toNat, units, ?_, by rw [← hunits]⟩
  rw [← hk] at hround
  obtain ⟨hleft, hright⟩ := abs_le.mp hround.1
  have hrhigh : (num : ℚ) / den / 2 ^ (((unit + 1074).toNat : ℤ) - 1074) < 2 ^ 53 := by
    rw [hk, div_lt_iff₀ (two_zpow_pos unit)]
    calc (num : ℚ) / den < 2 ^ (floorLog2 num den + 1) := hhigh
      _ ≤ 2 ^ (53 + unit) := zpow_le_zpow_right₀ (by norm_num) (by omega)
      _ = 2 ^ 53 * 2 ^ unit := by
          rw [zpow_add₀ (by norm_num)]
          norm_num
  have hunitsle : units ≤ 2 ^ 53 := by
    have h : (units : ℚ) < 2 ^ 53 + 1 := by linarith
    exact Nat.lt_succ_iff.mp (by exact_mod_cast h)
  by_cases hlowest : unit = -1074
  · have hzero : (unit + 1074).toNat = 0 := by omega
    exact ⟨hunitsle, Or.inr hzero, Or.inl (hk.trans hlowest), hround.1, hround.2⟩
  · have hnormal : (2 : ℚ) ^ (unit + 52) ≤ num / den := by
      have hlog : unit + 52 = floorLog2 num den := by omega
      rw [hlog]
      exact hlow
    have hrlow : (2 : ℚ) ^ 52 ≤ num / den / 2 ^ (((unit + 1074).toNat : ℤ) - 1074) := by
      rw [hk]
      exact two_pow_le_div hnormal
    have hunitsge : 2 ^ 52 ≤ units := by
      have h : (2 : ℚ) ^ 52 < units + 1 := by linarith
      exact Nat.lt_succ_iff.mp (by exact_mod_cast h)
    exact ⟨hunitsle, Or.inl hunitsge, Or.inr (by rw [hk]; exact hnormal), hround.1, hround.2⟩

theorem Rounded.nearestTo {q : ℚ} {k units : Nat} (h : Rounded q k units)
    (hfinite : k * exponentUnit + units < 2047 * exponentUnit) (negative : Bool) :
    NearestTo ((if negative then -1 else 1) * q)
      (ofMagnitude negative (k * exponentUnit + units)) := by
  have hnumber := toRat_ofMagnitude negative h.units_le h.le_units hfinite
  have hsign : |if negative then (-1 : ℚ) else 1| = 1 := by cases negative <;> simp
  have hdistance (s t : ℚ) : |(if negative then (-1 : ℚ) else 1) * s -
      (if negative then -1 else 1) * t| = |s - t| := by
    rw [← mul_sub, abs_mul, hsign, one_mul]
  have hgrid {m e : ℤ} (hm : |m| < 2 ^ 53) (he : -1074 ≤ e)
      (hne : (m : ℚ) * 2 ^ e ≠ units * 2 ^ ((k : ℤ) - 1074)) :=
    nearest_of_grid h.low h.within_half hm he hne
  refine ⟨?_, ?_, ?_⟩
  · rw [isFinite_ofMagnitude_iff negative (hfinite.trans (by decide))]
    exact ((Nat.div_lt_iff_lt_mul (by decide)).mpr hfinite).ne
  · intro y _
    obtain ⟨m, e, hm, he, hy⟩ := exists_toRat_eq negative y
    rw [hnumber, hy, hdistance, hdistance]
    by_cases hne : (m : ℚ) * 2 ^ e = units * 2 ^ ((k : ℤ) - 1074)
    · rw [hne]
    · exact (hgrid hm he hne).1
  · intro y _ hother htie
    obtain ⟨m, e, hm, he, hy⟩ := exists_toRat_eq negative y
    rw [hnumber, hy] at hother htie
    rw [hdistance, hdistance] at htie
    have hne : (m : ℚ) * 2 ^ e ≠ units * 2 ^ ((k : ℤ) - 1074) := fun heq => hother (by rw [heq])
    have heven := h.even_of_half ((hgrid hm he hne).2 htie)
    rcases significand_ofMagnitude negative h.units_le h.le_units hfinite with ⟨hs, -⟩ | ⟨-, hs, -⟩
    · rwa [hs]
    · rw [hs]
      rfl

/-- Below the greatest power of two nothing is rounded to an infinity. -/
theorem Rounded.lt_infinity {q : ℚ} {k units : Nat} (h : Rounded q k units)
    (hq : q < 2 ^ (1023 : ℤ)) : k * exponentUnit + units < 2047 * exponentUnit := by
  have hk : k ≤ 2044 := by
    rcases h.low with hlowest | hlow
    · omega
    · have hexponent := (zpow_lt_zpow_iff_right₀ (by norm_num)).mp (hlow.trans_lt hq)
      omega
  have hunits := h.units_le
  unfold exponentUnit
  omega

theorem isFinite_ofRatio (negative : Bool) {num den : Nat} (hden : 0 < den)
    (h : (num : ℚ) / den < 2 ^ (1023 : ℤ)) : (ofRatio negative num den).isFinite := by
  obtain ⟨k, units, hrounded, heq⟩ := exists_rounded negative num hden
  have hlt := hrounded.lt_infinity h
  rw [heq, min_eq_left hlt.le]
  exact (hrounded.nearestTo hlt negative).isFinite

/-- The double of a quotient is nearest to it, provided that it is finite. -/
theorem nearestTo_ofRatio (negative : Bool) (num : Nat) {den : Nat} (hden : 0 < den)
    (hfinite : (ofRatio negative num den).isFinite) :
    NearestTo ((if negative then -1 else 1) * ((num : ℚ) / den)) (ofRatio negative num den) := by
  obtain ⟨k, units, hrounded, heq⟩ := exists_rounded negative num hden
  rw [heq] at hfinite ⊢
  rcases lt_or_ge (k * exponentUnit + units) (2047 * exponentUnit) with hlt | hge
  · rw [min_eq_left hlt.le]
    exact hrounded.nearestTo hlt negative
  · rw [min_eq_right hge, isFinite_ofMagnitude_iff negative (by decide)] at hfinite
    exact absurd (by decide) hfinite

/-- The double of an integer is nearest to it. -/
theorem nearestTo_ofInt {n : Int} (h : (n.natAbs : ℚ) < 2 ^ (1023 : ℤ)) :
    NearestTo n (ofInt n) := by
  have hn : (n : ℚ) = (if decide (n < 0) then -1 else 1) * ((n.natAbs : ℚ) / (1 : Nat)) := by
    rw [Nat.cast_natAbs, Nat.cast_one, div_one]
    by_cases hneg : n < 0
    · simp [hneg, abs_of_neg hneg]
    · simp [hneg, abs_of_nonneg (not_lt.mp hneg)]
  rw [hn]
  refine nearestTo_ofRatio _ _ Nat.one_pos (isFinite_ofRatio _ Nat.one_pos ?_)
  rwa [Nat.cast_one, div_one]

end Binary64
end Splice
