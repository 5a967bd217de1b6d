import Splice.Decimal.Shortest

/-!
# How a double is written

The digits of a double are its shortest ones. A style says which of two equally near decimals is
taken, which numbers are written positionally, and what a whole number ends in.
-/

namespace Splice
namespace Decimal

structure Style where
  tie : Tie
  /-- Whether a number is written positionally, by the power of ten of its first digit. -/
  isPositional : Int → Bool
  /-- What follows a whole number that is written positionally. -/
  wholeEnd : String

/-- Digits without the zeros they end in, of which the scale keeps count. -/
def significant (d : Decimal) : List Char × Int :=
  let digits := Nat.toDigits 10 d.digits
  let kept := (digits.reverse.dropWhile (· == '0')).reverse
  (kept, d.scale + (digits.length - kept.length : Nat))

/-- The digits in their places, with zeros up to the point on either side. -/
def positional (style : Style) (digits : List Char) (scale : Int) : String :=
  if 0 ≤ scale then
    String.ofList (digits ++ List.replicate scale.toNat '0') ++ style.wholeEnd
  else if digits.length ≤ (-scale).toNat then
    "0." ++ String.ofList (List.replicate ((-scale).toNat - digits.length) '0' ++ digits)
  else
    let whole := digits.length - (-scale).toNat
    String.ofList (digits.take whole) ++ "." ++ String.ofList (digits.drop whole)

/-- One digit in front of the point, and the power of ten with its sign. -/
def scientific (digits : List Char) (exponent : Int) : String :=
  let mantissa :=
    match digits with
    | d :: d' :: ds => String.ofList (d :: '.' :: d' :: ds)
    | ds => String.ofList ds
  mantissa ++ "e" ++ (if 0 ≤ exponent then "+" else "") ++ exponent.repr

/-- The text of a finite magnitude. -/
def Style.magnitude (style : Style) (x : Binary64) : String :=
  if x.isZero then "0" ++ style.wholeEnd
  else
    let (digits, scale) := significant (shortest style.tie x)
    let exponent := scale + digits.length - 1
    if style.isPositional exponent then positional style digits scale
    else scientific digits exponent

/-- The text of a finite double. Zero keeps its sign. -/
def Style.write (style : Style) (x : Binary64) : String :=
  (if x.isNegative then "-" else "") ++ style.magnitude x

end Decimal
end Splice
