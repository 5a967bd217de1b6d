import Splice.Binary64

/-!
# Reading a double

A double is written as an optional sign and then either a word, `inf`, `infinity` or `nan` in any
case, or digits with an optional point and an optional power of ten. There must be a digit on one
side of the point. The double read is the one nearest to the decimal written.
-/

namespace Splice
namespace Decimal

/-- The value of the digits of an exponent. From 65536 on further digits no longer count. -/
def exponentDigits (cs : List Char) : Nat :=
  cs.foldl (fun n c => if n < 65536 then 10 * n + (c.toNat - '0'.toNat) else n) 0

/-- The power of ten at the end of a number, zero if there is none. -/
def exponent? : List Char → Option Int
  | [] => some 0
  | e :: cs =>
    if e = 'e' ∨ e = 'E' then
      let (isNegative, digits) :=
        match cs with
        | '-' :: ds => (true, ds)
        | '+' :: ds => (false, ds)
        | ds => (false, ds)
      if digits ≠ [] ∧ digits.all Char.isDigit then
        let n : Int := exponentDigits digits
        some (if isNegative then -n else n)
      else none
    else none

/-- The double nearest to the number that the digits spell times `10 ^ scale`. Decimals far outside
the range of doubles are settled by their number of digits. -/
def nearest (negative : Bool) (digits : List Char) (scale : Int) : Binary64 :=
  let significant := digits.dropWhile (· == '0')
  let place := significant.length + scale
  if significant = [] ∨ place < -330 then .zero negative
  else if 330 < place then .infinity negative
  else
    let n := Nat.ofDigitChars 10 significant 0
    .ofRatio negative (timesTen n scale) (timesTen 1 (-scale))

/-- Reads a number without a sign. -/
def magnitude? (negative : Bool) (cs : List Char) : Option Binary64 :=
  let whole := cs.takeWhile Char.isDigit
  let afterWhole := cs.dropWhile Char.isDigit
  let (fraction, rest) :=
    match afterWhole with
    | '.' :: ds => (ds.takeWhile Char.isDigit, ds.dropWhile Char.isDigit)
    | ds => ([], ds)
  if whole = [] ∧ fraction = [] then none
  else
    (exponent? rest).map fun exponent =>
      nearest negative (whole ++ fraction) (exponent - fraction.length)

/-- Reads a number or a word without a sign. -/
def unsignedDouble? (negative : Bool) (cs : List Char) : Option Binary64 :=
  let word := String.ofList (cs.map Char.toLower)
  if word = "inf" ∨ word = "infinity" then some (.infinity negative)
  else if word = "nan" then some .nan
  else magnitude? negative cs

def double? (text : String) : Option Binary64 :=
  match text.toList with
  | '-' :: cs => unsignedDouble? true cs
  | '+' :: cs => unsignedDouble? false cs
  | cs => unsignedDouble? false cs

end Decimal
end Splice
