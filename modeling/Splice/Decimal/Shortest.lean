import Splice.Binary64

/-!
# The fewest digits that read back

Of the decimals that round to a double those with the fewest digits are sought, and of them the
one nearest to the double. For each number of digits only the two neighbours of the double on that
decimal grid can qualify. Where both do and are equally near, the format that asked decides.
-/

namespace Splice

/-- The decimal `digits * 10 ^ scale`. -/
structure Decimal where
  digits : Nat
  scale : Int

/-- Which of two equally near decimals is taken. -/
inductive Tie where
  | toEven
  | up

namespace Decimal

/-- Compares a decimal with `m * 2 ^ q`. -/
def compareBinary (d : Decimal) (m : Nat) (q : Int) : Ordering :=
  compare (timesTwo (timesTen d.digits d.scale) (-q)) (timesTen (timesTwo m q) (-d.scale))

/-- Whether a decimal rounds to a finite double. The bounds are halfway to the neighbours, and
belong to the double whose significand is even. -/
def readsBack (d : Decimal) (x : Binary64) : Bool :=
  let lower := 4 * x.significand - if x.isNarrowBelow then 1 else 2
  let upper := 4 * x.significand + 2
  let isEven := x.significand % 2 == 0
  let below := d.compareBinary lower (x.power - 2)
  let above := d.compareBinary upper (x.power - 2)
  (below == .gt || (isEven && below == .eq)) && (above == .lt || (isEven && above == .eq))

/-- The number of digits in front of the decimal point, less the zeros that follow it when there
are none: the magnitude is below `10 ^ k`, and not below `10 ^ (k - 1)`. The binary logarithm gives
the power of ten that is not above the magnitude, or the one before it. -/
def leadingPlace (x : Binary64) : Int :=
  let log10 := (x.significand.log2 + x.power) * 30103 / 100000
  match compareBinary ⟨1, log10 + 1⟩ x.significand x.power with
  | .gt => log10 + 1
  | _ => log10 + 2

/-- The magnitude cut to a multiple of `10 ^ scale`. -/
def cut (x : Binary64) (scale : Int) : Decimal :=
  ⟨timesTen (timesTwo x.significand x.power) (-scale) / timesTen (timesTwo 1 (-x.power)) scale,
    scale⟩

def next (d : Decimal) : Decimal := ⟨d.digits + 1, d.scale⟩

/-- The nearer of a decimal and the next to a magnitude between them. -/
def nearer (tie : Tie) (x : Binary64) (d : Decimal) : Decimal :=
  let middle : Decimal := ⟨2 * d.digits + 1, d.scale⟩
  match middle.compareBinary x.significand (x.power + 1), tie with
  | .gt, _ => d
  | .lt, _ => d.next
  | .eq, .up => d.next
  | .eq, .toEven => if d.digits % 2 = 0 then d else d.next

/-- The decimal of the given scale that reads back, the nearer one if there are two. -/
def candidate? (tie : Tie) (x : Binary64) (scale : Int) : Option Decimal :=
  let below := cut x scale
  match below.readsBack x, below.next.readsBack x with
  | true, true => some (nearer tie x below)
  | true, false => some below
  | false, true => some below.next
  | false, false => none

/-- The magnitude itself. -/
def exact (x : Binary64) : Decimal :=
  ⟨timesTwo x.significand x.power * Nat.pow 5 (-x.power).toNat, min x.power 0⟩

/-- The shortest decimal of a finite double other than zero. Seventeen digits always suffice. -/
def shortest (tie : Tie) (x : Binary64) : Decimal :=
  let places := leadingPlace x
  ((List.range 17).findSome? fun (n : Nat) => candidate? tie x (places - n - 1)).getD (exact x)

end Decimal
end Splice
