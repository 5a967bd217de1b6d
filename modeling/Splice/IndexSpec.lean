import Splice.Numeral

/-!
# Index specifications

What stands between the parentheses of `list(2)` or `list(i)`: a number, or the name of an
attribute that holds one. A literal prints canonically, so reading its text gives it back.
-/

namespace Splice

inductive IndexSpec where
  | literal (index : Int64)
  | attribute (name : String)
  deriving DecidableEq

namespace IndexSpec

/-- A token that is a signed 64-bit numeral is a literal; any other names an attribute. -/
def ofToken (token : String) : IndexSpec :=
  match IntType.int64.read token with
  | some n => .literal (Int64.ofInt n)
  | none => .attribute token

def text : IndexSpec → String
  | .literal index => index.toInt.repr
  | .attribute name => name

theorem ofToken_of_read_eq_none {token : String} (h : IntType.int64.read token = none) :
    ofToken token = .attribute token := by
  simp [ofToken, h]

@[simp] theorem ofToken_repr (n : Int64) : ofToken n.toInt.repr = .literal n := by
  simp [ofToken]

@[simp] theorem ofToken_text (token : String) :
    ofToken (ofToken token).text = ofToken token := by
  cases h : IntType.int64.read token with
  | none => simp [ofToken_of_read_eq_none h, text]
  | some n =>
    have hn : ofToken token = .literal (Int64.ofInt n) := by simp [ofToken, h]
    rw [hn]
    exact ofToken_repr _

end IndexSpec
end Splice
