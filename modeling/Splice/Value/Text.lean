import Splice.Decimal.Style
import Splice.Value

/-!
# The text of a value

How a value reads in the middle of a text. Strings stand for themselves, numbers are written
positionally, lists and sets in brackets, and maps in braces with their entries in key order.
-/

namespace Splice

/-- Floating point numbers are written positionally at any size, a whole one without a point; of
two nearest decimals the greater is taken. -/
def plainStyle : Decimal.Style := ⟨.up, fun _ => true, ""⟩

def Binary64.text (x : Binary64) : String :=
  if x.isFinite then plainStyle.write x
  else if x.isNaN then "NaN"
  else if x.isNegative then "-inf"
  else "inf"

namespace Value

mutual

def text : Value → String
  | null => "null"
  | bool b => if b then "true" else "false"
  | int n => n.toInt.repr
  | float x => x.text
  | string s => s
  | list items | set items => "[" ++ ", ".intercalate (texts items) ++ "]"
  | map entries => "\x7b" ++ ", ".intercalate (entryTexts entries) ++ "\x7d"

def texts : List Value → List String
  | [] => []
  | v :: vs => v.text :: texts vs

def entryTexts : List (String × Value) → List String
  | [] => []
  | (key, v) :: es => (key ++ "=" ++ v.text) :: entryTexts es

end

@[simp] theorem texts_eq_map (items : List Value) : texts items = items.map text := by
  induction items with
  | nil => simp [texts]
  | cons v vs ih => simp [texts, ih]

@[simp] theorem entryTexts_eq_map (entries : List (String × Value)) :
    entryTexts entries = entries.map fun (key, v) => key ++ "=" ++ v.text := by
  induction entries with
  | nil => simp [entryTexts]
  | cons e es ih => simp [entryTexts, ih]

end Value
end Splice
