import Splice.Value

/-!
# Equality of values

Values of different kinds differ, also a list from a set and an integer from a floating point
number. Floating point numbers are compared as numbers, so a value that holds NaN differs from
itself.
-/

namespace Splice
namespace Value

mutual

def equals : Value → Value → Bool
  | null, null => true
  | bool a, bool b => a == b
  | int m, int n => m == n
  | float x, float y => x.equals y
  | string s, string t => s == t
  | list items, list items' => allEqual items items'
  | set items, set items' => allEqual items items'
  | map entries, map entries' => entriesEqual entries entries'
  | _, _ => false

def allEqual : List Value → List Value → Bool
  | [], [] => true
  | v :: vs, w :: ws => equals v w && allEqual vs ws
  | _, _ => false

def entriesEqual : List (String × Value) → List (String × Value) → Bool
  | [], [] => true
  | (k, v) :: es, (k', v') :: es' => k == k' && equals v v' && entriesEqual es es'
  | _, _ => false

end

end Value
end Splice
