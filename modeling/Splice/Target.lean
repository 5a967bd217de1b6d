import Splice.Numeral
import Splice.Value

/-!
# Types a value can be cast to

A target names a type of results. An optional target admits the absence of a value; its name in
errors is that of the type inside.
-/

namespace Splice

inductive Target where
  | value
  | string
  | bool
  | integer (type : IntType)
  | float
  | list
  | map
  | option (inner : Target)
  deriving DecidableEq

namespace Target

/-- The results of a cast. The integers of a bounded type are taken among all integers. -/
def Carrier : Target → Type
  | .value => Value
  | .string => String
  | .bool => Bool
  | .integer _ => Int
  | .float => Binary64
  | .list => List Value
  | .map => List (String × Value)
  | .option inner => Option inner.Carrier

def name : Target → String
  | .value => "value"
  | .string => "string"
  | .bool => "bool"
  | .integer type => type.name
  | .float => "f64"
  | .list => "list"
  | .map => "map"
  | .option inner => inner.name

end Target
end Splice
