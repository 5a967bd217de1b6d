import Splice.Decimal.Reading
import Splice.Target
import Splice.Value.Text

/-!
# Casting values

A value that has the target's form passes through. Booleans and numbers are also read from a
string, by the notation of their type; every value has a text; a set casts to a list. Null casts
to the absent value of an option. Everything else is an error, which holds the value's text.
-/

namespace Splice

structure CastError where
  value : String
  target : String
  deriving DecidableEq

def CastError.message (e : CastError) : String :=
  "Cannot cast '" ++ e.value ++ "' to " ++ e.target

def readBool? (text : String) : Option Bool :=
  if text = "true" then some true else if text = "false" then some false else none

namespace Value

def toBool? : Value → Option Bool
  | bool b => some b
  | string s => readBool? s
  | _ => none

def toInt? (type : IntType) : Value → Option Int
  | int n => type.fit n.toInt
  | string s => type.read s
  | _ => none

def toFloat? : Value → Option Binary64
  | float x => some x
  | int n => some (.ofInt n.toInt)
  | string s => Decimal.double? s
  | _ => none

def toList? : Value → Option (List Value)
  | list items | set items => some items
  | _ => none

def toMap? : Value → Option (List (String × Value))
  | map entries => some entries
  | _ => none

/-- The failure to cast a value. -/
def castError (target : Target) (v : Value) : CastError := ⟨v.text, target.name⟩

def cast : (target : Target) → Value → Except CastError target.Carrier
  | .value, v => .ok v
  | .string, v => .ok v.text
  | .bool, v => v.toBool?.elim (.error (v.castError .bool)) .ok
  | .integer type, v => (v.toInt? type).elim (.error (v.castError (.integer type))) .ok
  | .float, v => v.toFloat?.elim (.error (v.castError .float)) .ok
  | .list, v => v.toList?.elim (.error (v.castError .list)) .ok
  | .map, v => v.toMap?.elim (.error (v.castError .map)) .ok
  | .option _, .null => .ok none
  | .option inner, v => (v.cast inner).map some

end Value
end Splice
