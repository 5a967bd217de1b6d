import Splice.Cast

/-!
# Failures of an evaluation

Each failure names the path of the value that an accessor was applied to, and holds that value or
the index or key that was not found.
-/

namespace Splice

inductive EvalError where
  | undefinedAttribute (name : String)
  | undefinedIndex (name : String) (index : Int64)
  | undefinedKey (name : String) (key : String)
  | sizeNotSupported (value : Value) (name : String)
  | keyAccessNotSupported (value : Value) (name : String)
  | randomNotSupported (value : Value) (name : String)
  | indexNotSupported (value : Value) (name : String)
  | cast (error : CastError)

namespace EvalError

def undefinedAttributeText (name : String) : String :=
  "Attribute '" ++ name ++ "' is not defined"

def undefinedIndexText (name index : String) : String :=
  "Index " ++ index ++ " is out of bounds for '" ++ name ++ "'"

def undefinedKeyText (name key : String) : String :=
  "Key '" ++ key ++ "' is not defined in '" ++ name ++ "'"

def sizeNotSupportedText (value : Value) (name : String) : String :=
  "Cannot take the size of '" ++ name ++ "': value '" ++ value.text ++ "' is not a collection"

def keyAccessNotSupportedText (value : Value) (name : String) : String :=
  "Cannot access keys of '" ++ name ++ "': value '" ++ value.text ++ "' is not a map"

def randomNotSupportedText (value : Value) (name : String) : String :=
  "Cannot pick a random element of '" ++ name ++ "': value '" ++ value.text ++
    "' is not a non-empty list"

def indexNotSupportedText (value : Value) (name : String) : String :=
  "Cannot index '" ++ name ++ "': value '" ++ value.text ++ "' is not a list"

def message : EvalError → String
  | undefinedAttribute name => undefinedAttributeText name
  | undefinedIndex name index => undefinedIndexText name index.toInt.repr
  | undefinedKey name key => undefinedKeyText name key
  | sizeNotSupported value name => sizeNotSupportedText value name
  | keyAccessNotSupported value name => keyAccessNotSupportedText value name
  | randomNotSupported value name => randomNotSupportedText value name
  | indexNotSupported value name => indexNotSupportedText value name
  | cast error => error.message

end EvalError
end Splice
