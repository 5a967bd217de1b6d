import Splice.Decimal.Style
import Splice.Document

/-!
# The JSON text of a document

Compact: no blanks. A string escapes the quote, the backslash and the characters below the blank,
five of them by a letter and the rest by four hexadecimal digits.
-/

namespace Splice

/-- Floating point numbers always show a point or a power of ten, which is written from `1e16` up
and below `1e-5`; of two nearest decimals the even one is taken. -/
def jsonStyle : Decimal.Style := ⟨.toEven, fun e => -5 ≤ e && e < 16, ".0"⟩

namespace Document

def escape (c : Char) : String :=
  if c = '"' then "\\\""
  else if c = '\\' then "\\\\"
  else if c = '\x08' then "\\b"
  else if c = '\t' then "\\t"
  else if c = '\n' then "\\n"
  else if c = '\x0c' then "\\f"
  else if c = '\r' then "\\r"
  else if c.toNat < 32 then
    "\\u00" ++ String.ofList [Nat.digitChar (c.toNat / 16), Nat.digitChar (c.toNat % 16)]
  else String.singleton c

def quote (s : String) : String :=
  "\"" ++ String.join (s.toList.map escape) ++ "\""

def numberText : Number → String
  | .integer n _ _ => n.repr
  | .double x _ => jsonStyle.write x

mutual

def text : Document → String
  | null => "null"
  | bool b => if b then "true" else "false"
  | number n => numberText n
  | string s => quote s
  | array items => "[" ++ ",".intercalate (texts items) ++ "]"
  | object fields => "\x7b" ++ ",".intercalate (fieldTexts fields) ++ "\x7d"

def texts : List Document → List String
  | [] => []
  | d :: ds => d.text :: texts ds

def fieldTexts : List (String × Document) → List String
  | [] => []
  | (key, d) :: fs => (quote key ++ ":" ++ d.text) :: fieldTexts fs

end

end Document
end Splice
