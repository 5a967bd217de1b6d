import Splice.IndexSpec

/-!
# Parts of a template

A part is literal text or a chain of accessors over an attribute. Each accessor keeps the path of
the value it applies to, for its errors; the path that the chain itself spells is `fullPath`. The
two differ where an index was not written canonically.
-/

namespace Splice

inductive Accessor where
  | index (spec : IndexSpec)
  | key (name : String)
  | size
  | random
  deriving DecidableEq

def Accessor.text : Accessor → String
  | index spec => "(" ++ spec.text ++ ")"
  | key name => "." ++ name
  | size => ".size"
  | random => ".random"

inductive Part where
  | text (content : String)
  | attribute (name : String)
  | access (child : Part) (path : String) (accessor : Accessor)
  deriving DecidableEq

namespace Part

def isStatic : Part → Bool
  | .text _ => true
  | _ => false

/-- The path a chain spells, its last accessor included. Literal text adds nothing to it. -/
def fullPath : Part → String
  | .text _ => ""
  | .attribute name => name
  | .access child _ accessor => child.fullPath ++ accessor.text

def displayName (part : Part) : Option String :=
  if part.isStatic then none else some part.fullPath

/-- The template text of a part. -/
def display : Part → String
  | .text content => content
  | part => "$\x7b" ++ part.fullPath ++ "\x7d"

end Part
end Splice
