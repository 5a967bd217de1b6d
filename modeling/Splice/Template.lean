import Splice.Template.Worker

/-!
# Templates

A parsed template: its parts in order, and the text they were read from.
-/

namespace Splice

structure Template where
  source : String
  parts : List Part

namespace Template

def parse (source : String) : Except ParseError Template :=
  (({} : Parser).parse source).1.map fun parts => ⟨source, parts⟩

def isStatic (template : Template) : Bool :=
  template.parts.all Part.isStatic

/-- The text the parts spell, which differs from the source where an index was not canonical. -/
def display (template : Template) : String :=
  String.join (template.parts.map Part.display)

/-- Whether the displayed text is again a template with the very same parts. -/
def isReparsed (template : Template) : Bool :=
  match parse template.display with
  | .ok again => again.parts = template.parts
  | .error _ => false

end Template
end Splice
