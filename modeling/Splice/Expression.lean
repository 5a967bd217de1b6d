import Splice.Part.Evaluation
import Splice.Template

/-!
# Expressions

A template compiled for a target. Literal text is cast once, when it is compiled. A lone
expression gives its value to the cast, so that a list can stay a list. Any other template is
rendered to text, and the text is cast.
-/

namespace Splice

inductive Plan (target : Target) where
  | constant (result : Except CastError target.Carrier)
  | single (part : Part)
  | concat (parts : List Part)

namespace Plan

variable {target : Target}

def ofParts (target : Target) : List Part → Plan target
  | [.text content] => constant (Value.cast target (.string content))
  | [part] => single part
  | parts => concat parts

def name : Plan target → String
  | constant _ => "constant"
  | single _ => "single"
  | concat _ => "concat"

def isConstant : Plan target → Bool
  | constant _ => true
  | _ => false

def evaluate : Plan target → Evaluation target.Carrier
  | constant result => .ofExcept (result.mapError .cast)
  | single part => do Evaluation.cast target (← part.eval).value
  | concat parts => do Evaluation.cast target (.string (← Part.renderAll parts))

end Plan

structure Expression (target : Target) where
  template : Template
  plan : Plan target

namespace Expression

variable {target : Target}

def ofTemplate (target : Target) (template : Template) : Expression target :=
  ⟨template, .ofParts target template.parts⟩

def compile (target : Target) (source : String) : Except ParseError (Expression target) :=
  (Template.parse source).map (ofTemplate target)

theorem compile_of_parse_ok {source : String} {template : Template}
    (h : Template.parse source = .ok template) :
    compile target source = .ok (ofTemplate target template) := by
  rw [compile, h]
  rfl

variable (expression : Expression target)

def source : String := expression.template.source

def parts : List Part := expression.template.parts

/-- Whether evaluation never asks for a name. -/
def isStatic : Bool := expression.plan.isConstant

def evaluate : Evaluation target.Carrier := expression.plan.evaluate

/-- Evaluation with a result in the place of any failure. -/
def evaluateOr (default : target.Carrier) : Evaluation target.Carrier :=
  expression.evaluate.orElse default

end Expression

end Splice
