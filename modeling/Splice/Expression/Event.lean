import Splice.Expression

/-!
# Events

What compiling and evaluating an expression report to a log: every compilation reports its
outcome, and an evaluation that fails reports its failure.
-/

namespace Splice

inductive Level where
  | debug
  | trace
  deriving DecidableEq

def Level.name : Level → String
  | debug => "debug"
  | trace => "trace"

inductive Event where
  | parseFailed (offset : Nat) (detail : String)
  | compiled (template : String) (parts : Nat) (plan : String)
  | evaluationFailed (template : String) (error : String)
  deriving DecidableEq

namespace Event

def level : Event → Level
  | parseFailed .. | compiled .. => .debug
  | evaluationFailed .. => .trace

/-- The fields of an event, all as text. -/
def fields : Event → List (String × String)
  | parseFailed offset detail =>
    [("message", "Template parse failed"), ("offset", offset.repr), ("error", detail)]
  | compiled template parts plan =>
    [("message", "Compiled expression"), ("template", template), ("parts", parts.repr),
      ("plan", plan)]
  | evaluationFailed template error =>
    [("message", "Expression evaluation failed"), ("template", template), ("error", error)]

end Event

namespace Expression

variable {target : Target}

/-- What a compilation reports. -/
def compileEvent : Except ParseError (Expression target) → Event
  | .error e => .parseFailed e.offset e.problem.detail
  | .ok expression => .compiled expression.source expression.parts.length expression.plan.name

/-- What an evaluation reports. -/
def evaluateEvents {α : Type} (expression : Expression target) :
    Except EvalError α → List Event
  | .error e => [.evaluationFailed expression.source e.message]
  | .ok _ => []

end Expression
end Splice
