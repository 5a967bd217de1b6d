import Splice.Template.Segment
import Splice.Template.Suffix

/-!
# The template parser

A parser reads any number of templates. It keeps one thing between them, the buffer in which the
path of the accessor at hand is collected. Reading stops at the first malformed expression and
gives no partial result.
-/

namespace Splice

structure Parser where
  path : String := ""

/-- A run of literal text, left out when empty. -/
def literal (cs : List Char) : List Part :=
  if cs = [] then [] else [.text (String.ofList cs)]

namespace Parser

/-- Reads suffixes to the end of a body, over the part built so far. Each accessor is given the
buffered path before its own text is added to it. -/
def extend (parser : Parser) (part : Part) : List Char → Except Fault Part × Parser
  | [] => (.ok part, parser)
  | c :: cs =>
    match _ : Suffix.read c cs with
    | .error fault => (.error fault, parser)
    | .ok (suffix, rest) =>
      extend ⟨parser.path ++ suffix.text⟩ (.access part parser.path suffix.accessor) rest
termination_by cs => cs.length
decreasing_by exact Suffix.length_lt_of_read (by assumption)

/-- Reads an expression body, which starts the buffered path anew. -/
def expression (parser : Parser) (body : List Char) : Except Fault Part × Parser :=
  match readToken .expectedName body with
  | .error fault => (.error fault, parser)
  | .ok (token, rest) =>
    extend ⟨String.ofList token⟩ (.attribute (String.ofList token)) rest

/-- Reads literal text and expressions in turn. An expression that is not closed is reported where
it opens, whatever stands in it. -/
def parts (parser : Parser) (cs : List Char) : Except Fault (List Part) × Parser :=
  match _ : splitOpen? cs with
  | none => (.ok (literal cs), parser)
  | some (before, rest) =>
    match _ : splitClose? rest with
    | none => (.error ⟨.unterminated, '$' :: '{' :: rest⟩, parser)
    | some (body, after) =>
      match parser.expression body with
      | (.error fault, parser) => (.error (fault.before ('}' :: after)), parser)
      | (.ok part, parser) =>
        match parser.parts after with
        | (.error fault, parser) => (.error fault, parser)
        | (.ok parts, parser) => (.ok (literal before ++ part :: parts), parser)
termination_by cs.length
decreasing_by exact length_lt_of_split (by assumption) (by assumption)

/-- The parts of a template, of which there is always one. -/
def parse (parser : Parser) (template : String) : Except ParseError (List Part) × Parser :=
  match parser.parts template.toList with
  | (.error fault, parser) => (.error (fault.locate template), parser)
  | (.ok [], parser) => (.ok [.text template], parser)
  | (.ok parts, parser) => (.ok parts, parser)

/-- Reads templates one after the other. -/
def parseAll (parser : Parser) : List String → List (Except ParseError (List Part)) × Parser
  | [] => ([], parser)
  | template :: templates =>
    let (result, parser) := parser.parse template
    let (results, parser) := parser.parseAll templates
    (result :: results, parser)

end Parser
end Splice
