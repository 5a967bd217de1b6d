import Splice.Template.Parser

/-!
# Lending a parser

A worker owns one parser and lends it to a job for as long as the job runs. A job started while
the parser is lent gets a new one, which is dropped at the job's end.
-/

namespace Splice

/-- What a job does: parse a template with the parser it was given, parse one with the parser of a
job around it, which are counted outwards, or start a job of its own. Where its next step depends on
what it has read, these are the steps it takes in the end. -/
inductive Job where
  | parse (template : String)
  | parseOuter (level : Nat) (template : String)
  | borrow (steps : List Job)

/-- A worker's parser, `none` while it is lent. -/
structure Worker where
  parser : Option Parser := some {}

namespace Worker

/-- The parser a new job is given. -/
def lend (worker : Worker) : Parser := worker.parser.getD {}

/-- Takes a parser back from a job that began at the first state and ended at the second. The
worker has it again if it was its own. -/
def recover (start finish : Worker) (parser : Parser) : Worker :=
  match start.parser with
  | some _ => ⟨some parser⟩
  | none => finish

end Worker

/-- Parses with one of the parsers at hand, or with a new one where there are not so many. -/
def Parser.parseAt (parsers : List Parser) (level : Nat) (template : String) :
    Except ParseError (List Part) × List Parser :=
  let (result, parser) := (parsers.getD level {}).parse template
  (result, parsers.set level parser)

mutual

/-- Runs a step on the parsers at hand, that of the innermost job first, while the worker is in the
given state. -/
def Job.run (worker : Worker) (parsers : List Parser) :
    Job → List (Except ParseError (List Part)) × List Parser × Worker
  | .parse template =>
    let (result, parsers) := Parser.parseAt parsers 0 template
    ([result], parsers, worker)
  | .parseOuter level template =>
    let (result, parsers) := Parser.parseAt parsers (level + 1) template
    ([result], parsers, worker)
  | .borrow steps =>
    let (results, returned, finish) := Job.runAll ⟨none⟩ (worker.lend :: parsers) steps
    (results, returned.tail, worker.recover finish (returned.headD {}))

def Job.runAll (worker : Worker) (parsers : List Parser) :
    List Job → List (Except ParseError (List Part)) × List Parser × Worker
  | [] => ([], parsers, worker)
  | step :: steps =>
    let (results, parsers, worker) := step.run worker parsers
    let (more, parsers, worker) := Job.runAll worker parsers steps
    (results ++ more, parsers, worker)

end

namespace Worker

/-- Lends the worker's parser to a job and takes it back. -/
def perform (worker : Worker) (steps : List Job) :
    List (Except ParseError (List Part)) × Worker :=
  let (results, _, worker) := (Job.borrow steps).run worker []
  (results, worker)

def parse (worker : Worker) (template : String) : Except ParseError (List Part) × Worker :=
  let (result, parser) := worker.lend.parse template
  (result, worker.recover ⟨none⟩ parser)

end Worker
end Splice
