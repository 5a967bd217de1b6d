import Splice.Proofs.Reading

/-!
# Parsers used again

The path a parser has buffered is whatever the last expression left in it, whether that was read or
not. Main statement: what a parser returns for a template does not depend on the path, so that
its results show neither the templates before nor the jobs in which it was lent in between; and a
worker has its parser again when the job it was lent to ends.
-/

namespace Splice

namespace Parser

theorem parse_fst_congr (p q : Parser) (template : String) :
    (p.parse template).1 = (q.parse template).1 := by
  rw [parse_fst, parse_fst, parts_fst_congr p q]

/-- What a new parser returns for each of the templates. -/
def fresh (templates : List String) : List (Except ParseError (List Part)) :=
  templates.map fun template => (({} : Parser).parse template).1

theorem parseAll_fst (parser : Parser) (templates : List String) :
    (parser.parseAll templates).1 = fresh templates := by
  induction templates generalizing parser with
  | nil => rfl
  | cons template templates ih =>
    have hhead : (parser.parse template).1 = (({} : Parser).parse template).1 :=
      parse_fst_congr parser {} template
    have htail : ((parser.parse template).2.parseAll templates).1 = fresh templates := ih _
    change (parser.parse template).1 :: ((parser.parse template).2.parseAll templates).1 = _
    rw [hhead, htail]
    rfl

theorem parseAt_fst (parsers : List Parser) (level : Nat) (template : String) :
    (parseAt parsers level template).1 = (({} : Parser).parse template).1 :=
  parse_fst_congr _ _ template

end Parser

/-! ## Jobs -/

namespace Job

mutual

/-- The templates a step parses, in order and at whatever depth. -/
def templates : Job → List String
  | .parse template => [template]
  | .parseOuter _ template => [template]
  | .borrow steps => templatesAll steps

def templatesAll : List Job → List String
  | [] => []
  | step :: steps => step.templates ++ templatesAll steps

end

mutual

/-- A step returns what new parsers would and leaves the worker's parser lent or not, as it was. -/
theorem run_spec (worker : Worker) (parsers : List Parser) : ∀ step : Job,
    (step.run worker parsers).1 = Parser.fresh step.templates ∧
      (step.run worker parsers).2.2.parser.isSome = worker.parser.isSome
  | .parse template => by
    have hresult := Parser.parseAt_fst parsers 0 template
    exact ⟨congrArg (fun result => [result]) hresult, rfl⟩
  | .parseOuter level template => by
    have hresult := Parser.parseAt_fst parsers (level + 1) template
    exact ⟨congrArg (fun result => [result]) hresult, rfl⟩
  | .borrow steps => by
    obtain ⟨hresults, hfinish⟩ := runAll_spec ⟨none⟩ (worker.lend :: parsers) steps
    refine ⟨hresults, ?_⟩
    rw [run]
    -- A job whose parser is not the worker's leaves the worker as the job's own steps did.
    cases hparser : worker.parser with
    | none => simpa [Worker.recover, hparser] using hfinish
    | some parser => simp [Worker.recover, hparser]

theorem runAll_spec (worker : Worker) (parsers : List Parser) : ∀ steps : List Job,
    (runAll worker parsers steps).1 = Parser.fresh (templatesAll steps) ∧
      (runAll worker parsers steps).2.2.parser.isSome = worker.parser.isSome
  | [] => ⟨rfl, rfl⟩
  | step :: steps => by
    obtain ⟨hfirst, hbetween⟩ := run_spec worker parsers step
    obtain ⟨hrest, hfinish⟩ := runAll_spec (step.run worker parsers).2.2
      (step.run worker parsers).2.1 steps
    refine ⟨?_, hfinish.trans hbetween⟩
    calc (runAll worker parsers (step :: steps)).1
      _ = Parser.fresh step.templates ++ Parser.fresh (templatesAll steps) :=
        congrArg₂ (· ++ ·) hfirst hrest
      _ = Parser.fresh (templatesAll (step :: steps)) := List.map_append.symm

end

end Job

/-- What a worker has parsed so far changes nothing about a template. -/
theorem Template.parse_eq_map_worker (worker : Worker) (source : String) :
    Template.parse source = (worker.parse source).1.map (⟨source, ·⟩) := by
  rw [Template.parse, Worker.parse, Parser.parse_fst_congr {} worker.lend]

/-- No parser tells its templates apart by what it or another parser read before. After any history
of templates, read or failed at, it returns what a new parser does. So does every parse of a thread,
in each of the jobs it starts one after the other, at whatever depth and with whichever parser a job
has at hand, and the worker's parser is lent after them exactly if it was before. -/
theorem parse_unaffected_by_reuse :
    (∀ (parser : Parser) (history : List String) (source : String),
      ((parser.parseAll history).2.parse source).1 = (({} : Parser).parse source).1) ∧
    (∀ (parser : Parser) (history : List String),
      (parser.parseAll history).1 =
        history.map fun source => (({} : Parser).parse source).1) ∧
    (∀ (worker : Worker) (parsers : List Parser) (steps : List Job),
      (Job.runAll worker parsers steps).1 =
        (Job.templatesAll steps).map (fun source => (({} : Parser).parse source).1) ∧
      (Job.runAll worker parsers steps).2.2.parser.isSome = worker.parser.isSome) ∧
    ∀ (worker : Worker) (steps : List Job),
      (worker.perform steps).1 =
        (Job.templatesAll steps).map (fun source => (({} : Parser).parse source).1) ∧
      (worker.perform steps).2.parser.isSome = worker.parser.isSome := by
  refine ⟨fun parser history source => Parser.parse_fst_congr _ _ source, Parser.parseAll_fst,
    Job.runAll_spec, fun worker steps => ?_⟩
  exact Job.run_spec worker [] (.borrow steps)

end Splice
