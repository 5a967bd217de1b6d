import Splice.Proofs.TwoPhase

/-!
# Renamed parts

The path that an accessor is stored with serves its errors and nothing else. Storing every accessor
with the path that its child spells changes neither what a part prints nor, apart from the paths in
failures, what it evaluates to: results, names asked and draws are the same.
-/

namespace Splice

/-- The part with every accessor stored under the display name of its child. -/
def Part.renamed : Part → Part
  | .text content => .text content
  | .attribute name => .attribute name
  | .access child _ accessor => .access child.renamed child.fullPath accessor

namespace Part

@[simp] theorem fullPath_renamed (part : Part) : part.renamed.fullPath = part.fullPath := by
  induction part with
  | text content => rfl
  | access child path accessor ih => rw [renamed, fullPath, fullPath, ih]
  | _ => rfl

@[simp] theorem display_renamed (part : Part) : part.renamed.display = part.display := by
  cases part with
  | text content => rfl
  | access child path accessor => simp only [renamed, display, fullPath, fullPath_renamed]
  | _ => rfl

end Part

/-! ## Failures without paths -/

/-- The failure with no path in it. The name of an attribute that is not bound is no path. -/
def EvalError.withoutPath : EvalError → EvalError
  | .undefinedAttribute name => .undefinedAttribute name
  | .undefinedIndex _ index => .undefinedIndex "" index
  | .undefinedKey _ key => .undefinedKey "" key
  | .sizeNotSupported value _ => .sizeNotSupported value ""
  | .keyAccessNotSupported value _ => .keyAccessNotSupported value ""
  | .randomNotSupported value _ => .randomNotSupported value ""
  | .indexNotSupported value _ => .indexNotSupported value ""
  | .cast error => .cast error

/-- The run with no path in its failure, if it fails. -/
def Run.withoutPath {α : Type} (r : Run α) : Run α :=
  { r with result := r.result.mapError EvalError.withoutPath }

namespace Evaluation

variable {α β : Type}

def withoutPath : Evaluation α → Evaluation α
  | done result => done result
  | fail error => fail error.withoutPath
  | ask name next => ask name fun answer => (next answer).withoutPath
  | draw bound next => draw bound fun position => (next position).withoutPath

theorem withoutPath_bind (p : Evaluation α) (f : α → Evaluation β) :
    (p.bind f).withoutPath = p.withoutPath.bind fun a => (f a).withoutPath := by
  induction p with
  | done a => rfl
  | fail e => rfl
  | ask name next ih => simp only [bind, withoutPath, ih]
  | draw bound next ih => simp only [bind, withoutPath, ih]

theorem run_withoutPath (p : Evaluation α) (context : Context) (draws : List Nat) :
    p.withoutPath.run context draws = (p.run context draws).withoutPath := by
  induction p generalizing draws with
  | done a => rfl
  | fail e => rfl
  | ask name next ih => simp only [withoutPath, run, ih, Run.withoutPath]
  | draw bound next ih => simp only [withoutPath, run, ih]

end Evaluation

/-! ## Evaluation -/

/-- Under another path an accessor comes to the same, but for the path in its failure. -/
theorem Resolved.withoutPath_evaluate (accessor : Resolved) (path path' : String) (found : Found) :
    (accessor.evaluate path found).withoutPath = (accessor.evaluate path' found).withoutPath := by
  cases accessor with
  | size =>
    simp only [evaluate, Found.size]
    cases found.value.size? <;> rfl
  | index n =>
    simp only [evaluate, Found.atIndex]
    split
    · rfl
    · split
      · rfl
      · cases found.value.element? n.toInt.toNat <;> rfl
  | key name =>
    simp only [evaluate, Found.atKey]
    split
    · rfl
    · cases found.value.entry? name <;> rfl
  | random =>
    simp only [evaluate, Found.atRandom]
    split
    · rfl
    · simp only [Evaluation.withoutPath]
      congr
      funext position
      cases found.value.element? position <;> rfl

theorem Part.withoutPath_eval_renamed :
    ∀ part : Part, part.renamed.eval.withoutPath = part.eval.withoutPath
  | .text _ => rfl
  | .attribute _ => rfl
  | .access child path accessor => by
    have ih := withoutPath_eval_renamed child
    rw [renamed, eval_access, eval_access, Evaluation.withoutPath_bind, Evaluation.withoutPath_bind]
    congr
    funext resolved
    rw [Evaluation.withoutPath_bind, Evaluation.withoutPath_bind, ih]
    congr
    funext found
    exact resolved.withoutPath_evaluate child.fullPath path found

/-- A renamed part gives the same value, asks the same names and leaves the same draws, or fails in
the same way under its own paths. -/
theorem Part.withoutPath_run_renamed (part : Part) (context : Context) (draws : List Nat) :
    (part.renamed.eval.run context draws).withoutPath =
      (part.eval.run context draws).withoutPath := by
  rw [← Evaluation.run_withoutPath, ← Evaluation.run_withoutPath, withoutPath_eval_renamed]

end Splice
