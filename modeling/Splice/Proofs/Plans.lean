import Splice.Proofs.Reading

/-!
# Plans

A template is evaluated by one of three plans: a constant that was cast when the template was
compiled, the cast value of a lone expression, or the cast text of all parts. Main statement: which
plan it is cannot be told from a run. For every target it is the run of the plain value with the
value cast at its end, and for texts it is the run of the parts in order, up to the first that
fails, with their texts joined.
-/

namespace Splice

/-! ## Casting at the end -/

/-- The run with a function applied to its result. -/
def Run.map {α β : Type} (f : α → β) (r : Run α) : Run β := ⟨r.result.map f, r.asked, r.draws⟩

/-- The run with its value cast to a target. A value that cannot be cast is a failure; a failure
stays what it was, and so do the names asked and the draws left. -/
def Run.cast (target : Target) (r : Run Value) : Run target.Carrier :=
  ⟨r.result.bind fun value => (value.cast target).mapError .cast, r.asked, r.draws⟩

namespace Evaluation

variable (context : Context) (draws : List Nat)

theorem run_bind_done {α β : Type} (p : Evaluation α) (f : α → β) :
    (p.bind fun a => done (f a)).run context draws = (p.run context draws).map f := by
  rw [run_bind, Run.andThen, Run.map]
  cases (p.run context draws).result with
  | error e => rfl
  | ok a => simp [run, Except.map]

theorem run_bind_cast (target : Target) (p : Evaluation Value) :
    (p.bind (cast target)).run context draws = (p.run context draws).cast target := by
  rw [run_bind, Run.andThen, Run.cast]
  cases (p.run context draws).result with
  | error e => rfl
  | ok value =>
    simp only [cast, Except.bind]
    cases value.cast target <;> simp [run, Except.mapError]

end Evaluation

/-- Whatever the target, evaluation goes as for the plain value and ends with a cast. -/
theorem Plan.evaluate_ofParts (target : Target) (parts : List Part) :
    (ofParts target parts).evaluate =
      Evaluation.bind (ofParts .value parts).evaluate (Evaluation.cast target) := by
  unfold ofParts
  split
  · rename_i content
    simp only [evaluate, Value.cast, Except.mapError, Evaluation.ofExcept, Evaluation.bind,
      Evaluation.cast]
    cases (Value.string content).cast target <;> rfl
  · rename_i part _
    change part.eval.bind (fun found => Evaluation.cast target found.value) =
      (part.eval.bind fun found => .done found.value).bind (Evaluation.cast target)
    rw [Evaluation.bind_bind]
    rfl
  · change (Part.renderAll parts).bind (fun text => Evaluation.cast target (.string text)) =
      ((Part.renderAll parts).bind fun text => .done (Value.string text)).bind
        (Evaluation.cast target)
    rw [Evaluation.bind_bind]
    rfl

/-! ## Texts of parts -/

/-- What a value contributes to a text: a string itself, any other value its text form. -/
def Value.spliced : Value → String
  | .string s => s
  | value => value.text

/-- The run of a part for its text. -/
def Part.textRun (context : Context) (draws : List Nat) : Part → Run String
  | .text content => ⟨.ok content, [], draws⟩
  | part => (part.eval.run context draws).map fun found => found.value.spliced

/-- The runs of parts in order, each with the draws that the one in front left. The first that
fails is the last. -/
def Part.textRuns (context : Context) : List Part → List Nat → List (Run String)
  | [], _ => []
  | part :: parts, draws =>
    let r := part.textRun context draws
    match r.result with
    | .ok _ => r :: textRuns context parts r.draws
    | .error _ => [r]

theorem Value.spliced_eq_text (value : Value) : value.spliced = value.text := by
  cases value <;> simp [spliced, text]

namespace Part

theorem run_render (part : Part) (context : Context) (draws : List Nat) :
    part.render.run context draws = part.textRun context draws := by
  have hrun : part.render.run context draws =
      (part.eval.run context draws).map fun found => found.value.spliced := by
    simp only [render_eq_bind, Evaluation.run_bind_done, Value.spliced_eq_text]
  cases part with
  | text content => rfl
  | _ => exact hrun

theorem run_renderAll_cons (part : Part) (parts : List Part) (context : Context)
    (draws : List Nat) :
    (renderAll (part :: parts)).run context draws =
      (part.textRun context draws).andThen fun text rest =>
        ((renderAll parts).run context rest).map (text ++ ·) := by
  rw [renderAll_cons, Evaluation.run_bind, run_render]
  simp only [Evaluation.run_bind_done]

theorem renderAll_singleton (part : Part) : renderAll [part] = part.render := by
  simp [renderAll, renderAfter]

/-- Rendering joins the texts of the parts up to the first that fails, and asks what they ask. -/
theorem run_renderAll (context : Context) (parts : List Part) (draws : List Nat) :
    ((renderAll parts).run context draws).result =
        ((textRuns context parts draws).mapM Run.result).map String.join ∧
      ((renderAll parts).run context draws).asked =
        (textRuns context parts draws).flatMap Run.asked := by
  induction parts generalizing draws with
  | nil => exact ⟨rfl, rfl⟩
  | cons part parts ih =>
    rw [run_renderAll_cons, textRuns]
    cases hresult : (part.textRun context draws).result with
    | error e => simp [Run.andThen, hresult, Except.map, bind, Except.bind]
    | ok text =>
      obtain ⟨hrest, hasked⟩ := ih (part.textRun context draws).draws
      simp only [Run.andThen, hresult, Run.map, List.flatMap_cons, List.mapM_cons, hrest, hasked,
        and_true]
      cases (textRuns context parts (part.textRun context draws).draws).mapM Run.result with
      | error e => rfl
      | ok more => simp [Except.map, bind, Except.bind, pure, Except.pure, String.join_cons]

end Part

/-- For texts, every plan comes to joining the texts of all parts. -/
theorem Plan.evaluate_ofParts_string (parts : List Part) :
    (ofParts .string parts).evaluate = Part.renderAll parts := by
  unfold ofParts
  split
  · rw [Part.renderAll_singleton]
    simp only [evaluate, Value.cast, Value.text, Except.mapError, Evaluation.ofExcept, Part.render]
    rfl
  · rw [Part.renderAll_singleton, Part.render_eq_bind]
    rfl
  · exact Evaluation.bind_done _

/-- All plans agree. A template that is read can be compiled for every target. Its run for a target
is that of the plain value, cast at the end, and its run for a text goes through the parts in order
up to the first that fails, joins their texts, and asks nothing else. -/
theorem evaluate_eq_plain_cast {source : String} (h : Parses source) (target : Target) :
    ∃ (typed : Expression target) (plain : Expression .value) (textual : Expression .string),
      Expression.compile target source = .ok typed ∧
      Expression.compile .value source = .ok plain ∧
      Expression.compile .string source = .ok textual ∧
      ∀ context draws,
        typed.evaluate.run context draws =
          Run.cast target (plain.evaluate.run context draws) ∧
        (textual.evaluate.run context draws).result =
          ((Part.textRuns context textual.parts draws).mapM Run.result).map String.join ∧
        (textual.evaluate.run context draws).asked =
          (Part.textRuns context textual.parts draws).flatMap Run.asked := by
  obtain ⟨layout, rfl⟩ := parses_iff.mp h
  refine ⟨_, _, _, Expression.compile_text target layout, Expression.compile_text .value layout,
    Expression.compile_text .string layout, ?_⟩
  intro context draws
  constructor
  · rw [Expression.evaluate, Expression.ofTemplate, Plan.evaluate_ofParts]
    exact Evaluation.run_bind_cast context draws target _
  · rw [Expression.evaluate, Expression.ofTemplate, Plan.evaluate_ofParts_string]
    exact Part.run_renderAll context layout.parts draws

theorem evaluate_eq_plain_cast_digits :
    let source := "4$\x7bn\x7d"
    let context : Context := fun name => if name = "n" then some (.int 2) else none
    Parses source ∧
      ∃ (typed : Expression (.integer .int64)) (plain : Expression .value),
        Expression.compile (.integer .int64) source = .ok typed ∧
        Expression.compile .value source = .ok plain ∧
        typed.evaluate.run context [] =
          Run.cast (.integer .int64) (plain.evaluate.run context []) ∧
        (plain.evaluate.run context []).result = .ok (.string "42") ∧
        (typed.evaluate.run context []).result = .ok (42 : Int) ∧
        (typed.evaluate.run context []).asked = ["n"] := by
  intro source context
  let template : Template := ⟨source, [.text "4", .attribute "n"]⟩
  have hparse : Template.parse source = .ok template := by cbv
  have hparses : Parses source := ⟨template, hparse⟩
  obtain ⟨typed, plain, textual, htyped, hplain, -, hrun⟩ :=
    evaluate_eq_plain_cast hparses (.integer .int64)
  have heq : plain = .ofTemplate .value template := by
    rw [Expression.compile, hparse] at hplain
    exact (Except.ok.inj hplain).symm
  have hvalue : plain.evaluate.run context [] = ⟨.ok (.string "42"), ["n"], []⟩ := by
    rw [heq]
    cbv
  have hcast : typed.evaluate.run context [] =
      Run.cast (.integer .int64) ⟨.ok (.string "42"), ["n"], []⟩ :=
    (hrun context []).1.trans (congrArg (Run.cast (.integer .int64)) hvalue)
  refine ⟨hparses, typed, plain, htyped, hplain, (hrun context []).1, by rw [hvalue], ?_, ?_⟩
  · rw [hcast]
    cbv
  · rw [hcast]
    rfl

end Splice
