import Splice.Proofs.Diagnosis
import Splice.Proofs.Rendering

/-!
# Templates without expressions

Whether a template has expressions can be seen in its source, in its parts, in its plan and in what
it asks for. The parts of a template that has some are expressions with literals between them, none
empty and no two next to each other, so the lone literal of a source without a marker is told from
all others by its shape alone. Main statement: these notions of a static template agree, and the
plan of any other is decided by whether there is text around a single expression.
-/

namespace Splice

/-! ## Shape of the parts -/

namespace Layout

theorem opens_iff_bodies_ne_nil (layout : Layout) :
    ['$', '{'] <:+: layout.text.toList ↔ layout.bodies ≠ [] := by
  cases layout with
  | literal last => simpa [bodies] using last.closed
  | expression before body after =>
    refine iff_of_true ?_ (List.cons_ne_nil _ _)
    rw [toList_text_expression]
    exact ⟨before.text.toList, body.text.toList ++ '}' :: after.text.toList, by simp⟩

theorem part_mem_parts (before : Literal) (body : Body) (after : Layout) :
    body.part ∈ (expression before body after).parts := by
  simp [parts]

theorem segments_eq_nil {layout : Layout} (h : layout.segments = []) :
    layout = .literal default := by
  cases layout with
  | literal last =>
    have hempty : last.text = "" := by simpa [Splice.literal] using h
    rw [Literal.ext (m := default) hempty]
  | expression before body after => simp at h

/-- A lone expression is all that its template consists of. -/
theorem eq_layout_of_parts {layout : Layout} {part : Part} (h : layout.parts = [part])
    (hpart : part.isStatic = false) : ∃ body : Body, layout = body.layout := by
  cases layout with
  | literal last =>
    cases h
    cases hpart
  | expression before body after =>
    rw [parts, segments_expression, Splice.literal] at h
    · split at h
      · rename_i hbefore
        have hempty : before.text = "" := String.toList_eq_nil_iff.mp hbefore
        have hafter : after.segments = [] := (List.cons.inj h).2
        rw [Literal.ext (m := default) hempty, segments_eq_nil hafter]
        exact ⟨body, rfl⟩
      · simp at h
    · simp

/-- Between two literals there is an expression. -/
theorem isChain_segments (layout : Layout) :
    layout.segments.IsChain fun part next => ¬ (part.isStatic ∧ next.isStatic) := by
  induction layout with
  | literal last =>
    rw [segments_literal, Splice.literal]
    split <;> simp
  | expression before body after ih =>
    have hbody := body.isStatic_part
    have hrest : (body.part :: after.segments).IsChain
        fun part next => ¬ (part.isStatic ∧ next.isStatic) := by
      refine List.isChain_cons.mpr ⟨fun next _ h => ?_, ih⟩
      rw [hbody] at h
      exact Bool.false_ne_true h.1
    rw [segments_expression, Splice.literal]
    split
    · exact hrest
    · refine List.isChain_cons_cons.mpr ⟨fun h => ?_, hrest⟩
      rw [hbody] at h
      exact Bool.false_ne_true h.2

end Layout

/-! ## Names asked -/

theorem Evaluation.asked_bind_ne_nil {α β : Type} {p : Evaluation α} {context : Context}
    {draws : List Nat} (h : (p.run context draws).asked ≠ []) (f : α → Evaluation β) :
    ((p.bind f).run context draws).asked ≠ [] := by
  rw [run_bind, Run.andThen]
  cases (p.run context draws).result with
  | error e => exact h
  | ok a => exact List.append_ne_nil_of_left_ne_nil h _

theorem IndexSpec.asked_attribute (name : String) (context : Context) :
    ((IndexSpec.attribute name).lookUp context).2 = [name] := by
  simp only [lookUp]
  split
  · rfl
  · split <;> rfl

/-- An index that is not found has been asked for. -/
theorem Accessor.asked_ne_nil_of_error {accessor : Accessor} {context : Context} {e : EvalError}
    (h : (accessor.lookUp context).1 = .error e) : (accessor.lookUp context).2 ≠ [] := by
  obtain ⟨name, rfl, -⟩ := eq_of_lookUp_error h
  rw [lookUp, IndexSpec.asked_attribute]
  exact List.cons_ne_nil _ _

/-- An expression asks at least for its root, unless it fails at an index that it asked for. -/
theorem Body.asked_ne_nil (body : Body) (context : Context) (draws : List Nat) :
    (body.part.eval.run context draws).asked ≠ [] := by
  induction body with
  | root token =>
    simp [part, Part.eval, Evaluation.require, Evaluation.bind, Evaluation.run]
  | select front selector ih =>
    rw [part, Part.eval_access, Evaluation.run_bind, Accessor.run_resolve, Run.andThen]
    cases hlookUp : (selector.accessor.lookUp context).1 with
    | error e => exact Accessor.asked_ne_nil_of_error hlookUp
    | ok resolved =>
      exact List.append_ne_nil_of_right_ne_nil _ (Evaluation.asked_bind_ne_nil ih _)

theorem Part.asked_renderAll_literal_append (cs : List Char) (parts : List Part)
    (context : Context) (draws : List Nat) :
    ((renderAll (literal cs ++ parts)).run context draws).asked =
      ((renderAll parts).run context draws).asked := by
  rw [renderAll_literal_append, Evaluation.append, Evaluation.bind, Evaluation.run_bind_done]
  rfl

theorem Layout.asked_renderAll_eq_nil_iff (layout : Layout) (context : Context)
    (draws : List Nat) :
    ((Part.renderAll layout.segments).run context draws).asked = [] ↔ layout.bodies = [] := by
  cases layout with
  | literal last =>
    refine iff_of_true ?_ rfl
    rw [segments_literal, ← List.append_nil (Splice.literal _),
      Part.asked_renderAll_literal_append]
    rfl
  | expression before body after =>
    refine iff_of_false ?_ (List.cons_ne_nil _ _)
    rw [segments_expression, Part.asked_renderAll_literal_append, Part.renderAll_cons,
      Part.render_eq_bind, Evaluation.bind_bind]
    exact Evaluation.asked_bind_ne_nil (body.asked_ne_nil context draws) _

/-- Whatever the target, evaluation asks for what rendering does. -/
theorem Plan.asked_evaluate_ofParts (target : Target) (parts : List Part) (context : Context)
    (draws : List Nat) :
    ((ofParts target parts).evaluate.run context draws).asked =
      ((Part.renderAll parts).run context draws).asked := by
  have hvalue (target : Target) : ((ofParts target parts).evaluate.run context draws).asked =
      ((ofParts .value parts).evaluate.run context draws).asked := by
    rw [evaluate_ofParts target]
    exact congrArg Run.asked (Evaluation.run_bind_cast context draws target _)
  rw [hvalue target, ← hvalue .string, evaluate_ofParts_string]
  rfl

/-! ## Plans -/

namespace Plan

variable {target : Target} {parts : List Part}

theorem isConstant_ofParts_iff :
    (ofParts target parts).isConstant = true ↔ ∃ content, parts = [.text content] := by
  unfold ofParts
  split
  · simp [isConstant]
  · rename_i part hpart
    simpa [isConstant] using hpart
  · rename_i hparts
    refine iff_of_false Bool.false_ne_true ?_
    rintro ⟨content, h⟩
    exact hparts _ h

theorem name_ofParts_eq_single_iff :
    (ofParts target parts).name = "single" ↔ ∃ part, parts = [part] ∧ part.isStatic = false := by
  unfold ofParts
  split
  · simp [name, Part.isStatic]
  · rename_i part hpart
    cases part <;> simp_all [name, Part.isStatic]
  · rename_i hparts
    refine iff_of_false (by simp [name]) ?_
    rintro ⟨part, h, -⟩
    exact hparts part h

theorem name_eq_concat_iff (plan : Plan target) :
    plan.name = "concat" ↔ plan.isConstant = false ∧ plan.name ≠ "single" := by
  cases plan <;> simp [name, isConstant]

end Plan

namespace Layout

variable (layout : Layout)

theorem all_isStatic_parts_iff : layout.parts.all Part.isStatic = true ↔ layout.bodies = [] := by
  cases layout with
  | literal last => exact iff_of_true rfl rfl
  | expression before body after =>
    refine iff_of_false (fun h => ?_) (List.cons_ne_nil _ _)
    have hbody := List.all_eq_true.mp h body.part (part_mem_parts before body after)
    rw [body.isStatic_part] at hbody
    cases hbody

theorem exists_parts_eq_text_iff :
    (∃ content, layout.parts = [.text content]) ↔ layout.bodies = [] := by
  cases layout with
  | literal last => exact iff_of_true ⟨last.text, rfl⟩ rfl
  | expression before body after =>
    refine iff_of_false ?_ (List.cons_ne_nil _ _)
    rintro ⟨content, h⟩
    have hbody := part_mem_parts before body after
    rw [h, List.mem_singleton] at hbody
    exact body.part_ne_text content hbody

theorem parts_eq_text_iff : layout.parts = [.text layout.text] ↔ layout.bodies = [] := by
  constructor
  · intro h
    exact layout.exists_parts_eq_text_iff.mp ⟨layout.text, h⟩
  · intro h
    cases layout with
    | literal last => rfl
    | expression before body after => cases h

theorem asked_evaluate_eq_nil_iff (source : String) (target : Target) (context : Context)
    (draws : List Nat) :
    ((Expression.ofTemplate target ⟨source, layout.parts⟩).evaluate.run context draws).asked = [] ↔
      layout.bodies = [] := by
  rw [Expression.evaluate, Expression.ofTemplate, Plan.asked_evaluate_ofParts,
    layout.parts_eq_orEmpty, Part.renderAll_orEmpty, asked_renderAll_eq_nil_iff]

theorem name_ofParts_eq_single_iff_text (target : Target) :
    (Plan.ofParts target layout.parts).name = "single" ↔
      ∃ body : Body, layout.text = "$\x7b" ++ body.text ++ "\x7d" := by
  rw [Plan.name_ofParts_eq_single_iff]
  constructor
  · rintro ⟨part, hparts, hpart⟩
    obtain ⟨body, rfl⟩ := eq_layout_of_parts hparts hpart
    exact ⟨body, body.text_layout⟩
  · rintro ⟨body, h⟩
    obtain rfl := text_injective (h.trans body.text_layout.symm)
    exact ⟨body.part, body.parts_layout, body.isStatic_part⟩

end Layout

/-- A template that is read compiles for every target. That it is static can be told from its parts,
from its plan, from the markers in its source, from its being a lone literal, and from what it asks
for. A template with a marker has an expression and no literal that is empty or next to another, and
asks for something in every evaluation. It is evaluated by the single plan where an expression is
all of its source, and by concatenation otherwise. -/
theorem static_tfae_and_plan {source : String} {template : Template}
    (h : Template.parse source = .ok template) (target : Target) :
    ∃ expression : Expression target,
      Expression.compile target source = .ok expression ∧ expression.template = template ∧
      List.TFAE [
        template.isStatic = true,
        expression.isStatic = true,
        ¬ ['$', '{'] <:+: source.toList,
        template.parts = [.text source],
        ∀ context draws, (expression.evaluate.run context draws).asked = []] ∧
      (['$', '{'] <:+: source.toList →
        (∃ part ∈ template.parts, part.isStatic = false) ∧
        .text "" ∉ template.parts ∧
        template.parts.IsChain (fun part next => ¬ (part.isStatic ∧ next.isStatic)) ∧
        ∀ context draws, (expression.evaluate.run context draws).asked ≠ []) ∧
      (expression.plan.name = "single" ↔
        ∃ body : Body, source = "$\x7b" ++ body.text ++ "\x7d") ∧
      (expression.plan.name = "concat" ↔ ['$', '{'] <:+: source.toList ∧
        ¬ ∃ body : Body, source = "$\x7b" ++ body.text ++ "\x7d") := by
  obtain ⟨layout, rfl, rfl⟩ := Template.exists_of_parse_ok h
  have hasked := layout.asked_evaluate_eq_nil_iff layout.text target
  have hconstant : (Plan.ofParts target layout.parts).isConstant = true ↔ layout.bodies = [] :=
    Plan.isConstant_ofParts_iff.trans layout.exists_parts_eq_text_iff
  have hsingle := layout.name_ofParts_eq_single_iff_text target
  refine ⟨_, Expression.compile_text target layout, rfl, ?_, ?_, hsingle, ?_⟩
  · refine List.tfae_of_forall (layout.bodies = []) _ ?_
    simp only [List.forall_mem_cons, List.not_mem_nil, false_implies, implies_true, and_true]
    refine ⟨layout.all_isStatic_parts_iff, hconstant, ?_, layout.parts_eq_text_iff, ?_⟩
    · rw [layout.opens_iff_bodies_ne_nil, not_not]
    · exact ⟨fun hall => (hasked (fun _ => none) []).mp (hall _ _),
        fun hbodies context draws => (hasked context draws).mpr hbodies⟩
  · intro hopens
    have hbodies := layout.opens_iff_bodies_ne_nil.mp hopens
    have hparts : layout.parts = layout.segments := by
      cases layout with
      | literal last => exact absurd rfl hbodies
      | expression before body after => rfl
    refine ⟨?_, ?_, ?_, fun context draws => mt (hasked context draws).mp hbodies⟩
    · have hstatic := mt layout.all_isStatic_parts_iff.mp hbodies
      simpa using hstatic
    · simp [hparts, Layout.segments]
    · rw [hparts]
      exact layout.isChain_segments
  · rw [Expression.ofTemplate, Plan.name_eq_concat_iff, ← hsingle, layout.opens_iff_bodies_ne_nil,
      ← Bool.not_eq_true, hconstant]

theorem static_tfae_and_plan_dollar :
    let source := "$$\x7bn(0)\x7d"
    let template : Template :=
      ⟨source, [.text "$", .access (.attribute "n") "n" (.index (.literal 0))]⟩
    Template.parse source = .ok template ∧
      ∃ expression : Expression (.integer .int64),
        Expression.compile (.integer .int64) source = .ok expression ∧
        template.isStatic = false ∧ expression.isStatic = false ∧
        expression.plan.name = "concat" ∧
        (∀ context draws, (expression.evaluate.run context draws).asked ≠ []) ∧
        ¬ ∃ body : Body, source = "$\x7b" ++ body.text ++ "\x7d" := by
  intro source template
  have hparse : Template.parse source = .ok template := by cbv
  obtain ⟨expression, hcompile, htemplate, hstatic, hopens, -, hconcat⟩ :=
    static_tfae_and_plan hparse (.integer .int64)
  have hmarker : ['$', '{'] <:+: source.toList := by decide
  have hplan : expression.plan.name = "concat" := by
    have heq : Expression.compile (.integer .int64) source =
        .ok (.ofTemplate (.integer .int64) template) := Expression.compile_of_parse_ok hparse
    rw [hcompile] at heq
    rw [Except.ok.inj heq]
    rfl
  have hexpression : expression.isStatic = false := by
    have hiff := hstatic.out 1 2
    simpa [hmarker] using hiff
  exact ⟨hparse, expression, hcompile, rfl, hexpression, hplan, (hopens hmarker).2.2.2,
    (hconcat.mp hplan).2⟩

end Splice
