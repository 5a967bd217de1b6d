import Splice.Expression
import Splice.Proofs.TwoPhase

/-!
# Guarded evaluations

The evaluation of an expression goes on only where there is something to go on with. A name without
a value ends it with the failure for that name, and a position is drawn only from a list that has
one. Both are said of the tree of an evaluation, are kept by sequencing, and so pass from accessors
to parts, from parts to texts and from these to every plan.
-/

namespace Splice
namespace Evaluation

variable {α β : Type}

/-- A name without a value ends the evaluation, which fails for it; and wherever a position is
drawn there is one. -/
inductive Guarded : Evaluation α → Prop
  | done (result : α) : Guarded (done result)
  | fail (error : EvalError) : Guarded (fail error)
  | ask {name : String} {next : Option Value → Evaluation α} :
      next none = .fail (.undefinedAttribute name) → (∀ value, Guarded (next (some value))) →
      Guarded (ask name next)
  | draw {bound : Nat} {next : Nat → Evaluation α} :
      0 < bound → (∀ position < bound, Guarded (next position)) → Guarded (draw bound next)

theorem Guarded.bind {p : Evaluation α} {f : α → Evaluation β} (hp : p.Guarded)
    (hf : ∀ a, (f a).Guarded) : (p.bind f).Guarded := by
  induction hp with
  | done result => exact hf result
  | fail error => exact .fail error
  | ask hnone _ ih => exact .ask (by rw [hnone, Evaluation.bind]) ih
  | draw hbound _ ih => exact .draw hbound ih

theorem guarded_ofExcept (result : Except EvalError α) : (ofExcept result).Guarded := by
  cases result with
  | error e => exact .fail e
  | ok a => exact .done a

theorem guarded_require (name : String) : (require name).Guarded :=
  .ask rfl fun value => .done value

theorem cast_eq_ofExcept (target : Target) (value : Value) :
    cast target value = ofExcept ((value.cast target).mapError .cast) := by
  unfold cast
  cases value.cast target <;> rfl

theorem guarded_cast (target : Target) (value : Value) : (cast target value).Guarded :=
  cast_eq_ofExcept target value ▸ guarded_ofExcept _

end Evaluation

/-! ## Expressions are guarded -/

open Evaluation

theorem IndexSpec.guarded_resolve : ∀ spec : IndexSpec, spec.resolve.Guarded
  | .literal n => .done n
  | .attribute name =>
    (guarded_require name).bind fun value =>
      (guarded_cast (.integer .int64) value).bind fun index => .done (Int64.ofInt index)

theorem Accessor.guarded_resolve : ∀ accessor : Accessor, accessor.resolve.Guarded
  | .index spec => spec.guarded_resolve.bind fun index => .done (Resolved.index index)
  | .key _ => .done _
  | .size => .done _
  | .random => .done _

theorem Found.guarded_atRandom (found : Found) (path : String) :
    (found.atRandom path).Guarded := by
  unfold Found.atRandom
  split
  · exact .fail _
  · rename_i hchoices
    refine .draw (Nat.pos_of_ne_zero hchoices) fun position _ => ?_
    split
    · exact .done _
    · exact .fail _

theorem Resolved.guarded_evaluate (accessor : Resolved) (path : String) (found : Found) :
    (accessor.evaluate path found).Guarded := by
  by_cases hrandom : accessor = .random
  · rw [hrandom]
    exact found.guarded_atRandom path
  · rw [(evaluate_of_ne_random hrandom path found []).1]
    exact guarded_ofExcept _

namespace Part

theorem guarded_eval : ∀ part : Part, part.eval.Guarded
  | .text content => .done _
  | .attribute name => (guarded_require name).bind fun value => .done (⟨value, .stored⟩ : Found)
  | .access child path accessor => by
    rw [eval_access]
    refine accessor.guarded_resolve.bind fun resolved => ?_
    exact (guarded_eval child).bind (resolved.guarded_evaluate path)

theorem guarded_render (part : Part) : part.render.Guarded := by
  rw [render_eq_bind]
  exact part.guarded_eval.bind fun found => .done found.value.text

theorem guarded_renderAll (parts : List Part) : (renderAll parts).Guarded := by
  induction parts with
  | nil => exact .done ""
  | cons part parts ih =>
    rw [renderAll_cons]
    exact part.guarded_render.bind fun text => ih.bind fun rest => .done (text ++ rest)

end Part

theorem Plan.guarded_evaluate {target : Target} : ∀ plan : Plan target, plan.evaluate.Guarded
  | .constant _ => guarded_ofExcept _
  | .single part => part.guarded_eval.bind fun found => guarded_cast target found.value
  | .concat parts =>
    (Part.guarded_renderAll parts).bind fun text => guarded_cast target (.string text)

end Splice
