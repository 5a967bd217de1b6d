import Splice.Proofs.Guarded
import Splice.Scope

/-!
# What a run depends on

A run sees of its context only the answers to the names it asks for, and which names these are
depends on earlier answers alone. A guarded run, besides, ends at the first name without a value.
Main statement: two contexts that agree on the names asked give the same run, and a context with
more names in it another run only where the first one failed for a name that has a value now.
-/

namespace Splice
namespace Evaluation

variable {α : Type} {context context' : Context}

theorem run_congr {p : Evaluation α} {draws : List Nat}
    (h : ∀ name ∈ (p.run context draws).asked, context' name = context name) :
    p.run context' draws = p.run context draws := by
  induction p generalizing draws with
  | done result => rfl
  | fail error => rfl
  | ask name next ih =>
    have hname : context' name = context name := h name List.mem_cons_self
    -- The same answer leads on to the same evaluation, whose names are among those asked.
    have hnext : (next (context name)).run context' draws = (next (context name)).run context draws :=
      ih _ fun other hother => h other (List.mem_cons_of_mem name hother)
    simp only [run, hname, hnext]
  | draw bound next ih => exact ih _ h

/-- A guarded run that asked for a name without a value has failed for it. -/
theorem Guarded.result_of_mem_asked {p : Evaluation α} (hp : p.Guarded) {draws : List Nat}
    {name : String} (hasked : name ∈ (p.run context draws).asked) (hname : context name = none) :
    (p.run context draws).result = .error (.undefinedAttribute name) := by
  induction hp generalizing draws with
  | done result => cases hasked
  | fail error => cases hasked
  | @ask first next hnone _ ih =>
    cases hfirst : context first with
    | none =>
      simp only [run, hfirst, hnone, List.mem_singleton] at hasked ⊢
      rw [hasked]
    | some value =>
      simp only [run, hfirst, List.mem_cons] at hasked ⊢
      rcases hasked with rfl | hasked
      · rw [hname] at hfirst
        cases hfirst
      · exact ih value hasked
  | draw hbound _ ih => exact ih _ (Nat.mod_lt _ hbound) hasked

/-- More names with values change a guarded run only where it failed for one of them. -/
theorem Guarded.run_extend {p : Evaluation α} (hp : p.Guarded) (draws : List Nat)
    (hextend : ∀ name value, context name = some value → context' name = some value) :
    p.run context' draws = p.run context draws ∨
      ∃ name value, (p.run context draws).result = .error (.undefinedAttribute name) ∧
        context name = none ∧ context' name = some value := by
  by_cases hagree : ∀ name ∈ (p.run context draws).asked, context' name = context name
  · exact Or.inl (run_congr hagree)
  · push Not at hagree
    obtain ⟨name, hasked, hne⟩ := hagree
    have hnone : context name = none := by
      cases hname : context name with
      | none => rfl
      | some value => exact absurd ((hextend name value hname).trans hname.symm) hne
    obtain ⟨value, hvalue⟩ := Option.ne_none_iff_exists'.mp (hnone ▸ hne)
    exact Or.inr ⟨name, value, hp.result_of_mem_asked hasked hnone, hnone, hvalue⟩

end Evaluation

open Evaluation

/-- A run depends on the names it asks for and on nothing else. A context of any kind that has the
same answers for them gives the same result, asks the same names in the same order and leaves the
same draws. A context that only adds to the first gives the same run too, unless that ended at an
attribute which was not defined there and is defined now. -/
theorem evaluate_depends_on_asked {target : Target} (expression : Expression target)
    (context context' : Context) (draws : List Nat) :
    ((∀ name ∈ (expression.evaluate.run context draws).asked, context' name = context name) →
      expression.evaluate.run context' draws = expression.evaluate.run context draws) ∧
    ((∀ name value, context name = some value → context' name = some value) →
      expression.evaluate.run context' draws = expression.evaluate.run context draws ∨
        ∃ name value,
          (expression.evaluate.run context draws).result = .error (.undefinedAttribute name) ∧
          context name = none ∧ context' name = some value) := by
  constructor
  · exact run_congr
  · exact expression.plan.guarded_evaluate.run_extend draws

theorem evaluate_depends_on_asked_scope :
    let scope : Scope :=
      ((({} : Scope).insert "a" (.list [.string "x", .string "y"])).child).insert "i" (.int 1)
    let entries : List (String × Value) :=
      [("a", .list [.string "x", .string "y"]), ("b", .null), ("i", .int 1)]
    let context : Context := fun name => entries.lookup name
    ∃ short long : Expression .string,
      Expression.compile .string "$\x7ba(i)\x7d" = .ok short ∧
      Expression.compile .string "$\x7ba(i)\x7d$\x7bb\x7d" = .ok long ∧
      (∀ name ∈ (short.evaluate.run scope.get? []).asked, context name = scope.get? name) ∧
      short.evaluate.run context [] = short.evaluate.run scope.get? [] ∧
      short.evaluate.run scope.get? [] = ⟨.ok "y", ["i", "a"], []⟩ ∧
      (∀ name value, scope.get? name = some value → context name = some value) ∧
      (long.evaluate.run context [] = long.evaluate.run scope.get? [] ∨
        ∃ name value, (long.evaluate.run scope.get? []).result = .error (.undefinedAttribute name) ∧
          scope.get? name = none ∧ context name = some value) ∧
      (long.evaluate.run context []).result = .ok "ynull" := by
  intro scope entries context
  let index : Part := .access (.attribute "a") "a" (.index (.attribute "i"))
  let short : Template := ⟨"$\x7ba(i)\x7d", [index]⟩
  let long : Template := ⟨"$\x7ba(i)\x7d$\x7bb\x7d", [index, .attribute "b"]⟩
  have hshort : Expression.compile .string short.source = .ok (.ofTemplate .string short) :=
    Expression.compile_of_parse_ok (by cbv)
  have hlong : Expression.compile .string long.source = .ok (.ofTemplate .string long) :=
    Expression.compile_of_parse_ok (by cbv)
  have hrun : (Expression.ofTemplate .string short).evaluate.run scope.get? [] =
      ⟨.ok "y", ["i", "a"], []⟩ := by cbv
  have hasked : ∀ name ∈ ((Expression.ofTemplate .string short).evaluate.run scope.get? []).asked,
      context name = scope.get? name := by
    rw [hrun]
    rintro name (_ | ⟨_, _ | ⟨_, h⟩⟩)
    · cbv
    · cbv
    · cases h
  have hextend : ∀ name value, scope.get? name = some value → context name = some value := by
    intro name value h
    by_cases hi : name = "i"
    · subst hi
      exact h
    · by_cases ha : name = "a"
      · subst ha
        exact h
      · rw [Scope.get?_insert_of_ne _ hi, Scope.get?_child, Scope.get?_insert_of_ne _ ha] at h
        cases h
  refine ⟨_, _, hshort, hlong, hasked, ?_, hrun, hextend, ?_, by cbv⟩
  · exact (evaluate_depends_on_asked _ scope.get? context []).1 hasked
  · exact (evaluate_depends_on_asked _ scope.get? context []).2 hextend

end Splice
