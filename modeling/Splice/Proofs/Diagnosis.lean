import Splice.Proofs.Reading
import Splice.Proofs.TwoPhase

/-!
# Failures as diagnoses

The path in a failure is the front of an expression body as it was written, up to the selector that
failed. Put between markers it is a template again, and its value is the one that the selector was
applied to. Main statement: every failure of a template without random elements explains itself so,
or names an attribute that is not bound.
-/

namespace Splice

/-! ## Fronts of bodies -/

/-- One body is the other without some of its last selectors. -/
inductive Body.IsFront (front : Body) : Body → Prop
  | refl : IsFront front front
  | select {body : Body} (selector : Selector) :
      IsFront front body → IsFront front (body.select selector)

namespace Body

/-- The tokens of a body that can name attributes: its root and its indices. -/
def names : Body → List String
  | root token => [token.text]
  | select front (.index token) => token.text :: front.names
  | select front (.dot _) => front.names

theorem IsFront.of_select {front body : Body} {selector : Selector}
    (h : (front.select selector).IsFront body) : front.IsFront body := by
  induction h with
  | refl => exact .select selector .refl
  | select last _ ih => exact .select last ih

theorem IsFront.exists_text {front body : Body} (h : front.IsFront body) :
    ∃ rest, body.text = front.text ++ rest := by
  induction h with
  | refl => exact ⟨"", by simp⟩
  | select selector _ ih =>
    obtain ⟨rest, hrest⟩ := ih
    exact ⟨rest ++ selector.text, by rw [text, hrest, String.append_assoc]⟩

theorem IsFront.names_subset {front body : Body} (h : front.IsFront body) :
    ∀ name ∈ front.names, name ∈ body.names := by
  induction h with
  | refl => exact fun _ hname => hname
  | select selector _ ih =>
    intro name hname
    cases selector with
    | index token => exact List.mem_cons_of_mem _ (ih name hname)
    | dot token => exact ih name hname

end Body

/-! ## Parts without random elements -/

def Part.NoRandom : Part → Prop
  | .text _ | .attribute _ => True
  | .access child _ accessor => child.NoRandom ∧ accessor ≠ .random

theorem Resolved.apply_congr {accessor : Resolved} (h : accessor ≠ .random) (path : String)
    (found : Found) (draws draws' : List Nat) :
    (accessor.apply path found draws).1 = (accessor.apply path found draws').1 := by
  have heval := (evaluate_of_ne_random h path found draws).1
  rw [(evaluate_of_ne_random h path found draws').1] at heval
  exact (Evaluation.ofExcept_injective heval).symm

theorem Part.result_congr (context : Context) (draws draws' : List Nat) :
    ∀ part : Part, part.NoRandom →
      (part.eval.run context draws).result = (part.eval.run context draws').result
  | .text content, _ => rfl
  | .attribute name, _ => by
    simp only [eval, Evaluation.require, Evaluation.bind_eq, Evaluation.bind, Evaluation.run]
    cases context name <;> rfl
  | .access child path accessor, h => by
    rw [result_access, result_access, result_congr context draws draws' child h.1]
    cases hlookUp : (accessor.lookUp context).1 with
    | error e => rfl
    | ok resolved =>
      cases (child.eval.run context draws').result with
      | error e => rfl
      | ok found =>
        exact Resolved.apply_congr (Accessor.lookUp_ne_random h.2 hlookUp) path found _ _

/-! ## Diagnoses -/

/-- Whether the values of a shape support an accessor. -/
def Shape.supports : Shape → Accessor → Bool
  | .sequence, .index _ | .sequence, .size | .sequence, .random => true
  | .set, .size => true
  | .mapping, .size | .mapping, .key _ => true
  | _, _ => false

/-- A path is the text of the front of some body, up to a selector for the accessor. -/
def Layout.At (layout : Layout) (path : String) (accessor : Accessor) : Prop :=
  ∃ body ∈ layout.bodies, ∃ (front : Body) (selector : Selector) (rest : String),
    front.text = path ∧ selector.accessor = accessor ∧ (front.select selector).IsFront body ∧
      body.text = path ++ selector.text ++ rest

/-- The path between markers compiles, and evaluates to the value whatever is drawn. -/
def Reevaluates (context : Context) (path : String) (value : Value) : Prop :=
  ∃ expression : Expression .value,
    Expression.compile .value ("$\x7b" ++ path ++ "\x7d") = .ok expression ∧
      ∀ draws, (expression.evaluate.run context draws).result = .ok value

/-- The path has the value, in front of a selector that values of its shape do not support. -/
def Layout.Refuses (layout : Layout) (context : Context) (path : String) (value : Value)
    (accessor : Accessor) : Prop :=
  Reevaluates context path value ∧ value.shape.supports accessor = false ∧ layout.At path accessor

/-- What a failure says of the template and the context it arose in. A failed cast names no path,
and so says nothing here. -/
def Layout.Diagnoses (layout : Layout) (context : Context) : EvalError → Prop
  | .sizeNotSupported value path => layout.Refuses context path value .size
  | .keyAccessNotSupported value path => ∃ key, layout.Refuses context path value (.key key)
  | .indexNotSupported value path => ∃ spec, layout.Refuses context path value (.index spec)
  | .undefinedIndex path index =>
    ∃ items spec, Reevaluates context path (.list items) ∧
      ¬ (0 ≤ index.toInt ∧ index.toInt < items.length) ∧
      (spec.lookUp context).1 = .ok index ∧ layout.At path (.index spec)
  | .undefinedKey path key =>
    ∃ entries, Reevaluates context path (.map entries) ∧ entries.lookup key = none ∧
      layout.At path (.key key)
  | .undefinedAttribute name => context name = none ∧ ∃ body ∈ layout.bodies, name ∈ body.names
  | .randomNotSupported _ _ => False
  | .cast _ => True

/-- A body alone in a template has the value that its part has. -/
theorem Body.reevaluates (body : Body) {context : Context} {draws : List Nat} {found : Found}
    (hrandom : body.part.NoRandom)
    (h : (body.part.eval.run context draws).result = .ok found) :
    Reevaluates context body.text found.value := by
  refine ⟨_, Expression.compile_body .value body, ?_⟩
  intro draws'
  rw [Part.result_congr context draws draws' body.part hrandom] at h
  rw [Expression.evaluate, Plan.evaluate, Evaluation.bind_eq, Evaluation.run_bind, Run.andThen, h]
  rfl

theorem Layout.exists_of_mem_pieces {part : Part} :
    ∀ layout : Layout, part ∈ layout.pieces →
      (∃ content, part = .text content) ∨ ∃ body ∈ layout.bodies, part = body.part
  | literal last, h => by
    rw [pieces, List.mem_singleton] at h
    exact Or.inl ⟨last.text, h⟩
  | expression before body after, h => by
    rcases List.mem_cons.mp h with rfl | h
    · exact Or.inl ⟨before.text, rfl⟩
    rcases List.mem_cons.mp h with rfl | h
    · exact Or.inr ⟨body, List.mem_cons_self, rfl⟩
    rcases exists_of_mem_pieces after h with htext | ⟨inner, hmem, hpart⟩
    · exact Or.inl htext
    · exact Or.inr ⟨inner, List.mem_cons_of_mem _ hmem, hpart⟩

theorem Layout.exists_of_mem_parts {layout : Layout} {part : Part} (h : part ∈ layout.parts) :
    (∃ content, part = .text content) ∨ ∃ body ∈ layout.bodies, part = body.part := by
  apply exists_of_mem_pieces
  cases layout with
  | literal last => exact h
  | expression before body after => exact (List.mem_filter.mp h).1

/-! ## Where failures arise -/

/-- An accessor that cannot be resolved has an attribute as its index, which is not bound or holds
no index. -/
theorem Accessor.eq_of_lookUp_error {accessor : Accessor} {context : Context} {e : EvalError}
    (h : (accessor.lookUp context).1 = .error e) :
    ∃ name, accessor = .index (.attribute name) ∧
      ((context name = none ∧ e = .undefinedAttribute name) ∨ ∃ error, e = .cast error) := by
  match accessor with
  | .key name => cases h
  | .size => cases h
  | .random => cases h
  | .index (.literal n) => cases h
  | .index (.attribute name) =>
    refine ⟨name, rfl, ?_⟩
    simp only [lookUp, IndexSpec.lookUp] at h
    cases hname : context name with
    | none =>
      simp only [hname, Except.map, Except.error.injEq] at h
      exact Or.inl ⟨rfl, h.symm⟩
    | some value =>
      cases hcast : value.cast (.integer .int64) with
      | ok n => simp [hname, hcast, Except.map] at h
      | error error =>
        simp only [hname, hcast, Except.map, Except.error.injEq] at h
        exact Or.inr ⟨error, h.symm⟩

theorem Selector.eq_index_of_accessor {selector : Selector} {name : String}
    (h : selector.accessor = .index (.attribute name)) :
    ∃ token : Token, selector = .index token ∧ token.text = name := by
  cases selector with
  | index token =>
    refine ⟨token, rfl, ?_⟩
    simp only [accessor, Accessor.index.injEq, IndexSpec.ofToken] at h
    split at h
    · cases h
    · exact IndexSpec.attribute.inj h
  | dot token =>
    simp only [accessor] at h
    split at h
    · cases h
    · split at h <;> cases h

/-- An accessor that fails on the value of its path says so. -/
theorem Layout.diagnoses_of_apply_error {layout : Layout} {context : Context} {path : String}
    {found : Found} {accessor : Accessor} {resolved : Resolved} {draws : List Nat} {e : EvalError}
    (hvalue : Reevaluates context path found.value) (hat : layout.At path accessor)
    (hrandom : accessor ≠ .random) (hlookUp : (accessor.lookUp context).1 = .ok resolved)
    (h : (resolved.apply path found draws).1 = .error e) : layout.Diagnoses context e := by
  obtain ⟨value, origin⟩ := found
  cases accessor with
  | random => exact absurd rfl hrandom
  | size =>
    cases hlookUp
    cases value with
    | list items => cases h
    | set items => cases h
    | map entries => cases h
    | _ => cases h; exact ⟨hvalue, rfl, hat⟩
  | key key =>
    cases hlookUp
    cases value with
    | map entries =>
      cases hentry : entries.lookup key with
      | some value => simp [Resolved.apply, hentry] at h
      | none =>
        simp only [Resolved.apply, hentry, Except.error.injEq] at h
        subst h
        exact ⟨entries, hvalue, hentry, hat⟩
    | _ => cases h; exact ⟨key, hvalue, rfl, hat⟩
  | index spec =>
    cases hspec : (spec.lookUp context).1 with
    | error e => simp [Accessor.lookUp, hspec, Except.map] at hlookUp
    | ok n =>
      simp only [Accessor.lookUp, hspec, Except.map, Except.ok.injEq] at hlookUp
      subst hlookUp
      cases value with
      | list items =>
        by_cases hn : 0 ≤ n.toInt ∧ n.toInt < items.length
        · simp [Resolved.apply, hn] at h
        · simp only [Resolved.apply, dif_neg hn, Except.error.injEq] at h
          subst h
          exact ⟨items, spec, hvalue, hn, hspec, hat⟩
      | _ => cases h; exact ⟨spec, hvalue, rfl, hat⟩

theorem Layout.diagnoses_of_body_error {layout : Layout} {body : Body}
    (hmem : body ∈ layout.bodies) {context : Context} {draws : List Nat} {e : EvalError}
    {front : Body} (hfront : front.IsFront body) (hrandom : front.part.NoRandom)
    (h : (front.part.eval.run context draws).result = .error e) :
    layout.Diagnoses context e := by
  induction front with
  | root token =>
    simp only [Body.part, Part.eval, Evaluation.require, Evaluation.bind_eq, Evaluation.bind,
      Evaluation.run] at h
    cases hname : context token.text with
    | some value => simp [hname, Evaluation.bind, Evaluation.run] at h
    | none =>
      simp only [hname, Evaluation.bind, Evaluation.run, Except.error.injEq] at h
      subst h
      exact ⟨hname, body, hmem, hfront.names_subset _ (by simp [Body.names])⟩
  | select front selector ih =>
    rw [Body.part, Part.result_access] at h
    cases hlookUp : (selector.accessor.lookUp context).1 with
    | error e' =>
      simp only [hlookUp, Except.bind, Except.error.injEq] at h
      subst h
      obtain ⟨name, haccessor, ⟨hname, rfl⟩ | ⟨error, rfl⟩⟩ := Accessor.eq_of_lookUp_error hlookUp
      · obtain ⟨token, rfl, rfl⟩ := Selector.eq_index_of_accessor haccessor
        exact ⟨hname, body, hmem, hfront.names_subset _ (by simp [Body.names])⟩
      · exact trivial
    | ok resolved =>
      cases hchild : (front.part.eval.run context draws).result with
      | error e' =>
        simp only [hlookUp, hchild, Except.bind, Except.error.injEq] at h
        subst h
        exact ih hfront.of_select hrandom.1 hchild
      | ok found =>
        simp only [hlookUp, hchild, Except.bind] at h
        obtain ⟨rest, hrest⟩ := hfront.exists_text
        have hat : layout.At front.text selector.accessor :=
          ⟨body, hmem, front, selector, rest, rfl, rfl, hfront, hrest⟩
        exact diagnoses_of_apply_error (front.reevaluates hrandom.1 hchild) hat hrandom.2 hlookUp h

/-! ## Whole expressions -/

namespace Evaluation

variable {α β : Type} {context : Context} {draws : List Nat} {e : EvalError}

/-- A failure in a sequence is one of its first evaluation, or one of what follows its result. -/
theorem error_of_bind {p : Evaluation α} {f : α → Evaluation β}
    (h : ((p.bind f).run context draws).result = .error e) :
    (p.run context draws).result = .error e ∨
      ∃ a draws', ((f a).run context draws').result = .error e := by
  rw [run_bind] at h
  cases hresult : (p.run context draws).result with
  | error e' =>
    simp only [Run.andThen, hresult, Except.error.injEq] at h
    exact Or.inl (by rw [h])
  | ok a =>
    simp only [Run.andThen, hresult] at h
    exact Or.inr ⟨a, _, h⟩

theorem error_of_map {p : Evaluation α} {f : α → β}
    (h : ((p.bind fun a => done (f a)).run context draws).result = .error e) :
    (p.run context draws).result = .error e := by
  rcases error_of_bind h with h | ⟨a, draws', h⟩
  · exact h
  · cases h

theorem error_of_cast {target : Target} {p : Evaluation α} {f : α → Value}
    (h : ((p.bind fun a => cast target (f a)).run context draws).result = .error e) :
    (p.run context draws).result = .error e ∨ ∃ error, e = .cast error := by
  rcases error_of_bind h with h | ⟨a, draws', h⟩
  · exact Or.inl h
  · rw [cast] at h
    cases hcast : (f a).cast target with
    | ok result => simp [hcast, run] at h
    | error error =>
      simp only [hcast, run, Except.error.injEq] at h
      exact Or.inr ⟨error, h.symm⟩

end Evaluation

theorem Part.eval_error_of_render_error {context : Context} {draws : List Nat} {e : EvalError}
    (part : Part) (h : (part.render.run context draws).result = .error e) :
    (part.eval.run context draws).result = .error e := by
  rw [render_eq_bind] at h
  exact Evaluation.error_of_map h

theorem Part.exists_of_renderAll_error {context : Context} {e : EvalError} {parts : List Part}
    {draws : List Nat} (h : ((renderAll parts).run context draws).result = .error e) :
    ∃ part ∈ parts, ∃ draws', (part.eval.run context draws').result = .error e := by
  induction parts generalizing draws with
  | nil => cases h
  | cons part parts ih =>
    rw [renderAll_cons] at h
    rcases Evaluation.error_of_bind h with hpart | ⟨text, draws', h⟩
    · exact ⟨part, List.mem_cons_self, draws, eval_error_of_render_error part hpart⟩
    · obtain ⟨inner, hmem, hinner⟩ := ih (Evaluation.error_of_map h)
      exact ⟨inner, List.mem_cons_of_mem _ hmem, hinner⟩

/-- Whatever the plan, a failure is one of a part or of a cast. -/
theorem Plan.exists_of_evaluate_error {target : Target} {parts : List Part} {context : Context}
    {draws : List Nat} {e : EvalError}
    (h : ((Plan.ofParts target parts).evaluate.run context draws).result = .error e) :
    (∃ part ∈ parts, ∃ draws', (part.eval.run context draws').result = .error e) ∨
      ∃ error, e = .cast error := by
  unfold Plan.ofParts at h
  split at h
  · rename_i content
    cases hcast : (Value.string content).cast target with
    | ok result => simp [evaluate, hcast, Except.mapError, Evaluation.ofExcept, Evaluation.run] at h
    | error error =>
      simp only [evaluate, hcast, Except.mapError, Evaluation.ofExcept, Evaluation.run,
        Except.error.injEq] at h
      exact Or.inr ⟨error, h.symm⟩
  · rename_i part _
    rcases Evaluation.error_of_cast h with hpart | hcast
    · exact Or.inl ⟨part, List.mem_singleton_self part, draws, hpart⟩
    · exact Or.inr hcast
  · rcases Evaluation.error_of_cast h with hparts | hcast
    · exact Or.inl (Part.exists_of_renderAll_error hparts)
    · exact Or.inr hcast

/-- Every failure of a template without random elements, under every plan, comes with the path that
gives back the value it is about, up to the selector that failed; or with the name of an attribute
that is not bound. -/
theorem evaluate_error_diagnosed {target : Target} {source : String}
    {expression : Expression target}
    (hcompile : Expression.compile target source = .ok expression)
    (hrandom : ∀ part ∈ expression.parts, part.NoRandom) {context : Context} {draws : List Nat}
    {e : EvalError} (herror : (expression.evaluate.run context draws).result = .error e) :
    ∃ layout : Layout, layout.text = source ∧ layout.Diagnoses context e := by
  obtain ⟨layout, htext, rfl⟩ := Expression.exists_of_compile_ok hcompile
  refine ⟨layout, htext, ?_⟩
  rcases Plan.exists_of_evaluate_error herror with ⟨part, hmem, draws', hpart⟩ | ⟨error, rfl⟩
  · rcases Layout.exists_of_mem_parts hmem with ⟨content, rfl⟩ | ⟨body, hbody, rfl⟩
    · cases hpart
    · exact Layout.diagnoses_of_body_error hbody .refl (hrandom _ hmem) hpart
  · exact trivial

theorem evaluate_error_diagnosed_key :
    let source := "n: $\x7ba(+1).k\x7d"
    let context : Context := fun name => if name = "a" then some (.list [.int 1, .int 2]) else none
    ∃ expression : Expression .string,
      Expression.compile .string source = .ok expression ∧
      (∀ part ∈ expression.parts, part.NoRandom) ∧
      (expression.evaluate.run context []).result =
        .error (.keyAccessNotSupported (.int 2) "a(+1)") ∧
      ∃ layout : Layout, layout.text = source ∧
        layout.Diagnoses context (.keyAccessNotSupported (.int 2) "a(+1)") := by
  intro source context
  let parts : List Part :=
    [.text "n: ", .access (.access (.attribute "a") "a" (.index (.literal 1))) "a(+1)" (.key "k")]
  have hparse : Template.parse source = .ok ⟨source, parts⟩ := by cbv
  have hcompile :
      Expression.compile .string source = .ok (.ofTemplate .string ⟨source, parts⟩) := by
    rw [Expression.compile, hparse]
    rfl
  have hrandom : ∀ part ∈ parts, part.NoRandom := by simp [parts, Part.NoRandom]
  have herror : ((Expression.ofTemplate .string ⟨source, parts⟩).evaluate.run context []).result =
      .error (.keyAccessNotSupported (.int 2) "a(+1)") := by cbv
  exact ⟨_, hcompile, hrandom, herror, evaluate_error_diagnosed hcompile hrandom herror⟩

end Splice
