import Splice.Proofs.Concatenation
import Splice.Proofs.Plans

/-!
# Rendering templates one after the other

What two templates put together render to. Joining their parts changes the plan and the literals
at the seam, but rendering takes the join of parts to evaluations one after the other. Main
statement: the run of the whole is the run of the first template and then that of the second, with
the texts joined, unless the first fails.
-/

namespace Splice

/-- A run for a text and then a second one, on the draws that the first left. Their texts are joined
and so are the names they asked. If the first fails, there is no second. -/
def Run.followedBy (first : Run String) (second : List Nat → Run String) : Run String :=
  match first.result with
  | .error e => ⟨.error e, first.asked, first.draws⟩
  | .ok text =>
    let next := second first.draws
    match next.result with
    | .error e => ⟨.error e, first.asked ++ next.asked, next.draws⟩
    | .ok more => ⟨.ok (text ++ more), first.asked ++ next.asked, next.draws⟩

namespace Evaluation

/-- Two evaluations one after the other, with their texts joined. -/
def append (p q : Evaluation String) : Evaluation String :=
  p.bind fun text => q.bind fun more => .done (text ++ more)

variable (p q r : Evaluation String)

@[simp] theorem done_empty_append : (done "").append q = q := by
  simp [append, bind]

theorem done_append_done_append (s t : String) :
    (done s).append ((done t).append q) = (done (s ++ t)).append q := by
  simp only [append, bind, bind_bind, String.append_assoc]

theorem append_assoc : (p.append q).append r = p.append (q.append r) := by
  simp only [append, bind_bind, bind, String.append_assoc]

theorem run_append (context : Context) (draws : List Nat) :
    (p.append q).run context draws =
      (p.run context draws).followedBy fun rest => q.run context rest := by
  rw [append, run_bind, Run.andThen, Run.followedBy]
  cases (p.run context draws).result with
  | error e => rfl
  | ok text =>
    simp only [run_bind_done, Run.map]
    cases (q.run context (p.run context draws).draws).result <;> rfl

theorem result_append {p q : Evaluation String} {s t : String} {context : Context}
    {draws : List Nat} (hp : (p.run context draws).result = .ok s)
    (hq : ∀ draws, (q.run context draws).result = .ok t) :
    ((p.append q).run context draws).result = .ok (s ++ t) := by
  simp only [run_append, Run.followedBy, hp, hq]

end Evaluation

namespace Part

@[simp] theorem renderAll_nil : renderAll [] = .done "" := rfl

theorem renderAll_cons_eq_append (part : Part) (parts : List Part) :
    renderAll (part :: parts) = part.render.append (renderAll parts) :=
  renderAll_cons part parts

/-- Literal text in front is put in front of the text of the rest. -/
theorem renderAll_literal_append (cs : List Char) (parts : List Part) :
    renderAll (literal cs ++ parts) =
      (Evaluation.done (String.ofList cs)).append (renderAll parts) := by
  rw [literal]
  split
  · rename_i h
    rw [h, String.ofList_nil, Evaluation.done_empty_append, List.nil_append]
  · rw [List.singleton_append, renderAll_cons_eq_append]
    rfl

theorem renderAll_orEmpty (parts : List Part) : renderAll (orEmpty parts) = renderAll parts := by
  cases parts with
  | nil => rfl
  | cons part parts => rfl

/-- Fusing two literals into one is not seen in the text. -/
theorem renderAll_fuse_singleton (part : Part) (back : List Part) :
    renderAll (fuse [part] back) = part.render.append (renderAll back) := by
  match part, back with
  | .text s, .text t :: back =>
    rw [fuse, renderAll_cons_eq_append, renderAll_cons_eq_append]
    exact (Evaluation.done_append_done_append _ s t).symm
  | .text s, [] | .text s, .attribute name :: back | .text s, .access child path accessor :: back =>
    rw [fuse_singleton (Or.inr (by simp [isStatic])), renderAll_cons_eq_append]
  | .attribute name, back | .access child path accessor, back =>
    rw [fuse_singleton (Or.inl rfl), renderAll_cons_eq_append]

theorem renderAll_fuse (front back : List Part) :
    renderAll (fuse front back) = (renderAll front).append (renderAll back) := by
  induction front with
  | nil => simp
  | cons part front ih =>
    cases front with
    | nil => rw [renderAll_fuse_singleton, renderAll_singleton]
    | cons next front =>
      rw [fuse_cons_of_ne_nil (by simp), renderAll_cons_eq_append, ih,
        renderAll_cons_eq_append part, Evaluation.append_assoc]

end Part

theorem Layout.evaluate_ofTemplate (source : String) (layout : Layout) :
    (Expression.ofTemplate .string ⟨source, layout.parts⟩).evaluate =
      Part.renderAll layout.segments := by
  rw [Expression.evaluate, Expression.ofTemplate, Plan.evaluate_ofParts_string,
    layout.parts_eq_orEmpty, Part.renderAll_orEmpty]

/-- Rendering takes templates one after the other to runs one after the other. Where no expression
opens across the seam, two templates together are a template. It fails as the first fails, with what
the first asked; else it asks what both ask, and fails as the second or renders to both texts. -/
theorem evaluate_append_eq_followedBy {front back : String} {first second : Expression .string}
    (hfirst : Expression.compile .string front = .ok first)
    (hsecond : Expression.compile .string back = .ok second)
    (hseam : ¬ OpensAcross front back) :
    ∃ whole : Expression .string, Expression.compile .string (front ++ back) = .ok whole ∧
      ∀ context draws, whole.evaluate.run context draws =
        (first.evaluate.run context draws).followedBy fun rest =>
          second.evaluate.run context rest := by
  obtain ⟨layout, rfl, rfl⟩ := Expression.exists_of_compile_ok hfirst
  obtain ⟨layout', rfl, rfl⟩ := Expression.exists_of_compile_ok hsecond
  obtain ⟨whole, htext, hsegments⟩ := layout.exists_append layout' hseam
  refine ⟨_, htext ▸ Expression.compile_text .string whole, ?_⟩
  intro context draws
  rw [Layout.evaluate_ofTemplate, Layout.evaluate_ofTemplate, Layout.evaluate_ofTemplate,
    hsegments, Part.renderAll_fuse]
  exact Evaluation.run_append _ _ context draws

theorem evaluate_append_eq_followedBy_unbound :
    let front := "$\x7bn\x7d$"
    let back := "-$\x7bm\x7d"
    let context : Context := fun name => if name = "n" then some (.int 2) else none
    ∃ first second whole : Expression .string,
      Expression.compile .string front = .ok first ∧
      Expression.compile .string back = .ok second ∧
      ¬ OpensAcross front back ∧
      Expression.compile .string (front ++ back) = .ok whole ∧
      first.evaluate.run context [] = ⟨.ok "2$", ["n"], []⟩ ∧
      second.evaluate.run context [] = ⟨.error (.undefinedAttribute "m"), ["m"], []⟩ ∧
      whole.evaluate.run context [] = ⟨.error (.undefinedAttribute "m"), ["n", "m"], []⟩ := by
  intro front back context
  let first : Template := ⟨front, [.attribute "n", .text "$"]⟩
  let second : Template := ⟨back, [.text "-", .attribute "m"]⟩
  have hfirst : Expression.compile .string front = .ok (.ofTemplate .string first) :=
    Expression.compile_of_parse_ok (by cbv)
  have hsecond : Expression.compile .string back = .ok (.ofTemplate .string second) :=
    Expression.compile_of_parse_ok (by cbv)
  have hseam : ¬ OpensAcross front back := by decide
  obtain ⟨whole, hwhole, hrun⟩ := evaluate_append_eq_followedBy hfirst hsecond hseam
  have hfront : (Expression.ofTemplate .string first).evaluate.run context [] =
      ⟨.ok "2$", ["n"], []⟩ := by cbv
  have hback : (Expression.ofTemplate .string second).evaluate.run context [] =
      ⟨.error (.undefinedAttribute "m"), ["m"], []⟩ := by cbv
  refine ⟨_, _, whole, hfirst, hsecond, hseam, hwhole, hfront, hback, ?_⟩
  rw [hrun]
  cbv

end Splice
