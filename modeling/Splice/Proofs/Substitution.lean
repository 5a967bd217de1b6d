import Splice.Proofs.Diagnosis
import Splice.Proofs.Plans

/-!
# Substitution of values

What comes of cutting a chain of selectors in two. The front has a value of its own, and under a
name that is bound to this value the selectors after it find what they find in the whole chain.
Main statement: the chain over the front and the chain over the name have the same value, or fail in
the same way with paths that differ only in front; and where the front fails, the whole chain fails
as it does, unless an index further out fails before.
-/

namespace Splice

/-! ## Chains over a front -/

namespace Body

/-- The body with more selectors after it. -/
def extend (body : Body) (selectors : List Selector) : Body := selectors.foldl .select body

@[simp] theorem extend_nil (body : Body) : body.extend [] = body := rfl

theorem extend_concat (body : Body) (selectors : List Selector) (last : Selector) :
    body.extend (selectors ++ [last]) = (body.extend selectors).select last := by
  simp [extend]

theorem text_extend (body : Body) (selectors : List Selector) :
    (body.extend selectors).text = body.text ++ String.join (selectors.map Selector.text) := by
  induction selectors using List.reverseRecOn with
  | nil => simp
  | append_singleton selectors last ih =>
    rw [extend_concat, text, ih, List.map_append, String.join_append, String.append_assoc]
    simp

/-- The value of a body, or the failure to find it. -/
def result (body : Body) (context : Context) (draws : List Nat) : Except EvalError Value :=
  (body.part.eval.run context draws).result.map Found.value

theorem result_congr {body : Body} (h : body.part.NoRandom) (context : Context)
    (draws draws' : List Nat) : body.result context draws = body.result context draws' :=
  congrArg (Except.map Found.value) (Part.result_congr context draws draws' body.part h)

end Body

/-- The value that an accessor finds in a value. -/
def Resolved.find (accessor : Resolved) (path : String) (value : Value) : Except EvalError Value :=
  (accessor.apply path ⟨value, .stored⟩ []).1.map Found.value

/-- Where a value is found makes no difference to what is found in it. -/
theorem Resolved.map_value_apply {accessor : Resolved} (h : accessor ≠ .random) (path : String)
    (found : Found) (draws : List Nat) :
    (accessor.apply path found draws).1.map Found.value = accessor.find path found.value := by
  obtain ⟨value, origin⟩ := found
  unfold find
  cases accessor with
  | random => exact absurd rfl h
  | size => cases value <;> rfl
  | index n =>
    cases value with
    | list items =>
      simp only [apply]
      split <;> rfl
    | _ => rfl
  | key name =>
    cases value with
    | map entries =>
      simp only [apply]
      cases entries.lookup name <;> rfl
    | _ => rfl

theorem Body.result_select (front : Body) {selector : Selector}
    (h : selector.accessor ≠ .random) (context : Context) (draws : List Nat) :
    (front.select selector).result context draws =
      (selector.accessor.lookUp context).1.bind fun resolved =>
        (front.result context draws).bind fun value => resolved.find front.text value := by
  rw [result, part, Part.result_access, result]
  cases hlookUp : (selector.accessor.lookUp context).1 with
  | error e => rfl
  | ok resolved =>
    cases (front.part.eval.run context draws).result with
    | error e => rfl
    | ok found =>
      exact Resolved.map_value_apply (Accessor.lookUp_ne_random h hlookUp) front.text found _

/-! ## Failures with another front -/

/-- Two failures that are the same but for the front of the path, if they have one. -/
inductive EvalError.Rebased (front front' : String) : EvalError → EvalError → Prop
  | undefinedAttribute (name : String) :
      Rebased front front' (.undefinedAttribute name) (.undefinedAttribute name)
  | undefinedIndex (rest : String) (index : Int64) :
      Rebased front front' (.undefinedIndex (front ++ rest) index)
        (.undefinedIndex (front' ++ rest) index)
  | undefinedKey (rest key : String) :
      Rebased front front' (.undefinedKey (front ++ rest) key) (.undefinedKey (front' ++ rest) key)
  | sizeNotSupported (value : Value) (rest : String) :
      Rebased front front' (.sizeNotSupported value (front ++ rest))
        (.sizeNotSupported value (front' ++ rest))
  | keyAccessNotSupported (value : Value) (rest : String) :
      Rebased front front' (.keyAccessNotSupported value (front ++ rest))
        (.keyAccessNotSupported value (front' ++ rest))
  | indexNotSupported (value : Value) (rest : String) :
      Rebased front front' (.indexNotSupported value (front ++ rest))
        (.indexNotSupported value (front' ++ rest))
  | cast (error : CastError) : Rebased front front' (.cast error) (.cast error)

/-- The same value, or failures with another front. -/
def Rebases (front front' : String) : Except EvalError Value → Except EvalError Value → Prop
  | .ok value, .ok value' => value = value'
  | .error e, .error e' => EvalError.Rebased front front' e e'
  | _, _ => False

/-- Where two results differ only in their fronts, so does what is made of their values. -/
theorem Rebases.bind {front front' : String} {r r' : Except EvalError Value}
    (h : Rebases front front' r r') {f f' : Value → Except EvalError Value}
    (hf : ∀ value, Rebases front front' (f value) (f' value)) :
    Rebases front front' (r.bind f) (r'.bind f') := by
  cases r with
  | error e =>
    cases r' with
    | error e' => exact h
    | ok value' => exact h.elim
  | ok value =>
    cases r' with
    | error e' => exact h.elim
    | ok value' =>
      obtain rfl : value = value' := h
      exact hf value

theorem Resolved.rebases_find {accessor : Resolved} (h : accessor ≠ .random)
    (front front' rest : String) (value : Value) :
    Rebases front front' (accessor.find (front ++ rest) value)
      (accessor.find (front' ++ rest) value) := by
  cases accessor with
  | random => exact absurd rfl h
  | size =>
    cases value with
    | list items | set items => rfl
    | map entries => rfl
    | _ => exact .sizeNotSupported _ rest
  | index n =>
    cases value with
    | list items =>
      simp only [find, apply]
      split
      · rfl
      · exact .undefinedIndex rest n
    | _ => exact .indexNotSupported _ rest
  | key name =>
    cases value with
    | map entries =>
      simp only [find, apply]
      cases entries.lookup name with
      | none => exact .undefinedKey rest name
      | some value => rfl
    | _ => exact .keyAccessNotSupported _ rest

/-- A binding changes nothing for the accessors that do not ask for it. -/
theorem Accessor.lookUp_update {accessor : Accessor} {name : String}
    (h : accessor ≠ .index (.attribute name)) (context : Context) (value : Option Value) :
    accessor.lookUp (Function.update context name value) = accessor.lookUp context := by
  match accessor with
  | .key _ => rfl
  | .size => rfl
  | .random => rfl
  | .index (.literal n) => rfl
  | .index (.attribute other) =>
    have hother : other ≠ name := by
      rintro rfl
      exact h rfl
    simp only [lookUp, IndexSpec.lookUp, Function.update_of_ne hother]

theorem Body.rebases_extend {body : Body} {token : Token} {context : Context} {value : Value}
    {draws : List Nat} (hvalue : body.result context draws = .ok value)
    {selectors : List Selector}
    (hrandom : ∀ selector ∈ selectors, selector.accessor ≠ .random)
    (hfresh : ∀ selector ∈ selectors, selector.accessor ≠ .index (.attribute token.text))
    (draws' : List Nat) :
    Rebases body.text token.text ((body.extend selectors).result context draws)
      (((root token).extend selectors).result
        (Function.update context token.text (some value)) draws') := by
  induction selectors using List.reverseRecOn with
  | nil =>
    have hroot : (root token).result (Function.update context token.text (some value)) draws' =
        .ok value := by
      simp [result, part, Part.eval, Evaluation.require, Evaluation.bind, Evaluation.run,
        Except.map]
    rw [extend_nil, extend_nil, hvalue, hroot]
    rfl
  | append_singleton selectors last ih =>
    have hlast : last ∈ selectors ++ [last] := by simp
    have hfront := ih (fun selector h => hrandom selector (List.mem_append_left _ h))
      (fun selector h => hfresh selector (List.mem_append_left _ h))
    rw [extend_concat, extend_concat, result_select _ (hrandom last hlast),
      result_select _ (hrandom last hlast), Accessor.lookUp_update (hfresh last hlast)]
    cases hlookUp : (last.accessor.lookUp context).1 with
    | error e =>
      obtain ⟨name, -, ⟨-, rfl⟩ | ⟨error, rfl⟩⟩ := Accessor.eq_of_lookUp_error hlookUp
      · exact .undefinedAttribute name
      · exact .cast error
    | ok resolved =>
      have hresolved := Accessor.lookUp_ne_random (hrandom last hlast) hlookUp
      refine hfront.bind fun found => ?_
      rw [text_extend, text_extend, text]
      exact Resolved.rebases_find hresolved _ _ _ found

/-! ## Chains over a front that fails -/

/-- The failure of a selector with an attribute for its index that is not bound or holds no index. -/
def Selector.failure? (context : Context) (selector : Selector) : Option EvalError :=
  match selector.accessor with
  | .index (.attribute name) =>
    match context name with
    | none => some (.undefinedAttribute name)
    | some value =>
      match value.cast (.integer .int64) with
      | .error error => some (.cast error)
      | .ok _ => none
  | _ => none

/-- There is one exactly where the accessor cannot be resolved, and it is that failure. -/
theorem Selector.failure?_eq_some_iff {context : Context} {selector : Selector} {e : EvalError} :
    selector.failure? context = some e ↔ (selector.accessor.lookUp context).1 = .error e := by
  unfold failure?
  generalize selector.accessor = accessor
  match accessor with
  | .key _ => simp [Accessor.lookUp]
  | .size => simp [Accessor.lookUp]
  | .random => simp [Accessor.lookUp]
  | .index (.literal n) => simp [Accessor.lookUp, IndexSpec.lookUp, Except.map]
  | .index (.attribute name) =>
    simp only [Accessor.lookUp, IndexSpec.lookUp]
    cases context name with
    | none => simp [Except.map]
    | some value =>
      dsimp only
      cases value.cast (.integer .int64) <;> simp [Except.map]

theorem Body.error_extend {body : Body} {context : Context} {draws : List Nat} {e : EvalError}
    (herror : body.result context draws = .error e) {selectors : List Selector}
    (hrandom : ∀ selector ∈ selectors, selector.accessor ≠ .random) :
    (body.extend selectors).result context draws =
      .error ((selectors.reverse.findSome? (·.failure? context)).getD e) := by
  induction selectors using List.reverseRecOn with
  | nil => exact herror
  | append_singleton selectors last ih =>
    have hfront := ih fun selector h => hrandom selector (List.mem_append_left _ h)
    rw [extend_concat, result_select _ (hrandom last (by simp)), List.reverse_concat,
      List.findSome?_cons, hfront]
    -- The last selector is the outermost, whose index is looked up first.
    cases hlookUp : (last.accessor.lookUp context).1 with
    | error e' =>
      rw [Selector.failure?_eq_some_iff.mpr hlookUp]
      rfl
    | ok resolved =>
      have hnone : last.failure? context = none := by
        refine Option.eq_none_iff_forall_ne_some.mpr fun e' h => ?_
        rw [Selector.failure?_eq_some_iff, hlookUp] at h
        cases h
      rw [hnone]
      rfl

/-! ## Whole expressions -/

/-- The value of a lone expression is that of its body. -/
theorem Body.result_evaluate_single (body : Body) (context : Context) (draws : List Nat) :
    ((Plan.single body.part : Plan .value).evaluate.run context draws).result =
      body.result context draws :=
  congrArg Run.result (Evaluation.run_bind_done context draws body.part.eval Found.value)

/-- Selectors on an expression are selectors on a name for its value. Let neither hold a random
element, and let no index ask for the name. If the expression has a value, then the selectors on it
and those on the name, bound to this value in front of all else, have the same value or the same
failure, with the name in the place of the expression where the failure has a path. If the
expression fails, so do the selectors on it: for the outermost index that is not found or is none,
or else as the expression does. -/
theorem evaluate_extend_eq_substituted {body : Body} {selectors : List Selector} {token : Token}
    (hbody : body.part.NoRandom)
    (hselectors : ∀ selector ∈ selectors, selector.accessor ≠ .random)
    (hfresh : ∀ selector ∈ selectors, selector.accessor ≠ .index (.attribute token.text)) :
    let suffix := String.join (selectors.map Selector.text)
    ∃ front whole named : Expression .value,
      Expression.compile .value ("$\x7b" ++ body.text ++ "\x7d") = .ok front ∧
      Expression.compile .value ("$\x7b" ++ (body.text ++ suffix) ++ "\x7d") = .ok whole ∧
      Expression.compile .value ("$\x7b" ++ (token.text ++ suffix) ++ "\x7d") = .ok named ∧
      ∀ context draws draws' draws'',
        (∀ value, (front.evaluate.run context draws).result = .ok value →
          Rebases body.text token.text (whole.evaluate.run context draws').result
            (named.evaluate.run (Function.update context token.text (some value)) draws'').result) ∧
        ∀ e, (front.evaluate.run context draws).result = .error e →
          (whole.evaluate.run context draws').result =
            .error ((selectors.reverse.findSome? (·.failure? context)).getD e) := by
  intro suffix
  have hwhole := Expression.compile_body .value (body.extend selectors)
  have hnamed := Expression.compile_body .value ((Body.root token).extend selectors)
  rw [Body.text_extend] at hwhole hnamed
  refine ⟨_, _, _, Expression.compile_body .value body, hwhole, hnamed, ?_⟩
  intro context draws draws' draws''
  simp only [Expression.evaluate, Body.result_evaluate_single,
    Body.result_congr hbody context draws draws']
  constructor
  · intro value hvalue
    exact Body.rebases_extend hvalue hselectors hfresh draws''
  · intro e herror
    exact Body.error_extend herror hselectors

theorem evaluate_extend_eq_substituted_list :
    let body : Body := .root ⟨"l", by simp, by simp [isReserved]⟩
    let selectors : List Selector := [.index ⟨"0", by simp, by simp [isReserved]⟩,
      .index ⟨"i", by simp, by simp [isReserved]⟩]
    let token : Token := ⟨"x", by simp, by simp [isReserved]⟩
    let context : Context := fun name =>
      if name = "l" then some (.list [.list []]) else if name = "i" then some (.int 5) else none
    body.part.NoRandom ∧
      (∀ selector ∈ selectors, selector.accessor ≠ .random) ∧
      (∀ selector ∈ selectors, selector.accessor ≠ .index (.attribute token.text)) ∧
      ∃ whole named : Expression .value,
        Expression.compile .value "$\x7bl(0)(i)\x7d" = .ok whole ∧
        Expression.compile .value "$\x7bx(0)(i)\x7d" = .ok named ∧
        Rebases "l" "x" (whole.evaluate.run context []).result
          (named.evaluate.run (Function.update context "x" (some (.list [.list []]))) []).result ∧
        (whole.evaluate.run context []).result = .error (.undefinedIndex "l(0)" 5) ∧
        (whole.evaluate.run (fun _ => none) []).result = .error (.undefinedAttribute "i") := by
  intro body selectors token context
  have hselectors : ∀ selector ∈ selectors, selector.accessor ≠ .random := by
    simp [selectors, Selector.accessor]
  have hfresh : ∀ selector ∈ selectors, selector.accessor ≠ .index (.attribute token.text) := by
    have hzero : IndexSpec.ofToken "0" = .literal 0 := by cbv
    have hi : IndexSpec.ofToken "i" = .attribute "i" := by cbv
    simp [selectors, Selector.accessor, token, hzero, hi]
  have hbody : body.part.NoRandom := trivial
  obtain ⟨front, whole, named, hfront, hwhole, hnamed, hrun⟩ :=
    evaluate_extend_eq_substituted hbody hselectors hfresh
  have hfront' := (Expression.compile_body .value body).symm.trans hfront
  have hwhole' := (Expression.compile_body .value (body.extend selectors)).symm.trans hwhole
  have hvalue : (front.evaluate.run context []).result = .ok (.list [.list []]) := by
    rw [← Except.ok.inj hfront']
    cbv
  have herror : (front.evaluate.run (fun _ => none) []).result =
      .error (.undefinedAttribute "l") := by
    rw [← Except.ok.inj hfront']
    cbv
  refine ⟨hbody, hselectors, hfresh, whole, named, hwhole, hnamed,
    (hrun context [] [] []).1 _ hvalue, ?_, ?_⟩
  · rw [← Except.ok.inj hwhole']
    cbv
  · rw [(hrun (fun _ => none) [] [] []).2 _ herror]
    cbv

end Splice
