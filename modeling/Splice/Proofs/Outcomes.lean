import Splice.Proofs.Guarded
import Splice.Proofs.Plans

/-!
# Possible outcomes

What an expression can come to when each draw is any position below its bound. The outcomes of a
part are given by recursion on its chain, where a random accessor has every element of a list, and
those of a text by choosing one outcome for each part. Main statement: the runs over all sequences
of draws have exactly these results, also when an expression is evaluated again and again; and there
is a position wherever one is drawn.
-/

namespace Splice

/-! ## Runs and outcomes -/

namespace Evaluation

variable {α β : Type} {context : Context}

/-- The evaluation draws a position below the bound, after some positions for the draws before. -/
inductive Draws (context : Context) (bound : Nat) : Evaluation α → Prop
  | here {next : Nat → Evaluation α} : Draws context bound (draw bound next)
  | ask {name : String} {next : Option Value → Evaluation α} :
      Draws context bound (next (context name)) → Draws context bound (ask name next)
  | later {other position : Nat} {next : Nat → Evaluation α} : position < other →
      Draws context bound (next position) → Draws context bound (draw other next)

theorem Guarded.pos_of_draws {p : Evaluation α} (hp : p.Guarded) {bound : Nat}
    (h : p.Draws context bound) : 0 < bound := by
  induction hp with
  | done result => cases h
  | fail error => cases h
  | @ask name next hnone _ ih =>
    cases h with
    | ask h =>
      cases hname : context name with
      | none =>
        rw [hname, hnone] at h
        cases h
      | some value => exact ih value (hname ▸ h)
  | draw hbound _ ih =>
    cases h with
    | here => exact hbound
    | later hposition h => exact ih _ hposition h

/-- Whatever is drawn, the result is one of the outcomes. -/
theorem Guarded.result_mem_outcomes {p : Evaluation α} (hp : p.Guarded) (draws : List Nat) :
    (p.run context draws).result ∈ p.outcomes context := by
  induction hp generalizing draws with
  | done result => exact List.mem_singleton_self _
  | fail error => exact List.mem_singleton_self _
  | @ask name next hnone _ ih =>
    simp only [run, outcomes]
    cases context name with
    | none =>
      rw [hnone]
      exact List.mem_singleton_self _
    | some value => exact ih value draws
  | @draw bound next hbound _ ih =>
    have hlt := Nat.mod_lt (draws.headD 0) hbound
    exact List.mem_flatMap.mpr ⟨_, List.mem_range.mpr hlt, ih _ hlt draws.tail⟩

/-- Every outcome is the result of some draws, whatever draws there are after them. -/
theorem exists_draws_of_mem_outcomes {p : Evaluation α} {outcome : Except EvalError α}
    (h : outcome ∈ p.outcomes context) :
    ∃ used, ∀ more, (p.run context (used ++ more)).result = outcome ∧
      (p.run context (used ++ more)).draws = more := by
  induction p with
  | done result => exact ⟨[], fun more => ⟨(List.mem_singleton.mp h).symm, rfl⟩⟩
  | fail error => exact ⟨[], fun more => ⟨(List.mem_singleton.mp h).symm, rfl⟩⟩
  | ask name next ih => exact ih _ h
  | draw bound next ih =>
    obtain ⟨position, hposition, h⟩ := List.mem_flatMap.mp h
    obtain ⟨used, hused⟩ := ih position h
    refine ⟨position :: used, fun more => ?_⟩
    have hmod : position % bound = position := Nat.mod_eq_of_lt (List.mem_range.mp hposition)
    simpa [run, hmod] using hused more

/-- Evaluates against contexts in turn, on one sequence of draws. -/
def resultsIn (p : Evaluation α) : List Context → List Nat → List (Except EvalError α)
  | [], _ => []
  | context :: contexts, draws =>
    let r := p.run context draws
    r.result :: p.resultsIn contexts r.draws

/-- The results of evaluations in turn are one outcome for each of them, in every combination. -/
theorem Guarded.range_resultsIn {p : Evaluation α} (hp : p.Guarded) (contexts : List Context) :
    Set.range (p.resultsIn contexts) =
      {results | List.Forall₂ (fun context result => result ∈ p.outcomes context)
        contexts results} := by
  ext results
  constructor
  · rintro ⟨draws, rfl⟩
    induction contexts generalizing draws with
    | nil => exact .nil
    | cons context contexts ih => exact .cons (hp.result_mem_outcomes draws) (ih _)
  · intro h
    induction h with
    | nil => exact ⟨[], rfl⟩
    | cons hresult _ ih =>
      obtain ⟨draws, rfl⟩ := ih
      obtain ⟨used, hused⟩ := exists_draws_of_mem_outcomes hresult
      refine ⟨used ++ draws, ?_⟩
      rw [resultsIn, (hused draws).1, (hused draws).2]

theorem Guarded.range_result {p : Evaluation α} (hp : p.Guarded) :
    Set.range (fun draws => (p.run context draws).result) =
      {outcome | outcome ∈ p.outcomes context} := by
  ext outcome
  constructor
  · rintro ⟨draws, rfl⟩
    exact hp.result_mem_outcomes draws
  · intro h
    obtain ⟨used, hused⟩ := exists_draws_of_mem_outcomes h
    exact ⟨used ++ [], (hused []).1⟩

theorem mem_outcomes_bind {p : Evaluation α} {f : α → Evaluation β}
    {outcome : Except EvalError β} :
    outcome ∈ (p.bind f).outcomes context ↔
      (∃ a, .ok a ∈ p.outcomes context ∧ outcome ∈ (f a).outcomes context) ∨
        ∃ e, .error e ∈ p.outcomes context ∧ outcome = .error e := by
  rw [outcomes_bind, List.mem_flatMap]
  constructor
  · rintro ⟨first, hfirst, h⟩
    cases first with
    | ok a => exact Or.inl ⟨a, hfirst, h⟩
    | error e => exact Or.inr ⟨e, hfirst, List.mem_singleton.mp h⟩
  · rintro (⟨a, ha, h⟩ | ⟨e, he, rfl⟩)
    · exact ⟨_, ha, h⟩
    · exact ⟨_, he, List.mem_singleton_self _⟩

@[simp] theorem outcomes_ofExcept (result : Except EvalError α) :
    (ofExcept result).outcomes context = [result] := by
  cases result <;> rfl

theorem outcomes_bind_ofExcept (p : Evaluation α) (g : α → Except EvalError β) :
    (p.bind fun a => ofExcept (g a)).outcomes context =
      (p.outcomes context).map fun outcome => outcome.bind g := by
  rw [outcomes_bind, List.map_eq_flatMap]
  congr
  funext outcome
  cases outcome with
  | error e => rfl
  | ok a => exact outcomes_ofExcept (g a)

theorem outcomes_bind_done (p : Evaluation α) (f : α → β) :
    (p.bind fun a => done (f a)).outcomes context =
      (p.outcomes context).map fun outcome => outcome.map f := by
  rw [outcomes_bind, List.map_eq_flatMap]
  congr
  funext outcome
  cases outcome <;> rfl

end Evaluation

/-! ## Parts -/

/-- Picking a random element: any element of a list that is not empty. -/
def Found.pick (found : Found) (path : String) : Set (Except EvalError Found) :=
  match found.value with
  | .list (item :: items) =>
    {outcome | ∃ picked ∈ item :: items, outcome = .ok ⟨picked, found.origin⟩}
  | value => {.error (.randomNotSupported value path)}

/-- What an accessor that is not random makes of an outcome of its child. Its index comes first. -/
def Accessor.follow (context : Context) (path : String) (accessor : Accessor)
    (inner : Except EvalError Found) : Except EvalError Found :=
  (accessor.lookUp context).1.bind fun resolved =>
    inner.bind fun found => (resolved.apply path found []).1

/-- The possible outcomes of a part. -/
def Part.possible (context : Context) : Part → Set (Except EvalError Found)
  | .text content => {.ok ⟨.string content, .computed⟩}
  | .attribute name =>
    match context name with
    | some value => {.ok ⟨value, .stored⟩}
    | none => {.error (.undefinedAttribute name)}
  | .access child path .random =>
    {outcome | (∃ found, .ok found ∈ child.possible context ∧ outcome ∈ found.pick path) ∨
      ∃ e, .error e ∈ child.possible context ∧ outcome = .error e}
  | .access child path accessor => accessor.follow context path '' child.possible context

theorem Found.mem_outcomes_atRandom {found : Found} {path : String} {context : Context}
    {outcome : Except EvalError Found} :
    outcome ∈ (found.atRandom path).outcomes context ↔ outcome ∈ found.pick path := by
  obtain ⟨value, origin⟩ := found
  cases value with
  | list items =>
    cases items with
    | nil => simp [atRandom, choices, pick, Evaluation.outcomes]
    | cons item items =>
      simp only [atRandom, choices, List.length_cons, Nat.succ_ne_zero, if_false, pick,
        Evaluation.outcomes, List.mem_flatMap, List.mem_range, Value.element?, Set.mem_ofPred_eq]
      constructor
      · rintro ⟨position, hlt, h⟩
        rw [List.getElem?_eq_getElem (by simpa using hlt)] at h
        exact ⟨_, List.getElem_mem _, List.mem_singleton.mp h⟩
      · rintro ⟨picked, hmem, rfl⟩
        obtain ⟨position, hlt, rfl⟩ := List.getElem_of_mem hmem
        refine ⟨position, by simpa using hlt, ?_⟩
        rw [List.getElem?_eq_getElem hlt]
        exact List.mem_singleton_self _
  | _ => simp [atRandom, choices, pick, Evaluation.outcomes]

theorem IndexSpec.outcomes_resolve (spec : IndexSpec) (context : Context) :
    spec.resolve.outcomes context = [(spec.lookUp context).1] := by
  match spec with
  | .literal n => rfl
  | .attribute name =>
    simp only [resolve, lookUp, Evaluation.require, Evaluation.bind_eq, Evaluation.bind,
      Evaluation.outcomes]
    cases context name with
    | none => rfl
    | some value =>
      simp only [Evaluation.bind, Evaluation.cast]
      cases value.cast (.integer .int64) <;> rfl

theorem Accessor.outcomes_resolve (accessor : Accessor) (context : Context) :
    accessor.resolve.outcomes context = [(accessor.lookUp context).1] := by
  cases accessor with
  | index spec =>
    rw [resolve, Evaluation.outcomes_bind_done, IndexSpec.outcomes_resolve]
    rfl
  | _ => rfl

namespace Part

theorem mem_outcomes_access_random {child : Part} {path : String} {context : Context}
    {outcome : Except EvalError Found} :
    outcome ∈ (Part.access child path .random).eval.outcomes context ↔
      (∃ found, .ok found ∈ child.eval.outcomes context ∧ outcome ∈ found.pick path) ∨
        ∃ e, .error e ∈ child.eval.outcomes context ∧ outcome = .error e := by
  rw [eval_access, Accessor.resolve, Evaluation.bind, Evaluation.mem_outcomes_bind]
  simp only [Resolved.evaluate, Found.mem_outcomes_atRandom]

/-- An index that cannot be looked up fails before its child, which has some outcome all the same. -/
theorem mem_outcomes_access_of_ne_random {child : Part} {path : String} {accessor : Accessor}
    (hrandom : accessor ≠ .random) {context : Context} {outcome : Except EvalError Found} :
    outcome ∈ (Part.access child path accessor).eval.outcomes context ↔
      ∃ inner ∈ child.eval.outcomes context, accessor.follow context path inner = outcome := by
  rw [eval_access, Evaluation.outcomes_bind, Accessor.outcomes_resolve, List.flatMap_singleton]
  cases hlookUp : (accessor.lookUp context).1 with
  | error e =>
    have hchild : (child.eval.run context []).result ∈ child.eval.outcomes context :=
      child.guarded_eval.result_mem_outcomes []
    simp only [Accessor.follow, hlookUp, Except.bind, List.mem_singleton]
    exact ⟨fun h => ⟨_, hchild, h.symm⟩, fun ⟨_, _, h⟩ => h.symm⟩
  | ok resolved =>
    have hresolved := Accessor.lookUp_ne_random hrandom hlookUp
    have heval : resolved.evaluate path =
        fun found => .ofExcept (resolved.apply path found []).1 := by
      funext found
      exact (resolved.evaluate_of_ne_random hresolved path found []).1
    simp only [heval, Evaluation.outcomes_bind_ofExcept, List.mem_map, Accessor.follow, hlookUp,
      Except.bind]

theorem possible_access_of_ne_random {accessor : Accessor} (h : accessor ≠ .random)
    (context : Context) (child : Part) (path : String) :
    (Part.access child path accessor).possible context =
      accessor.follow context path '' child.possible context := by
  cases accessor with
  | random => exact absurd rfl h
  | _ => rfl

/-- The outcomes by recursion on the chain are those of the evaluation. -/
theorem mem_possible_iff (context : Context) : ∀ (part : Part) (outcome : Except EvalError Found),
    outcome ∈ part.possible context ↔ outcome ∈ part.eval.outcomes context
  | .text content, outcome => by simp [possible, eval, Evaluation.outcomes]
  | .attribute name, outcome => by
    simp only [possible, eval, Evaluation.require, Evaluation.bind_eq, Evaluation.bind,
      Evaluation.outcomes]
    cases context name <;> simp [Evaluation.bind, Evaluation.outcomes]
  | .access child path accessor, outcome => by
    have ih := mem_possible_iff context child
    by_cases hrandom : accessor = .random
    · subst hrandom
      simp only [mem_outcomes_access_random, ← ih]
      rfl
    · rw [possible_access_of_ne_random hrandom, mem_outcomes_access_of_ne_random hrandom]
      simp only [Set.mem_image, ih]

theorem possible_nonempty (context : Context) (part : Part) : (part.possible context).Nonempty :=
  ⟨_, (mem_possible_iff context part _).mpr (part.guarded_eval.result_mem_outcomes [])⟩

/-- A random accessor finds whatever it draws: an index out of bounds is one of its child. -/
theorem undefinedIndex_of_random {child : Part} {path : String} {context : Context}
    {draws : List Nat} {name : String} {index : Int64}
    (h : ((Part.access child path .random).eval.run context draws).result =
      .error (.undefinedIndex name index)) :
    (child.eval.run context draws).result = .error (.undefinedIndex name index) := by
  rw [result_access, Accessor.lookUp, Except.bind] at h
  cases hchild : (child.eval.run context draws).result with
  | error e =>
    rw [hchild] at h
    exact h
  | ok found =>
    obtain ⟨value, origin⟩ := found
    rw [hchild] at h
    cases value with
    | list items => cases items <;> cases h
    | _ => cases h

end Part

/-! ## Texts and expressions -/

/-- The possible texts of a part, or its failures. -/
def Part.possibleText (context : Context) (part : Part) : Set (Except EvalError String) :=
  Except.map (fun found => found.value.spliced) '' part.possible context

/-- Outcomes in order as one: their texts joined, or the first failure among them. -/
def joinOutcomes (outcomes : List (Except EvalError String)) : Except EvalError String :=
  (outcomes.mapM id).map String.join

/-- The possible texts of parts in order, or their failures: every choice of one outcome for each
part. -/
def Part.possibleTexts (context : Context) (parts : List Part) : Set (Except EvalError String) :=
  joinOutcomes '' {chosen |
    List.Forall₂ (fun part outcome => outcome ∈ Part.possibleText context part) parts chosen}

/-- The possible values of parts as a template. A lone part keeps its value, any other parts have a
text. -/
def Part.possibleValues (context : Context) : List Part → Set (Except EvalError Value)
  | [part] => Except.map Found.value '' part.possible context
  | parts => Except.map Value.string '' possibleTexts context parts

/-- The outcome with its value cast to a target. -/
def castOutcome (target : Target) (outcome : Except EvalError Value) :
    Except EvalError target.Carrier :=
  outcome.bind fun value => (value.cast target).mapError .cast

/-- The possible outcomes of an expression. -/
def Expression.possible {target : Target} (expression : Expression target) (context : Context) :
    Set (Except EvalError target.Carrier) :=
  castOutcome target '' Part.possibleValues context expression.parts

theorem joinOutcomes_error_cons (e : EvalError) (rest : List (Except EvalError String)) :
    joinOutcomes (.error e :: rest) = .error e := by
  rw [joinOutcomes, List.mapM_cons]
  rfl

theorem joinOutcomes_ok_cons (text : String) (rest : List (Except EvalError String)) :
    joinOutcomes (.ok text :: rest) = (joinOutcomes rest).map (text ++ ·) := by
  rw [joinOutcomes, List.mapM_cons, joinOutcomes]
  cases rest.mapM id with
  | error e => rfl
  | ok texts => simp [Except.map, bind, Except.bind, pure, Except.pure, String.join_cons]

namespace Part

theorem mem_possibleText_iff {context : Context} {part : Part} {outcome : Except EvalError String} :
    outcome ∈ part.possibleText context ↔ outcome ∈ part.render.outcomes context := by
  simp only [render_eq_bind, Evaluation.outcomes_bind_done, possibleText, Set.mem_image,
    List.mem_map, mem_possible_iff, Value.spliced_eq_text]

theorem exists_chosen (context : Context) (parts : List Part) :
    ∃ chosen, List.Forall₂ (fun part text => text ∈ possibleText context part) parts chosen := by
  induction parts with
  | nil => exact ⟨[], .nil⟩
  | cons part parts ih =>
    obtain ⟨outcome, houtcome⟩ := possible_nonempty context part
    obtain ⟨chosen, hchosen⟩ := ih
    exact ⟨_, .cons (Set.mem_image_of_mem _ houtcome) hchosen⟩

theorem mem_possibleTexts_iff {context : Context} {parts : List Part}
    {outcome : Except EvalError String} :
    outcome ∈ possibleTexts context parts ↔ outcome ∈ (renderAll parts).outcomes context := by
  induction parts generalizing outcome with
  | nil =>
    simp only [possibleTexts, List.forall₂_nil_left_iff, Set.ofPred_eq_eq_singleton,
      Set.image_singleton, Set.mem_singleton_iff, renderAll, renderAfter, Evaluation.outcomes,
      List.mem_singleton]
    rfl
  | cons part parts ih =>
    simp only [renderAll_cons, Evaluation.mem_outcomes_bind, Evaluation.outcomes_bind_done,
      List.mem_map, ← ih, ← mem_possibleText_iff]
    constructor
    · rintro ⟨chosen, hchosen, rfl⟩
      obtain ⟨first, rest, hfirst, hrest, rfl⟩ := List.forall₂_cons_left_iff.mp hchosen
      cases first with
      | error e => exact Or.inr ⟨e, hfirst, joinOutcomes_error_cons e rest⟩
      | ok text =>
        refine Or.inl ⟨text, hfirst, joinOutcomes rest, ⟨rest, hrest, rfl⟩, ?_⟩
        exact (joinOutcomes_ok_cons text rest).symm
    · rintro (⟨text, htext, _, ⟨rest, hrest, rfl⟩, rfl⟩ | ⟨e, he, rfl⟩)
      · exact ⟨_, .cons htext hrest, joinOutcomes_ok_cons text rest⟩
      · -- The parts behind a failure still have outcomes to choose.
        obtain ⟨rest, hrest⟩ := exists_chosen context parts
        exact ⟨_, .cons he hrest, joinOutcomes_error_cons e rest⟩

theorem mem_possibleValues_iff {context : Context} {parts : List Part}
    {outcome : Except EvalError Value} :
    outcome ∈ possibleValues context parts ↔
      outcome ∈ (Plan.ofParts .value parts).evaluate.outcomes context := by
  have hconcat (parts : List Part) :
      outcome ∈ Except.map Value.string '' possibleTexts context parts ↔
        outcome ∈ ((Plan.concat parts : Plan .value).evaluate).outcomes context := by
    change _ ↔ outcome ∈
      ((renderAll parts).bind fun text => .done (Value.string text)).outcomes context
    simp only [Evaluation.outcomes_bind_done, Set.mem_image, List.mem_map, mem_possibleTexts_iff]
  have hsingle (part : Part) :
      outcome ∈ Except.map Found.value '' part.possible context ↔
        outcome ∈ ((Plan.single part : Plan .value).evaluate).outcomes context := by
    change _ ↔ outcome ∈ (part.eval.bind fun found => .done found.value).outcomes context
    simp only [Evaluation.outcomes_bind_done, Set.mem_image, List.mem_map, mem_possible_iff]
  match parts with
  | [] => exact hconcat []
  | [.text content] => exact hsingle (.text content)
  | [.attribute name] => exact hsingle (.attribute name)
  | [.access child path accessor] => exact hsingle (.access child path accessor)
  | .text content :: next :: parts => exact hconcat (.text content :: next :: parts)
  | .attribute name :: next :: parts => exact hconcat (.attribute name :: next :: parts)
  | .access child path accessor :: next :: parts =>
    exact hconcat (.access child path accessor :: next :: parts)

end Part

theorem Expression.mem_possible_iff {target : Target} {template : Template} {context : Context}
    {outcome : Except EvalError target.Carrier} :
    outcome ∈ (ofTemplate target template).possible context ↔
      outcome ∈ (ofTemplate target template).evaluate.outcomes context := by
  let plain : Evaluation Value := (Plan.ofParts .value template.parts).evaluate
  have heval : (ofTemplate target template).evaluate =
      plain.bind fun value => .ofExcept ((value.cast target).mapError .cast) := by
    rw [evaluate, ofTemplate, Plan.evaluate_ofParts]
    congr
    funext value
    exact Evaluation.cast_eq_ofExcept target value
  rw [heval, Evaluation.outcomes_bind_ofExcept, List.mem_map]
  exact exists_congr fun inner => and_congr Part.mem_possibleValues_iff Iff.rfl

/-- What an expression can come to. Over all draws the results of its runs are the possible outcomes
and no others; evaluated against one context after another, on whatever draws are left, it comes to
any possible outcome of each. It never draws from nothing, and a random accessor never misses the
element that it drew. -/
theorem range_result_eq_possible {target : Target} {source : String}
    {expression : Expression target}
    (hcompile : Expression.compile target source = .ok expression) :
    (∀ context, Set.range (fun draws => (expression.evaluate.run context draws).result) =
        expression.possible context) ∧
      (∀ contexts, Set.range (expression.evaluate.resultsIn contexts) =
        {results | List.Forall₂ (fun context result => result ∈ expression.possible context)
          contexts results}) ∧
      (∀ context bound, expression.evaluate.Draws context bound → 0 < bound) ∧
      ∀ (child : Part) (path : String) (context : Context) (draws : List Nat) (name : String)
        (index : Int64),
        ((Part.access child path .random).eval.run context draws).result =
            .error (.undefinedIndex name index) →
          (child.eval.run context draws).result = .error (.undefinedIndex name index) := by
  obtain ⟨layout, -, rfl⟩ := Expression.exists_of_compile_ok hcompile
  have hguarded := (Plan.ofParts target layout.parts).guarded_evaluate
  refine ⟨?_, ?_, ?_, ?_⟩
  · intro context
    ext outcome
    rw [Expression.mem_possible_iff]
    exact Set.ext_iff.mp hguarded.range_result outcome
  · intro contexts
    simp only [Expression.mem_possible_iff]
    exact hguarded.range_resultsIn contexts
  · intro context bound h
    exact hguarded.pos_of_draws h
  · intro child path context draws name index h
    exact Part.undefinedIndex_of_random h

theorem range_result_eq_possible_ragged :
    let context : Context := fun name =>
      if name = "a" then some (.list [.list [.int 1, .int 2], .list []]) else none
    ∃ expression : Expression .string,
      Expression.compile .string "$\x7ba.random.random\x7d!" = .ok expression ∧
      Set.range (fun draws => (expression.evaluate.run context draws).result) =
        expression.possible context ∧
      .ok "2!" ∈ expression.possible context ∧
      .error (.randomNotSupported (.list []) "a.random") ∈ expression.possible context := by
  intro context
  let template : Template := ⟨"$\x7ba.random.random\x7d!",
    [.access (.access (.attribute "a") "a" .random) "a.random" .random, .text "!"]⟩
  have hcompile : Expression.compile .string template.source =
      .ok (.ofTemplate .string template) :=
    Expression.compile_of_parse_ok (by cbv)
  have hrange := (range_result_eq_possible hcompile).1 context
  refine ⟨_, hcompile, hrange, ?_, ?_⟩
  · rw [← hrange]
    exact ⟨[0, 1], by cbv⟩
  · rw [← hrange]
    exact ⟨[1], by cbv⟩

end Splice
