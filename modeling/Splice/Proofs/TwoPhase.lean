import Mathlib
import Splice.Part.Evaluation

/-!
# Evaluation in two phases

The evaluation of a part resolves an index on the way in and applies the accessor on the way out.
The reference here does one after the other. Its first phase resolves all indices, from the
outermost accessor to the innermost, and the root after them; only there names are asked for. Its
second phase applies the accessors to the value of the root, from the innermost to the outermost,
and sees no context. Main statement: both come to the same run.
-/

namespace Splice

/-- An accessor whose index is known. -/
inductive Resolved where
  | index (n : Int64)
  | key (name : String)
  | size
  | random

/-- The value of a root with the accessors to apply to it, the innermost first, each with the path
it reports. -/
structure Prepared where
  root : Found
  accessors : List (String × Resolved)

/-! ## First phase -/

/-- The index and the names asked for it: none for a literal, else the attribute, once. -/
def IndexSpec.lookUp (context : Context) : IndexSpec → Except EvalError Int64 × List String
  | .literal n => (.ok n, [])
  | .attribute name =>
    match context name with
    | none => (.error (.undefinedAttribute name), [name])
    | some value =>
      match value.cast (.integer .int64) with
      | .error e => (.error (.cast e), [name])
      | .ok n => (.ok (Int64.ofInt n), [name])

def Accessor.lookUp (context : Context) : Accessor → Except EvalError Resolved × List String
  | .index spec => ((spec.lookUp context).1.map .index, (spec.lookUp context).2)
  | .key name => (.ok (.key name), [])
  | .size => (.ok .size, [])
  | .random => (.ok .random, [])

/-- Resolves a part from its outermost accessor to its root. The first failure ends it. -/
def Part.prepare (context : Context) : Part → Except EvalError Prepared × List String
  | .text content => (.ok ⟨⟨.string content, .computed⟩, []⟩, [])
  | .attribute name =>
    match context name with
    | none => (.error (.undefinedAttribute name), [name])
    | some value => (.ok ⟨⟨value, .stored⟩, []⟩, [name])
  | .access child path accessor =>
    match accessor.lookUp context with
    | (.error e, asked) => (.error e, asked)
    | (.ok resolved, asked) =>
      let (result, more) := child.prepare context
      (result.map fun p => { p with accessors := p.accessors ++ [(path, resolved)] }, asked ++ more)

/-! ## Second phase -/

/-- Applies an accessor by the shape of the value. A sequence has a size, the elements at the
indices below it, and a random element if there is one; a set has a size, a mapping a size and the
values of its keys, and a scalar nothing. A random element takes one draw. -/
def Resolved.apply (path : String) (found : Found) (draws : List Nat) :
    Resolved → Except EvalError Found × List Nat
  | size =>
    match found.value with
    | .list items | .set items => (.ok ⟨.int (Int64.ofNat items.length), .computed⟩, draws)
    | .map entries => (.ok ⟨.int (Int64.ofNat entries.length), .computed⟩, draws)
    | value => (.error (.sizeNotSupported value path), draws)
  | index n =>
    match found.value with
    | .list items =>
      if h : 0 ≤ n.toInt ∧ n.toInt < items.length then
        (.ok ⟨items[n.toInt.toNat], found.origin⟩, draws)
      else (.error (.undefinedIndex path n), draws)
    | value => (.error (.indexNotSupported value path), draws)
  | key name =>
    match found.value with
    | .map entries =>
      match entries.lookup name with
      | some value => (.ok ⟨value, found.origin⟩, draws)
      | none => (.error (.undefinedKey path name), draws)
    | value => (.error (.keyAccessNotSupported value path), draws)
  | random =>
    match found.value with
    | .list (item :: items) =>
      have h := Nat.mod_lt (draws.headD 0) (Nat.zero_lt_succ items.length)
      (.ok ⟨(item :: items)[draws.headD 0 % (items.length + 1)], found.origin⟩, draws.tail)
    | value => (.error (.randomNotSupported value path), draws)

/-- Applies accessors one after the other. The first failure ends it. -/
def Resolved.applyAll : List (String × Resolved) → Found → List Nat →
    Except EvalError Found × List Nat
  | [], found, draws => (.ok found, draws)
  | (path, accessor) :: rest, found, draws =>
    match accessor.apply path found draws with
    | (.error e, draws) => (.error e, draws)
    | (.ok next, draws) => applyAll rest next draws

/-- The run of a part in two phases, of which the second follows if the first succeeds. -/
def Part.runTwoPhase (part : Part) (context : Context) (draws : List Nat) : Run Found :=
  match part.prepare context with
  | (.error e, asked) => ⟨.error e, asked, draws⟩
  | (.ok prepared, asked) =>
    let (result, rest) := Resolved.applyAll prepared.accessors prepared.root draws
    ⟨result, asked, rest⟩

/-! ## Agreement -/

theorem IndexSpec.run_resolve (spec : IndexSpec) (context : Context) (draws : List Nat) :
    spec.resolve.run context draws =
      ⟨(spec.lookUp context).1, (spec.lookUp context).2, draws⟩ := by
  match spec with
  | .literal n => rfl
  | .attribute name =>
    simp only [resolve, lookUp, Evaluation.require, Evaluation.bind_eq, Evaluation.bind,
      Evaluation.run]
    cases context name with
    | none => rfl
    | some value =>
      simp only [Evaluation.bind, Evaluation.cast]
      cases value.cast (.integer .int64) <;> rfl

/-- How the evaluation of a part resolves an accessor. -/
def Accessor.resolve : Accessor → Evaluation Resolved
  | .index spec => spec.resolve.bind fun n => .done (.index n)
  | .key name => .done (.key name)
  | .size => .done .size
  | .random => .done .random

theorem Accessor.run_resolve (accessor : Accessor) (context : Context) (draws : List Nat) :
    accessor.resolve.run context draws =
      ⟨(accessor.lookUp context).1, (accessor.lookUp context).2, draws⟩ := by
  cases accessor with
  | index spec =>
    rw [resolve, Evaluation.run_bind, IndexSpec.run_resolve, lookUp]
    cases (spec.lookUp context).1 <;> simp [Run.andThen, Evaluation.run, Except.map]
  | _ => rfl

theorem Accessor.lookUp_ne_random {accessor : Accessor} {context : Context} {resolved : Resolved}
    (hrandom : accessor ≠ .random) (h : (accessor.lookUp context).1 = .ok resolved) :
    resolved ≠ .random := by
  rintro rfl
  cases accessor with
  | index spec =>
    cases hspec : (spec.lookUp context).1 <;> simp [lookUp, hspec, Except.map] at h
  | key name => cases h
  | size => cases h
  | random => exact hrandom rfl

/-- How the evaluation of a part applies an accessor whose index is known. -/
def Resolved.evaluate (path : String) (found : Found) : Resolved → Evaluation Found
  | index n => found.atIndex path n
  | key name => found.atKey path name
  | size => found.size path
  | random => found.atRandom path

theorem Evaluation.run_ofExcept {α : Type} (result : Except EvalError α) (context : Context)
    (draws : List Nat) : (ofExcept result).run context draws = ⟨result, [], draws⟩ := by
  cases result <;> rfl

theorem Evaluation.ofExcept_injective {α : Type} {r r' : Except EvalError α}
    (h : ofExcept r = ofExcept r') : r = r' := by
  cases r <;> cases r' <;> cases h <;> rfl

/-- Applying an accessor that is not random takes no draws: it has a result or fails. -/
theorem Resolved.evaluate_of_ne_random {accessor : Resolved} (h : accessor ≠ .random)
    (path : String) (found : Found) (draws : List Nat) :
    accessor.evaluate path found = .ofExcept (accessor.apply path found draws).1 ∧
      (accessor.apply path found draws).2 = draws := by
  obtain ⟨value, origin⟩ := found
  cases accessor with
  | size => cases value <;> exact ⟨rfl, rfl⟩
  | index n =>
    cases value with
    | list items =>
      simp only [evaluate, apply, Found.atIndex, Value.shape, Value.element?, ne_eq,
        not_true_eq_false, if_false]
      by_cases hneg : n.toInt < 0
      · have hrange : ¬ (0 ≤ n.toInt ∧ n.toInt < items.length) := by omega
        rw [if_pos hneg, dif_neg hrange]
        exact ⟨rfl, rfl⟩
      · rw [if_neg hneg]
        by_cases hlt : n.toInt.toNat < items.length
        · have hrange : 0 ≤ n.toInt ∧ n.toInt < items.length := by omega
          rw [dif_pos hrange, List.getElem?_eq_getElem hlt]
          exact ⟨rfl, rfl⟩
        · have hrange : ¬ (0 ≤ n.toInt ∧ n.toInt < items.length) := by omega
          rw [dif_neg hrange, List.getElem?_eq_none (Nat.le_of_not_lt hlt)]
          exact ⟨rfl, rfl⟩
    | _ => exact ⟨rfl, rfl⟩
  | key name =>
    cases value with
    | map entries =>
      simp only [evaluate, apply, Found.atKey, Value.shape, Value.entry?, ne_eq,
        not_true_eq_false, if_false]
      cases entries.lookup name <;> exact ⟨rfl, rfl⟩
    | _ => exact ⟨rfl, rfl⟩
  | random => exact absurd rfl h

theorem Resolved.run_evaluate (accessor : Resolved) (path : String) (found : Found)
    (context : Context) (draws : List Nat) :
    (accessor.evaluate path found).run context draws =
      ⟨(accessor.apply path found draws).1, [], (accessor.apply path found draws).2⟩ := by
  by_cases hrandom : accessor = .random
  · subst hrandom
    obtain ⟨value, origin⟩ := found
    cases value with
    | list items =>
      cases items with
      | nil => rfl
      | cons item items =>
        have hlt : draws.headD 0 % (items.length + 1) < (item :: items).length :=
          Nat.mod_lt _ (Nat.zero_lt_succ _)
        simp only [evaluate, apply, Found.atRandom, Found.choices, List.length_cons,
          Nat.succ_ne_zero, if_false, Evaluation.run, Value.element?,
          List.getElem?_eq_getElem hlt]
        rfl
    | _ => rfl
  · obtain ⟨heval, hdraws⟩ := evaluate_of_ne_random hrandom path found draws
    rw [heval, Evaluation.run_ofExcept, hdraws]

theorem Part.eval_access (child : Part) (path : String) (accessor : Accessor) :
    (Part.access child path accessor).eval =
      accessor.resolve.bind fun resolved => child.eval.bind (resolved.evaluate path) := by
  cases accessor with
  | index spec =>
    rw [Accessor.resolve, Evaluation.bind_bind]
    rfl
  | _ => rfl

/-- The result of an accessor: its index, then its child, then the accessor applied. -/
theorem Part.result_access (child : Part) (path : String) (accessor : Accessor)
    (context : Context) (draws : List Nat) :
    ((Part.access child path accessor).eval.run context draws).result =
      (accessor.lookUp context).1.bind fun resolved =>
        (child.eval.run context draws).result.bind fun found =>
          (resolved.apply path found (child.eval.run context draws).draws).1 := by
  rw [eval_access, Evaluation.run_bind, Accessor.run_resolve]
  cases (accessor.lookUp context).1 with
  | error e => rfl
  | ok resolved =>
    simp only [Run.andThen, Evaluation.run_bind, Resolved.run_evaluate, Except.bind]
    cases (child.eval.run context draws).result <;> rfl

/-- The run of an accessor: its index is looked up, then its child runs, and what that found the
accessor is applied to. -/
theorem Part.run_access (child : Part) (path : String) (accessor : Accessor) (context : Context)
    (draws : List Nat) :
    (Part.access child path accessor).eval.run context draws =
      (⟨(accessor.lookUp context).1, (accessor.lookUp context).2, draws⟩ : Run Resolved).andThen
        fun resolved _ => (child.eval.run context draws).andThen fun found rest =>
          ⟨(resolved.apply path found rest).1, [], (resolved.apply path found rest).2⟩ := by
  rw [eval_access, Evaluation.run_bind, Accessor.run_resolve]
  cases (accessor.lookUp context).1 with
  | error e => rfl
  | ok resolved => simp only [Run.andThen, Evaluation.run_bind, Resolved.run_evaluate]

theorem Resolved.applyAll_append (before : List (String × Resolved)) (path : String)
    (accessor : Resolved) (found : Found) (draws : List Nat) :
    applyAll (before ++ [(path, accessor)]) found draws =
      match applyAll before found draws with
      | (.error e, draws) => (.error e, draws)
      | (.ok next, draws) => accessor.apply path next draws := by
  induction before generalizing found draws with
  | nil =>
    simp only [List.nil_append, applyAll]
    rcases accessor.apply path found draws with ⟨result, rest⟩
    cases result <;> rfl
  | cons first before ih =>
    obtain ⟨path', first⟩ := first
    rw [List.cons_append, applyAll, applyAll]
    rcases first.apply path' found draws with ⟨result, rest⟩
    cases result with
    | error e => rfl
    | ok next => exact ih next rest

/-- An evaluation gives the result, asks the names and takes the draws that resolving all indices
first and applying all accessors afterwards does. -/
theorem Part.run_eval_eq_runTwoPhase (context : Context) (draws : List Nat) :
    ∀ part : Part, part.eval.run context draws = part.runTwoPhase context draws
  | .text content => rfl
  | .attribute name => by
    simp only [eval, runTwoPhase, prepare, Evaluation.require, Evaluation.bind_eq, Evaluation.bind,
      Evaluation.run]
    cases context name <;> rfl
  | .access child path accessor => by
    have ih := run_eval_eq_runTwoPhase context draws child
    rw [eval_access, Evaluation.run_bind, Accessor.run_resolve, runTwoPhase, prepare]
    rcases accessor.lookUp context with ⟨result, asked⟩
    cases result with
    | error e => rfl
    | ok resolved =>
      -- The index took no draws, so the child runs on the draws of the hypothesis.
      rw [runTwoPhase] at ih
      simp only [Run.andThen]
      rw [Evaluation.run_bind, ih]
      rcases child.prepare context with ⟨result, more⟩
      cases result with
      | error e => rfl
      | ok prepared =>
        dsimp only [Except.map]
        rw [Resolved.applyAll_append]
        rcases Resolved.applyAll prepared.accessors prepared.root draws with ⟨result, rest⟩
        cases result with
        | error e => rfl
        | ok found => simp [Run.andThen, Resolved.run_evaluate]

end Splice
