import Splice.Proofs.Navigation

/-!
# Sub-values

Where the result of a part comes from. Literal text and sizes are computed. Everything else is found
inside the value of the root, one step further with each accessor: to the element at an index that
was resolved or drawn, or to the value of a key. Main statement: this is all that an evaluation can
find. Nothing is ever found inside a computed value, since it is a string or an integer, so a chain
over one fails, and what would be done inside of it makes no difference.
-/

namespace Splice

/-! ## Steps -/

namespace Value

/-- A step into a value: to an element of a list, or to the value of a key of a map. -/
inductive Step where
  | element (position : Nat)
  | entry (key : String)

def step? (value : Value) : Step → Option Value
  | .element position => value.element? position
  | .entry key => value.entry? key

/-- The sub-value to which steps lead, one after the other. -/
def descend? (value : Value) (steps : List Step) : Option Value := steps.foldlM step? value

theorem descend?_concat (value : Value) (steps : List Step) (step : Step) :
    value.descend? (steps ++ [step]) = (value.descend? steps).bind (·.step? step) := by
  rw [descend?, List.foldlM_append]
  congr
  funext reached
  exact bind_pure (reached.step? step)

end Value

/-- The step that an accessor takes in a value, and the draws it leaves. An index is a position
unless it is negative; a position in a list is drawn below its length. -/
inductive Resolved.Takes (value : Value) (draws : List Nat) :
    Resolved → Value.Step → List Nat → Prop
  | index {n : Int64} {position : Nat} : n.toInt = position →
      Takes value draws (.index n) (.element position) draws
  | key (name : String) : Takes value draws (.key name) (.entry name) draws
  | random {items : List Value} : value = .list items →
      Takes value draws .random (.element (draws.headD 0 % items.length)) draws.tail

/-- The chain leads to a value by steps from the value of its root, one for each accessor, and
leaves some draws. -/
inductive Part.Leads (context : Context) (draws : List Nat) :
    Part → List Value.Step → Value → List Nat → Prop
  | root {name : String} {value : Value} : context name = some value →
      Leads context draws (.attribute name) [] value draws
  | access {child : Part} {path : String} {accessor : Accessor} {resolved : Resolved}
      {steps : List Value.Step} {step : Value.Step} {before value : Value} {rest rest' : List Nat} :
      Leads context draws child steps before rest → (accessor.lookUp context).1 = .ok resolved →
      resolved.Takes before rest step rest' → before.step? step = some value →
      Leads context draws (.access child path accessor) (steps ++ [step]) value rest'

namespace Part

variable {context : Context} {draws rest : List Nat}

theorem Leads.descend? {part : Part} {steps : List Value.Step} {value : Value}
    (h : part.Leads context draws steps value rest) :
    steps.length = part.nodes.length ∧ ∃ name bound, part.root? = some name ∧
      context name = some bound ∧ bound.descend? steps = some value := by
  induction h with
  | root hname => exact ⟨rfl, _, _, rfl, hname, rfl⟩
  | access _ _ _ hstep ih =>
    obtain ⟨hlength, name, bound, hroot, hname, hbefore⟩ := ih
    refine ⟨by simp [nodes, hlength], name, bound, hroot, hname, ?_⟩
    rw [Value.descend?_concat, hbefore, Option.bind_some, hstep]

end Part

/-! ## One accessor -/

namespace Resolved

variable {path : String} {found next : Found} {draws rest : List Nat}

theorem apply_size_eq_ok_iff :
    size.apply path found draws = (.ok next, rest) ↔
      (∃ n, found.value.size? = some n ∧ next = ⟨.int (Int64.ofNat n), .computed⟩) ∧
        rest = draws := by
  obtain ⟨value, origin⟩ := found
  cases value <;> simp [apply, Value.size?, eq_comm]

theorem apply_index_eq_ok_iff {n : Int64} :
    (index n).apply path found draws = (.ok next, rest) ↔
      (∃ position : Nat, n.toInt = position ∧ found.value.element? position = some next.value) ∧
        next.origin = found.origin ∧ rest = draws := by
  obtain ⟨value, origin⟩ := found
  obtain ⟨value', origin'⟩ := next
  cases value with
  | list items =>
    constructor
    · intro happly
      simp only [apply] at happly
      split at happly
      · rename_i hrange
        cases happly
        have hposition : n.toInt = n.toInt.toNat := (Int.toNat_of_nonneg hrange.1).symm
        exact ⟨⟨_, hposition, List.getElem?_eq_getElem _⟩, rfl, rfl⟩
      · cases happly
    · rintro ⟨⟨position, hposition, hitem⟩, rfl, rfl⟩
      obtain ⟨hlt, rfl⟩ := List.getElem?_eq_some_iff.mp hitem
      simp [apply, hposition, hlt]
  | _ => simp [apply, Value.element?]

theorem apply_key_eq_ok_iff {name : String} :
    (key name).apply path found draws = (.ok next, rest) ↔
      found.value.entry? name = some next.value ∧ next.origin = found.origin ∧ rest = draws := by
  obtain ⟨value, origin⟩ := found
  obtain ⟨value', origin'⟩ := next
  cases value with
  | map entries =>
    simp only [apply, Value.entry?]
    cases entries.lookup name with
    | none => simp
    | some value => simp [eq_comm, and_assoc]
  | _ => simp [apply, Value.entry?]

theorem apply_random_eq_ok_iff :
    random.apply path found draws = (.ok next, rest) ↔
      (∃ items, found.value = .list items ∧
        items[draws.headD 0 % items.length]? = some next.value) ∧
        next.origin = found.origin ∧ rest = draws.tail := by
  obtain ⟨value, origin⟩ := found
  obtain ⟨value', origin'⟩ := next
  cases value with
  | list items =>
    cases items with
    | nil => simp [apply]
    | cons item items =>
      constructor
      · intro happly
        simp only [apply] at happly
        cases happly
        exact ⟨⟨_, rfl, List.getElem?_eq_getElem _⟩, rfl, rfl⟩
      · rintro ⟨⟨_, ⟨⟩, hitem⟩, rfl, rfl⟩
        obtain ⟨hlt, rfl⟩ := List.getElem?_eq_some_iff.mp hitem
        rfl
  | _ => simp [apply]

/-- An accessor other than a size finds what is one step further in, with the origin of what it was
applied to. -/
theorem apply_eq_ok_iff_takes {accessor : Resolved} (h : accessor ≠ .size) :
    accessor.apply path found draws = (.ok next, rest) ↔
      (∃ step, accessor.Takes found.value draws step rest ∧
        found.value.step? step = some next.value) ∧ next.origin = found.origin := by
  cases accessor with
  | size => exact absurd rfl h
  | index n =>
    rw [apply_index_eq_ok_iff]
    constructor
    · rintro ⟨⟨position, hposition, hvalue⟩, horigin, rfl⟩
      exact ⟨⟨_, .index hposition, hvalue⟩, horigin⟩
    · rintro ⟨⟨step, ⟨hposition⟩, hvalue⟩, horigin⟩
      exact ⟨⟨_, hposition, hvalue⟩, horigin, rfl⟩
  | key name =>
    rw [apply_key_eq_ok_iff]
    constructor
    · rintro ⟨hvalue, horigin, rfl⟩
      exact ⟨⟨_, .key name, hvalue⟩, horigin⟩
    · rintro ⟨⟨step, ⟨⟩, hvalue⟩, horigin⟩
      exact ⟨hvalue, horigin, rfl⟩
  | random =>
    rw [apply_random_eq_ok_iff]
    constructor
    · rintro ⟨⟨items, hitems, hvalue⟩, horigin, rfl⟩
      refine ⟨⟨_, .random hitems, ?_⟩, horigin⟩
      rw [hitems]
      exact hvalue
    · rintro ⟨⟨step, htakes, hvalue⟩, horigin⟩
      cases htakes with
      | random hitems =>
        rw [hitems] at hvalue
        exact ⟨⟨_, hitems, hvalue⟩, horigin, rfl⟩

/-- No accessor applies to a scalar. -/
theorem shape_ne_scalar_of_apply {accessor : Resolved}
    (h : (accessor.apply path found draws).1 = .ok next) : found.value.shape ≠ .scalar := by
  obtain ⟨value, origin⟩ := found
  intro hscalar
  cases value <;> cases hscalar <;> cases accessor <;> cases h

end Resolved

/-! ## Chains -/

/-- The outermost node of the part computes its value: literal text, or a size. -/
inductive Part.Computes : Part → Prop
  | text (content : String) : Computes (.text content)
  | size (child : Part) (path : String) : Computes (.access child path .size)

/-- The part occurs in another one, below an accessor of it. -/
inductive Part.Below (inner : Part) : Part → Prop
  | child (path : String) (accessor : Accessor) : Below inner (.access inner path accessor)
  | access {child : Part} (path : String) (accessor : Accessor) :
      Below inner child → Below inner (.access child path accessor)

theorem Accessor.eq_size_of_lookUp {accessor : Accessor} {context : Context}
    (h : (accessor.lookUp context).1 = .ok .size) : accessor = .size := by
  cases accessor with
  | index spec => cases hspec : (spec.lookUp context).1 <;> simp [lookUp, hspec, Except.map] at h
  | key name => cases h
  | size => rfl
  | random => cases h

namespace Part

variable {context : Context} {draws : List Nat}

/-- An accessor finds something if its index is resolved, its child finds something, and there the
accessor applies. -/
theorem run_access_eq_ok_iff {child : Part} {path : String} {accessor : Accessor} {found : Found}
    {rest : List Nat} :
    (((access child path accessor).eval.run context draws).result = .ok found ∧
      ((access child path accessor).eval.run context draws).draws = rest) ↔
      ∃ resolved inner, (accessor.lookUp context).1 = .ok resolved ∧
        (child.eval.run context draws).result = .ok inner ∧
        resolved.apply path inner (child.eval.run context draws).draws = (.ok found, rest) := by
  rw [run_access]
  cases (accessor.lookUp context).1 with
  | error e => simp [Run.andThen]
  | ok resolved =>
    cases hchild : (child.eval.run context draws).result with
    | error e => simp [Run.andThen, hchild]
    | ok inner => simp [Run.andThen, hchild, Prod.ext_iff]

theorem not_computes_access {child : Part} {path : String} {accessor : Accessor}
    (h : accessor ≠ .size) : ¬ (access child path accessor).Computes := by
  rintro ⟨⟩
  exact h rfl

/-- What a part finds was computed by its outermost node, and is a scalar then, or it is stored in
the value of the root, where the accessors lead to it. -/
theorem computed_or_leads : ∀ (part : Part) {found : Found} {rest : List Nat},
    (part.eval.run context draws).result = .ok found ∧
      (part.eval.run context draws).draws = rest →
    (part.Computes ∧ found.origin = .computed ∧ found.value.shape = .scalar) ∨
      (¬ part.Computes ∧ found.origin = .stored ∧
        ∃ steps, part.Leads context draws steps found.value rest)
  | .text content, found, rest, ⟨hresult, _⟩ => by
    cases hresult
    exact Or.inl ⟨.text content, rfl, rfl⟩
  | .attribute name, found, rest, ⟨hresult, hrest⟩ => by
    simp only [eval, Evaluation.require, Evaluation.bind_eq, Evaluation.bind, Evaluation.run]
      at hresult hrest
    cases hname : context name with
    | none => simp [hname, Evaluation.bind, Evaluation.run] at hresult
    | some value =>
      simp only [hname, Evaluation.bind, Evaluation.pure_eq, Evaluation.run] at hresult hrest
      cases hresult
      subst hrest
      exact Or.inr ⟨by rintro ⟨⟩, rfl, [], .root hname⟩
  | .access child path accessor, found, rest, h => by
    obtain ⟨resolved, inner, hlookUp, hchild, happly⟩ := run_access_eq_ok_iff.mp h
    obtain ⟨-, -, hscalar⟩ | ⟨-, hstored, steps, hleads⟩ := computed_or_leads child ⟨hchild, rfl⟩
    · exact absurd hscalar (Resolved.shape_ne_scalar_of_apply (congrArg Prod.fst happly))
    · by_cases hsize : resolved = .size
      · subst hsize
        obtain rfl := Accessor.eq_size_of_lookUp hlookUp
        obtain ⟨⟨n, -, rfl⟩, -⟩ := Resolved.apply_size_eq_ok_iff.mp happly
        exact Or.inl ⟨.size child path, rfl, rfl⟩
      · obtain ⟨⟨step, htakes, hstep⟩, horigin⟩ :=
          (Resolved.apply_eq_ok_iff_takes hsize).mp happly
        refine Or.inr ⟨not_computes_access ?_, horigin.trans hstored, steps ++ [step],
          .access hleads hlookUp htakes hstep⟩
        rintro rfl
        exact hsize (Except.ok.inj hlookUp).symm

/-- What accessors lead to is found. -/
theorem Leads.run_eq_ok {part : Part} {steps : List Value.Step} {value : Value} {rest : List Nat}
    (h : part.Leads context draws steps value rest) :
    (part.eval.run context draws).result = .ok ⟨value, .stored⟩ ∧
      (part.eval.run context draws).draws = rest := by
  induction h with
  | root hname =>
    simp [eval, Evaluation.require, Evaluation.bind, Evaluation.run, hname]
  | @access _ _ _ resolved _ _ _ _ _ _ _ hlookUp htakes hstep ih =>
    have hsize : resolved ≠ .size := by
      rintro rfl
      cases htakes
    refine run_access_eq_ok_iff.mpr ⟨_, _, hlookUp, ih.1, ?_⟩
    exact (Resolved.apply_eq_ok_iff_takes hsize).mpr ⟨⟨_, ih.2 ▸ htakes, hstep⟩, rfl⟩

/-- An accessor finds nothing where its child computes or finds nothing. -/
theorem child_of_run_access {child : Part} {path : String} {accessor : Accessor} {found : Found}
    (h : ((access child path accessor).eval.run context draws).result = .ok found) :
    ¬ child.Computes ∧ ∃ inner, (child.eval.run context draws).result = .ok inner := by
  obtain ⟨resolved, inner, -, hchild, happly⟩ := run_access_eq_ok_iff.mp ⟨h, rfl⟩
  refine ⟨?_, inner, hchild⟩
  obtain ⟨-, -, hscalar⟩ | ⟨hcomputes, -⟩ := computed_or_leads child ⟨hchild, rfl⟩
  · exact absurd hscalar (Resolved.shape_ne_scalar_of_apply (congrArg Prod.fst happly))
  · exact hcomputes

theorem Below.exists_error {inner part : Part} (h : inner.Below part) (hinner : inner.Computes) :
    ∃ e, (part.eval.run context draws).result = .error e := by
  induction h with
  | child path accessor =>
    cases hresult : ((Part.access inner path accessor).eval.run context draws).result with
    | error e => exact ⟨e, rfl⟩
    | ok found => exact absurd hinner (child_of_run_access hresult).1
  | @access child path accessor _ ih =>
    cases hresult : ((Part.access child path accessor).eval.run context draws).result with
    | error e => exact ⟨e, rfl⟩
    | ok found =>
      obtain ⟨e, he⟩ := ih
      obtain ⟨-, below, hbelow⟩ := child_of_run_access hresult
      rw [he] at hbelow
      cases hbelow

end Part

/-! ## Detours -/

/-- What is done instead of stepping into a computed value, given that value and what is in it. -/
abbrev Detour := Found → Option Value → Evaluation (Option Found)

/-- What is reached in a value, by way of the detour where that value was computed. -/
def Found.reach (detour : Detour) (found : Found) (reached : Option Value) :
    Evaluation (Option Found) :=
  match found.origin with
  | .stored => .done (reached.map found.project)
  | .computed => detour found reached

/-- Applies an accessor, with a detour for computed values. -/
def Resolved.evaluateVia (detour : Detour) (path : String) (found : Found) :
    Resolved → Evaluation Found
  | size => found.size path
  | index n =>
    if found.value.shape ≠ .sequence then .fail (.indexNotSupported found.value path)
    else if n.toInt < 0 then .fail (.undefinedIndex path n)
    else
      (found.reach detour (found.value.element? n.toInt.toNat)).bind fun
        | some next => .done next
        | none => .fail (.undefinedIndex path n)
  | key name =>
    if found.value.shape ≠ .mapping then .fail (.keyAccessNotSupported found.value path)
    else
      (found.reach detour (found.value.entry? name)).bind fun
        | some next => .done next
        | none => .fail (.undefinedKey path name)
  | random =>
    if found.choices = 0 then .fail (.randomNotSupported found.value path)
    else
      .draw found.choices fun position =>
        (found.reach detour (found.value.element? position)).bind fun
          | some next => .done next
          | none => .fail (.undefinedIndex path (Int64.ofNat position))

/-- Evaluates a part, with a detour for computed values. -/
def Part.evalVia (detour : Detour) : Part → Evaluation Found
  | .text content => .done ⟨.string content, .computed⟩
  | .attribute name => (Evaluation.require name).bind fun value => .done ⟨value, .stored⟩
  | .access child path accessor =>
    accessor.resolve.bind fun resolved =>
      (child.evalVia detour).bind (resolved.evaluateVia detour path)

/-- No detour: a value reached in a computed one is computed. -/
def Detour.none : Detour := fun found reached => .done (reached.map found.project)

namespace Resolved

variable (accessor : Resolved) (path : String) {found : Found}

theorem evaluateVia_of_reach {detour : Detour}
    (h : ∀ reached, found.reach detour reached = .done (reached.map found.project)) :
    accessor.evaluateVia detour path found = accessor.evaluate path found := by
  cases accessor with
  | size => rfl
  | index n =>
    simp only [evaluateVia, evaluate, Found.atIndex, h, Evaluation.bind]
    cases found.value.element? n.toInt.toNat <;> rfl
  | key name =>
    simp only [evaluateVia, evaluate, Found.atKey, h, Evaluation.bind]
    cases found.value.entry? name <;> rfl
  | random =>
    simp only [evaluateVia, evaluate, Found.atRandom, h, Evaluation.bind]
    congr
    funext position
    cases found.value.element? position <;> rfl

/-- Nothing is stepped into in a scalar, so there the detour is not taken. -/
theorem evaluateVia_of_scalar (detour : Detour) (h : found.value.shape = .scalar) :
    accessor.evaluateVia detour path found = accessor.evaluate path found := by
  obtain ⟨value, origin⟩ := found
  cases value <;> cases h <;> cases accessor <;> rfl

end Resolved

namespace Part

theorem evalVia_none : ∀ part : Part, part.evalVia .none = part.eval
  | .text content => rfl
  | .attribute name => rfl
  | .access child path accessor => by
    have hreach (found : Found) (reached : Option Value) :
        found.reach .none reached = .done (reached.map found.project) := by
      rw [Found.reach]
      cases found.origin <;> rfl
    rw [evalVia, eval_access, evalVia_none child]
    congr
    funext resolved
    congr
    funext found
    exact resolved.evaluateVia_of_reach path (hreach found)

/-- Whatever the detour is, evaluation comes to the same: it is never taken. -/
theorem run_evalVia (detour : Detour) (context : Context) (draws : List Nat) :
    ∀ part : Part, (part.evalVia detour).run context draws = part.eval.run context draws
  | .text content => rfl
  | .attribute name => rfl
  | .access child path accessor => by
    have ih := run_evalVia detour context draws child
    rw [evalVia, eval_access, Evaluation.run_bind, Evaluation.run_bind, Accessor.run_resolve]
    cases (accessor.lookUp context).1 with
    | error e => rfl
    | ok resolved =>
      simp only [Run.andThen]
      rw [Evaluation.run_bind, Evaluation.run_bind, ih]
      cases hchild : (child.eval.run context draws).result with
      | error e => simp only [Run.andThen, hchild]
      | ok found =>
        have hsame : resolved.evaluateVia detour path found = resolved.evaluate path found := by
          obtain ⟨-, -, hscalar⟩ | ⟨-, hstored, -⟩ := computed_or_leads child ⟨hchild, rfl⟩
          · exact resolved.evaluateVia_of_scalar path detour hscalar
          · refine resolved.evaluateVia_of_reach path fun reached => ?_
            rw [Found.reach, hstored]
        simp only [Run.andThen, hchild, hsame]

end Part

/-- Where the result of an evaluation comes from. It is computed exactly where the outermost node
of the part is literal text or a size, and is that text or the size of what is below. Otherwise it
is stored in what the context binds the root to, and is reached from there by one step for each
accessor. A part with literal text or a size below an accessor has no result, and an evaluation is
the same with anything in place of stepping into a computed value. -/
theorem result_computed_or_subvalue (part : Part) (context : Context) (draws : List Nat) :
    (∀ found, (part.eval.run context draws).result = .ok found →
      (found.origin = .computed ↔ part.Computes) ∧
      (∀ content, part = .text content → found.value = .string content) ∧
      (∀ child path, part = .access child path .size →
        ∃ inner n, (child.eval.run context draws).result = .ok inner ∧
          inner.value.size? = some n ∧ found.value = .int (Int64.ofNat n)) ∧
      (¬ part.Computes → ∃ name bound steps, part.root? = some name ∧
        context name = some bound ∧ steps.length = part.nodes.length ∧
        part.Leads context draws steps found.value (part.eval.run context draws).draws ∧
        bound.descend? steps = some found.value)) ∧
    (∀ steps value rest, part.Leads context draws steps value rest →
      (part.eval.run context draws).result = .ok ⟨value, .stored⟩) ∧
    (∀ inner : Part, inner.Below part → inner.Computes →
      ∃ e, (part.eval.run context draws).result = .error e) ∧
    part.evalVia .none = part.eval ∧
    ∀ detour, (part.evalVia detour).run context draws = part.eval.run context draws := by
  refine ⟨fun found h => ⟨?_, ?_, ?_, ?_⟩, fun steps value rest h => h.run_eq_ok.1,
    fun inner hbelow hinner => hbelow.exists_error hinner, part.evalVia_none,
    fun detour => part.run_evalVia detour context draws⟩
  · obtain ⟨hcomputes, horigin, -⟩ | ⟨hcomputes, horigin, -⟩ := part.computed_or_leads ⟨h, rfl⟩
    · exact iff_of_true horigin hcomputes
    · rw [horigin]
      exact iff_of_false (by rintro ⟨⟩) hcomputes
  · rintro content rfl
    cases h
    rfl
  · rintro child path rfl
    obtain ⟨resolved, inner, hlookUp, hchild, happly⟩ := Part.run_access_eq_ok_iff.mp ⟨h, rfl⟩
    cases hlookUp
    obtain ⟨⟨n, hsize, rfl⟩, -⟩ := Resolved.apply_size_eq_ok_iff.mp happly
    exact ⟨inner, n, hchild, hsize, rfl⟩
  · intro hcomputes
    obtain ⟨hcomputes', -⟩ | ⟨-, -, steps, hleads⟩ := part.computed_or_leads ⟨h, rfl⟩
    · exact absurd hcomputes' hcomputes
    · obtain ⟨hlength, name, bound, hroot, hname, hdescend⟩ := hleads.descend?
      exact ⟨name, bound, steps, hroot, hname, hlength, hleads, hdescend⟩

theorem result_computed_or_subvalue_drawn :
    let context : Context := fun name =>
      if name = "a" then some (.list [.map [("k", .list [.null, .string "x"])]])
      else if name = "i" then some (.string "+0") else none
    let entry : Part := .access (.access (.attribute "a") "a" (.index (.attribute "i"))) "a(i)"
      (.key "k")
    let part : Part := .access entry "a(i).k" .random
    let size : Part := .access entry "a(i).k" .size
    part.Leads context [3] [.element 0, .entry "k", .element 1] (.string "x") [] ∧
      (part.eval.run context [3]).result = .ok ⟨.string "x", .stored⟩ ∧
      ¬ part.Computes ∧
      (∃ name bound steps, part.root? = some name ∧ context name = some bound ∧
        steps.length = 3 ∧ bound.descend? steps = some (.string "x")) ∧
      (size.eval.run context []).result = .ok ⟨.int 2, .computed⟩ ∧ size.Computes ∧
      size.Below (.access size "a(i).k.size" (.index (.literal 0))) ∧
      ∃ e, ((Part.access size "a(i).k.size" (.index (.literal 0))).eval.run context []).result =
        .error e := by
  intro context entry part size
  have hlookUp : ((Accessor.index (.attribute "i")).lookUp context).1 = .ok (.index 0) := by cbv
  have hentry (draws : List Nat) : entry.Leads context draws [.element 0, .entry "k"]
      (.list [.null, .string "x"]) draws :=
    .access (.access (.root rfl) hlookUp (.index rfl) rfl) rfl (.key "k") rfl
  have hleads : part.Leads context [3] [.element 0, .entry "k", .element 1] (.string "x") [] :=
    .access (hentry [3]) rfl (.random rfl) rfl
  have hpart : ¬ part.Computes := Part.not_computes_access (by decide)
  have hresult := (result_computed_or_subvalue part context [3]).2.1 _ _ _ hleads
  have hsize : (size.eval.run context []).result = .ok ⟨.int 2, .computed⟩ := by cbv
  have hcomputes : size.Computes :=
    ((result_computed_or_subvalue size context []).1 _ hsize).1.mp rfl
  have hbelow : size.Below (.access size "a(i).k.size" (.index (.literal 0))) := .child _ _
  refine ⟨hleads, hresult, hpart, ?_, hsize, hcomputes, hbelow,
    (result_computed_or_subvalue _ context []).2.2.1 size hbelow hcomputes⟩
  obtain ⟨name, bound, steps, hroot, hname, hlength, -, hdescend⟩ :=
    ((result_computed_or_subvalue part context [3]).1 _ hresult).2.2.2 hpart
  exact ⟨name, bound, steps, hroot, hname, hlength, hdescend⟩

end Splice
