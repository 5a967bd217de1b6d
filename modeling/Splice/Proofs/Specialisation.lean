import Splice.Proofs.Navigation

/-!
# Specialised indices

An attribute that stands as an index can be replaced by the integer it holds. Main statement: in a
context where the attribute holds that integer this changes nothing that an evaluation comes to,
wherever in a chain it is done, and saves one lookup for each index replaced that it gets to.
-/

namespace Splice
namespace Part

/-- The accessors of a part from the outermost inwards. The depth of one is the number of accessors
around it. -/
def accessors (part : Part) : List Accessor := part.nodes.reverse.map Prod.snd

@[simp] theorem accessors_access (child : Part) (path : String) (accessor : Accessor) :
    (access child path accessor).accessors = accessor :: child.accessors := by
  simp [accessors, nodes]

/-- The part with a literal index for the attribute `name`, in the accessors at the chosen depths
that have it. -/
def specialise (name : String) (n : Int64) (chosen : Nat → Bool) : Part → Part
  | .text content => .text content
  | .attribute other => .attribute other
  | .access child path accessor =>
    .access (child.specialise name n fun depth => chosen (depth + 1)) path
      (if chosen 0 ∧ accessor = .index (.attribute name) then .index (.literal n) else accessor)

/-- Whether the accessor at a depth has another index in the specialised part. -/
def replaces (name : String) (chosen : Nat → Bool) (part : Part) (depth : Nat) : Bool :=
  chosen depth && part.accessors[depth]? = some (.index (.attribute name))

/-- Whether evaluation gets to the accessor at a depth: it starts from the outermost and stops at
the first index that cannot be resolved. -/
def reaches (context : Context) (part : Part) (depth : Nat) : Bool :=
  (part.accessors.take depth).all fun accessor => (accessor.lookUp context).1.isOk

/-- The lookups of an evaluation in order, each at its depth. The root is looked up last, below all
accessors. -/
def lookUps (context : Context) : Part → List (Nat × String)
  | .text _ => []
  | .attribute name => [(0, name)]
  | .access child _ accessor =>
    (accessor.lookUp context).2.map (0, ·) ++
      match (accessor.lookUp context).1 with
      | .ok _ => (child.lookUps context).map (Prod.map Nat.succ id)
      | .error _ => []

variable {name : String} {chosen : Nat → Bool} {context : Context}

theorem replaces_access_zero (child : Part) (path : String) (accessor : Accessor) :
    (access child path accessor).replaces name chosen 0 =
      decide (chosen 0 ∧ accessor = .index (.attribute name)) := by
  simp [replaces]

@[simp] theorem replaces_access_succ (child : Part) (path : String) (accessor : Accessor)
    (depth : Nat) :
    (access child path accessor).replaces name chosen (depth + 1) =
      child.replaces name (fun depth => chosen (depth + 1)) depth := by
  simp [replaces]

@[simp] theorem reaches_zero (part : Part) : part.reaches context 0 = true := by
  simp [reaches]

@[simp] theorem reaches_access_succ (child : Part) (path : String) (accessor : Accessor)
    (depth : Nat) :
    (access child path accessor).reaches context (depth + 1) =
      ((accessor.lookUp context).1.isOk && child.reaches context depth) := by
  simp [reaches]

theorem asked_eval (draws : List Nat) : ∀ part : Part,
    (part.eval.run context draws).asked = (part.lookUps context).map Prod.snd
  | .text content => rfl
  | .attribute name => by
    simp only [eval, Evaluation.require, Evaluation.bind_eq, Evaluation.bind, Evaluation.run]
    cases context name <;> rfl
  | .access child path accessor => by
    have ih := asked_eval draws child
    rw [run_access, lookUps]
    cases (accessor.lookUp context).1 with
    | error e => simp [Run.andThen]
    | ok resolved =>
      cases hchild : (child.eval.run context draws).result <;>
        simp [Run.andThen, hchild, ih]

/-! ## Specialised parts -/

section

variable {n : Int64}
  (hlookUp : (Accessor.index (.attribute name)).lookUp context = (.ok (.index n), [name]))

include hlookUp

theorem lookUp_fst_specialise (depth : Nat) (accessor : Accessor) :
    ((if chosen depth ∧ accessor = .index (.attribute name) then .index (.literal n)
      else accessor : Accessor).lookUp context).1 = (accessor.lookUp context).1 := by
  split
  · rename_i h
    rw [h.2, hlookUp]
    rfl
  · rfl

/-- A specialised part has the result of the first, and leaves the same draws. -/
theorem result_specialise (draws : List Nat) : ∀ (part : Part) (chosen : Nat → Bool),
    ((part.specialise name n chosen).eval.run context draws).result =
        (part.eval.run context draws).result ∧
      ((part.specialise name n chosen).eval.run context draws).draws =
        (part.eval.run context draws).draws
  | .text content, _ => ⟨rfl, rfl⟩
  | .attribute other, _ => ⟨rfl, rfl⟩
  | .access child path accessor, chosen => by
    obtain ⟨hresult, hdraws⟩ := result_specialise draws child fun depth => chosen (depth + 1)
    rw [specialise, run_access, run_access, lookUp_fst_specialise hlookUp]
    cases (accessor.lookUp context).1 with
    | error e => exact ⟨rfl, rfl⟩
    | ok resolved =>
      simp only [Run.andThen, hresult, hdraws]
      cases (child.eval.run context draws).result <;> exact ⟨rfl, rfl⟩

/-- A specialised part makes the lookups of the first but for the indices that are replaced. -/
theorem lookUps_specialise : ∀ (part : Part) (chosen : Nat → Bool),
    (part.specialise name n chosen).lookUps context =
      (part.lookUps context).filter fun lookUp => !part.replaces name chosen lookUp.1
  | .text content, _ => rfl
  | .attribute other, _ => by simp [specialise, lookUps, replaces, accessors, nodes]
  | .access child path accessor, chosen => by
    have ih := lookUps_specialise child fun depth => chosen (depth + 1)
    rw [specialise, lookUps, lookUps, lookUp_fst_specialise hlookUp, List.filter_append]
    congr 1
    · -- At depth zero there is the lookup of this accessor, if any.
      rw [List.filter_map]
      split
      · rename_i h
        rw [h.2, hlookUp]
        simp [Function.comp_def, replaces_access_zero, h.1, Accessor.lookUp, IndexSpec.lookUp]
      · rename_i h
        simp [Function.comp_def, replaces_access_zero, h]
    · cases (accessor.lookUp context).1 with
      | error e => rfl
      | ok resolved =>
        dsimp only
        rw [ih, List.filter_map]
        simp [Function.comp_def]

/-- Each index replaced that evaluation gets to is one lookup of the attribute. -/
theorem filter_lookUps : ∀ (part : Part) (chosen : Nat → Bool),
    (part.lookUps context).filter (fun lookUp => part.replaces name chosen lookUp.1) =
      ((List.range part.accessors.length).filter fun depth =>
        part.replaces name chosen depth && part.reaches context depth).map fun depth =>
          (depth, name)
  | .text content, _ => rfl
  | .attribute other, _ => by simp [lookUps, replaces, accessors, nodes]
  | .access child path accessor, chosen => by
    have ih := filter_lookUps child fun depth => chosen (depth + 1)
    rw [lookUps, List.filter_append, accessors_access, List.length_cons,
      List.range_succ_eq_map, List.filter_cons, List.filter_map, List.filter_map]
    simp only [replaces_access_zero, Function.comp_def, Nat.succ_eq_add_one,
      replaces_access_succ, reaches_zero, reaches_access_succ]
    by_cases h : chosen 0 ∧ accessor = .index (.attribute name)
    · obtain ⟨hchosen, rfl⟩ := h
      rw [hlookUp]
      simp [hchosen, List.filter_map, Function.comp_def, ih, Except.isOk, Except.toBool]
    · cases hresolve : (accessor.lookUp context).1 with
      | error e => simp [h, Except.isOk, Except.toBool]
      | ok resolved => simp [h, List.filter_map, Function.comp_def, ih, Except.isOk, Except.toBool]

end

/-- In a context where the attribute holds an integer, a part with that integer for the attribute,
as any of its indices, has the run of the part itself, with the same value or failure, but for
lookups. Those that are left out are one of the attribute for each index replaced that evaluation
gets to; the others are kept in their order. -/
theorem run_specialise_index {value : Value} {n : Int64} (hbound : context name = some value)
    (hcast : value.cast (.integer .int64) = .ok n.toInt) (part : Part) (chosen : Nat → Bool)
    (draws : List Nat) :
    (part.eval.run context draws).asked = (part.lookUps context).map Prod.snd ∧
    (part.specialise name n chosen).eval.run context draws =
      { part.eval.run context draws with
        asked := ((part.lookUps context).filter fun lookUp =>
          !part.replaces name chosen lookUp.1).map Prod.snd } ∧
    (part.lookUps context).filter (fun lookUp => part.replaces name chosen lookUp.1) =
      ((List.range part.accessors.length).filter fun depth =>
        part.replaces name chosen depth && part.reaches context depth).map fun depth =>
          (depth, name) := by
  have hlookUp : (Accessor.index (.attribute name)).lookUp context =
      (.ok (.index n), [name]) := by
    simp [Accessor.lookUp, IndexSpec.lookUp, hbound, hcast, Except.map]
  obtain ⟨hresult, hdraws⟩ := result_specialise hlookUp draws part chosen
  refine ⟨asked_eval draws part, ?_, filter_lookUps hlookUp part chosen⟩
  have hasked : ((part.specialise name n chosen).eval.run context draws).asked = _ :=
    asked_eval draws _
  rw [lookUps_specialise hlookUp] at hasked
  cases hrun : (part.specialise name n chosen).eval.run context draws with
  | mk result asked rest =>
    rw [hrun] at hresult hdraws hasked
    dsimp only at hresult hdraws hasked
    rw [hresult, hdraws, hasked]

theorem run_specialise_index_unreached :
    let context : Context := fun name =>
      if name = "l" then some (.list []) else if name = "i" then some (.string "+1") else none
    let index (child : Part) (path name : String) : Part :=
      .access child path (.index (.attribute name))
    let part := index (index (index (.attribute "l") "l" "i") "l(i)" "j") "l(i)(j)" "i"
    context "i" = some (.string "+1") ∧
      (Value.string "+1").cast (.integer .int64) = .ok (1 : Int64).toInt ∧
      part.eval.run context [] = ⟨.error (.undefinedAttribute "j"), ["i", "j"], []⟩ ∧
      (part.specialise "i" 1 fun _ => true).eval.run context [] =
        ⟨.error (.undefinedAttribute "j"), ["j"], []⟩ := by
  intro context index part
  have hbound : context "i" = some (.string "+1") := by cbv
  have hcast : (Value.string "+1").cast (.integer .int64) = .ok (1 : Int64).toInt := by cbv
  have hrun : part.eval.run context [] =
      ⟨.error (.undefinedAttribute "j"), ["i", "j"], []⟩ := by cbv
  refine ⟨hbound, hcast, hrun, ?_⟩
  rw [(run_specialise_index hbound hcast part (fun _ => true) []).2.1, hrun]
  cbv

end Part
end Splice
