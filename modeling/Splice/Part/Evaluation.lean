import Splice.Evaluation
import Splice.Part

/-!
# Evaluating a part

An accessor first resolves its index, then evaluates its child, and only then looks at the value
found. A value is found in what a name is bound to or computed by the part itself; literal text
and sizes are computed, and whatever is reached inside a value has its origin.
-/

namespace Splice

inductive Origin where
  | stored
  | computed
  deriving DecidableEq

structure Found where
  value : Value
  origin : Origin

namespace Found

open Evaluation

/-- A value reached inside the one found. -/
def project (found : Found) (value : Value) : Found := ⟨value, found.origin⟩

def size (found : Found) (path : String) : Evaluation Found :=
  match found.value.size? with
  | some n => done ⟨.int (Int64.ofNat n), .computed⟩
  | none => fail (.sizeNotSupported found.value path)

/-- The element at an index, which must not be negative. -/
def atIndex (found : Found) (path : String) (index : Int64) : Evaluation Found :=
  if found.value.shape ≠ .sequence then fail (.indexNotSupported found.value path)
  else if index.toInt < 0 then fail (.undefinedIndex path index)
  else
    match found.value.element? index.toInt.toNat with
    | some value => done (found.project value)
    | none => fail (.undefinedIndex path index)

def atKey (found : Found) (path key : String) : Evaluation Found :=
  if found.value.shape ≠ .mapping then fail (.keyAccessNotSupported found.value path)
  else
    match found.value.entry? key with
    | some value => done (found.project value)
    | none => fail (.undefinedKey path key)

/-- The number of elements to draw from, zero for all but lists. -/
def choices (found : Found) : Nat :=
  match found.value with
  | .list items => items.length
  | _ => 0

def atRandom (found : Found) (path : String) : Evaluation Found :=
  if found.choices = 0 then fail (.randomNotSupported found.value path)
  else
    draw found.choices fun position =>
      match found.value.element? position with
      | some value => done (found.project value)
      | none => fail (.undefinedIndex path (Int64.ofNat position))

end Found

/-- The index itself, or the value of the attribute that holds it. -/
def IndexSpec.resolve : IndexSpec → Evaluation Int64
  | .literal index => .done index
  | .attribute name => do
    let value ← Evaluation.require name
    let index ← Evaluation.cast (.integer .int64) value
    return Int64.ofInt index

namespace Part

def eval : Part → Evaluation Found
  | .text content => .done ⟨.string content, .computed⟩
  | .attribute name => do return ⟨← Evaluation.require name, .stored⟩
  | .access child path (.index spec) => do
    let index ← spec.resolve
    let found ← child.eval
    found.atIndex path index
  | .access child path (.key key) => do (← child.eval).atKey path key
  | .access child path .size => do (← child.eval).size path
  | .access child path .random => do (← child.eval).atRandom path

/-- The text a part contributes to a larger one. -/
def render : Part → Evaluation String
  | .text content => .done content
  | part => do return (← part.eval).value.text

theorem render_eq_bind (part : Part) :
    part.render = part.eval.bind fun found => .done found.value.text := by
  cases part with
  | text content => simp [render, eval, Evaluation.bind, Value.text]
  | _ => rfl

/-- The texts of parts in order, added to a text. The first failure ends it. -/
def renderAfter (text : String) : List Part → Evaluation String
  | [] => .done text
  | part :: parts => do renderAfter (text ++ (← part.render)) parts

/-- The texts of parts in order, joined. -/
def renderAll (parts : List Part) : Evaluation String := renderAfter "" parts

theorem renderAfter_eq_bind (text : String) (parts : List Part) :
    renderAfter text parts = (renderAll parts).bind fun rest => .done (text ++ rest) := by
  unfold renderAll
  induction parts generalizing text with
  | nil => simp [renderAfter, Evaluation.bind]
  | cons part parts ih =>
    simp only [renderAfter, Evaluation.bind_eq, Evaluation.bind_bind, String.empty_append]
    congr
    funext s
    rw [ih (text ++ s), ih s, Evaluation.bind_bind]
    simp only [Evaluation.bind, String.append_assoc]

theorem renderAll_cons (part : Part) (parts : List Part) :
    renderAll (part :: parts) =
      part.render.bind fun text => (renderAll parts).bind fun rest => .done (text ++ rest) := by
  have h (text : String) := renderAfter_eq_bind text parts
  simp only [renderAll, renderAfter, Evaluation.bind_eq, String.empty_append] at h ⊢
  simp only [← h]

end Part
end Splice
