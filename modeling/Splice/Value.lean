import Splice.Binary64
import Splice.Entries

/-!
# Values

What names are bound to and expressions produce. A set keeps the order and the repetitions it was
built with. Its shape says which accessors a value supports: a sequence has a size, elements by
position and a random element, a set a size, a mapping a size and keys, a scalar nothing.
-/

namespace Splice

inductive Value where
  | null
  | bool (b : Bool)
  | int (n : Int64)
  | float (x : Binary64)
  | string (s : String)
  | list (items : List Value)
  | set (items : List Value)
  | map (entries : List (String × Value))

inductive Shape where
  | sequence
  | set
  | mapping
  | scalar
  deriving DecidableEq

namespace Value

/-- Induction on a value: what holds of the items of a list or set, or of the values of a map, may
be used for it. -/
@[elab_as_elim, induction_eliminator]
theorem induction_on {motive : Value → Prop} (null : motive null) (bool : ∀ b, motive (bool b))
    (int : ∀ n, motive (int n)) (float : ∀ x, motive (float x))
    (string : ∀ s, motive (string s))
    (list : ∀ items, (∀ item ∈ items, motive item) → motive (list items))
    (set : ∀ items, (∀ item ∈ items, motive item) → motive (set items))
    (map : ∀ entries, (∀ entry ∈ entries, motive entry.2) → motive (map entries))
    (value : Value) : motive value :=
  @Value.rec motive (fun items => ∀ item ∈ items, motive item)
    (fun entries => ∀ entry ∈ entries, motive entry.2) (fun entry => motive entry.2)
    null bool int float string list set map
    (List.forall_mem_nil _) (fun _ _ hhead htail => List.forall_mem_cons.mpr ⟨hhead, htail⟩)
    (List.forall_mem_nil _) (fun _ _ hhead htail => List.forall_mem_cons.mpr ⟨hhead, htail⟩)
    (fun _ _ hvalue => hvalue) value

def shape : Value → Shape
  | list _ => .sequence
  | set _ => .set
  | map _ => .mapping
  | _ => .scalar

def size? : Value → Option Nat
  | list items | set items => some items.length
  | map entries => some entries.length
  | _ => none

def element? : Value → Nat → Option Value
  | list items, position => items[position]?
  | _, _ => none

def entry? : Value → String → Option Value
  | map entries, key => entries.lookup key
  | _, _ => none

/-- A map with its entries in order, whatever order they are given in. -/
def ofPairs (pairs : List (String × Value)) : Value := map (Entries.ofList pairs)

end Value
end Splice
