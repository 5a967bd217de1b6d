import Splice.Value

/-!
# JSON documents

A document's numbers are integers of 64 bits, with or without a sign, or finite doubles. Values
become documents and documents values: a document has no sets and no infinities, and a value has
no integers above the signed range. The two conversions lose nothing else.
-/

namespace Splice

inductive Number where
  | integer (n : Int) (lower : -0x8000000000000000 ≤ n) (upper : n < 0x10000000000000000)
  | double (x : Binary64) (finite : x.isFinite)
  deriving DecidableEq

namespace Number

def ofInt? (n : Int) : Option Number :=
  if h : -0x8000000000000000 ≤ n ∧ n < 0x10000000000000000 then some (integer n h.1 h.2)
  else none

def ofInt64 (n : Int64) : Number :=
  integer n.toInt n.le_toInt (Int.lt_trans n.toInt_lt (by decide))

def ofDouble? (x : Binary64) : Option Number :=
  if h : x.isFinite then some (double x h) else none

end Number

inductive Document where
  | null
  | bool (b : Bool)
  | number (n : Number)
  | string (s : String)
  | array (items : List Document)
  | object (fields : List (String × Document))

/-- Induction on a document: what holds of the items of an array, or of the fields of an object, may
be used for it. -/
@[elab_as_elim, induction_eliminator]
theorem Document.induction_on {motive : Document → Prop} (null : motive .null)
    (bool : ∀ b, motive (.bool b)) (number : ∀ n, motive (.number n))
    (string : ∀ s, motive (.string s))
    (array : ∀ items, (∀ item ∈ items, motive item) → motive (.array items))
    (object : ∀ fields, (∀ field ∈ fields, motive field.2) → motive (.object fields))
    (document : Document) : motive document :=
  @Document.rec motive (fun items => ∀ item ∈ items, motive item)
    (fun fields => ∀ field ∈ fields, motive field.2) (fun field => motive field.2)
    null bool number string array object
    (List.forall_mem_nil _) (fun _ _ hhead htail => List.forall_mem_cons.mpr ⟨hhead, htail⟩)
    (List.forall_mem_nil _) (fun _ _ hhead htail => List.forall_mem_cons.mpr ⟨hhead, htail⟩)
    (fun _ _ hfield => hfield) document

namespace Value

/-- An integer of a document as a value: the same integer if it fits, else the nearest double. -/
def ofNumber : Number → Value
  | .integer n _ _ => if n < 0x8000000000000000 then int (Int64.ofInt n) else float (.ofInt n)
  | .double x _ => float x

mutual

def ofDocument : Document → Value
  | .null => null
  | .bool b => bool b
  | .number n => ofNumber n
  | .string s => string s
  | .array items => list (ofItems items)
  | .object fields => map (ofFields fields)

def ofItems : List Document → List Value
  | [] => []
  | d :: ds => ofDocument d :: ofItems ds

def ofFields : List (String × Document) → List (String × Value)
  | [] => []
  | (key, d) :: fs => (key, ofDocument d) :: ofFields fs

end

@[simp] theorem ofItems_eq_map (items : List Document) : ofItems items = items.map ofDocument := by
  induction items with
  | nil => simp [ofItems]
  | cons d ds ih => simp [ofItems, ih]

@[simp] theorem ofFields_eq_map (fields : List (String × Document)) :
    ofFields fields = fields.map fun (key, d) => (key, ofDocument d) := by
  induction fields with
  | nil => simp [ofFields]
  | cons f fs ih => simp [ofFields, ih]

theorem lookup_ofFields (fields : List (String × Document)) (name : String) :
    (ofFields fields).lookup name = (fields.lookup name).map ofDocument := by
  rw [ofFields_eq_map, Entries.lookup_map]

end Value

namespace Document

/-- A double as a document, null if it is not finite. -/
def ofDouble (x : Binary64) : Document :=
  match Number.ofDouble? x with
  | some n => number n
  | none => null

mutual

def ofValue : Value → Document
  | .null => null
  | .bool b => bool b
  | .int n => number (.ofInt64 n)
  | .float x => ofDouble x
  | .string s => string s
  | .list items | .set items => array (ofItems items)
  | .map entries => object (ofEntries entries)

def ofItems : List Value → List Document
  | [] => []
  | v :: vs => ofValue v :: ofItems vs

def ofEntries : List (String × Value) → List (String × Document)
  | [] => []
  | (key, v) :: es => (key, ofValue v) :: ofEntries es

end

@[simp] theorem ofItems_eq_map (items : List Value) : ofItems items = items.map ofValue := by
  induction items with
  | nil => simp [ofItems]
  | cons v vs ih => simp [ofItems, ih]

@[simp] theorem ofEntries_eq_map (entries : List (String × Value)) :
    ofEntries entries = entries.map fun (key, v) => (key, ofValue v) := by
  induction entries with
  | nil => simp [ofEntries]
  | cons e es ih => simp [ofEntries, ih]

end Document
end Splice
