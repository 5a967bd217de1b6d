import Splice.Document.Text
import Splice.Expression

/-!
# Scopes

A scope binds names at its own level and leaves all others to the levels around it. Each level is a
table, so it has a name once. The levels around a child are those of its parent at the moment the
child was made. A name bound to null is bound.
-/

namespace Splice

inductive ScopeError where
  | notAnObject (found : Document)
  | keyNotText
  | keyNotFinite

def ScopeError.message : ScopeError → String
  | notAnObject found => "Context data must be an object, found: " ++ found.text
  | keyNotText => "JSON error: key must be a string"
  | keyNotFinite => "JSON error: float key must be finite (got NaN or +/-inf)"

structure Scope where
  own : Table Value := ∅
  outer : List (Table Value) := []

namespace Scope

variable (scope : Scope)

def insert (name : String) (value : Value) : Scope :=
  { scope with own := scope.own.insert name value }

/-- Removes a name from the scope's own level. -/
def erase (name : String) : Scope :=
  { scope with own := scope.own.erase name }

def child : Scope := ⟨∅, scope.own :: scope.outer⟩

/-- The child that binds the names of a list of pairs. -/
def childOfPairs (pairs : List (String × Value)) : Scope :=
  ⟨.ofList pairs, scope.own :: scope.outer⟩

/-- The value of a name, from the innermost level that binds it. -/
def get? (name : String) : Option Value :=
  (scope.own :: scope.outer).findSome? (·.get? name)

/-- The number of names bound at the scope's own level. -/
def size : Nat := scope.own.size

def isEmpty : Bool := scope.own.isEmpty

def ofPairs (pairs : List (String × Value)) : Scope := ⟨.ofList pairs, []⟩

/-- The scope that binds the fields of an object. -/
def ofDocument : Document → Except ScopeError Scope
  | .object fields => .ok ⟨.ofEntries (Value.ofFields fields), []⟩
  | found => .error (.notAnObject found)

/-- The scope of a value that is written as a document first. -/
def ofValue (value : Value) : Except ScopeError Scope :=
  ofDocument (Document.ofValue value)

/-- The text of a value used as a key. -/
def keyText : Value → Except ScopeError String
  | .string s => .ok s
  | .int n => .ok n.toInt.repr
  | .bool b => .ok (if b then "true" else "false")
  | .float x => if x.isFinite then .ok (jsonStyle.write x) else .error .keyNotFinite
  | .null | .list _ | .set _ | .map _ => .error .keyNotText

/-- A pair as a field of a document. -/
def keyedField (pair : Value × Value) : Except ScopeError (String × Document) := do
  return (← keyText pair.1, Document.ofValue pair.2)

/-- The scope of a map with keys of any kind. -/
def ofKeyedPairs (pairs : List (Value × Value)) : Except ScopeError Scope := do
  let fields ← pairs.mapM keyedField
  ofDocument (.object (Entries.ofList fields))

/-- A scope that no other is around. -/
@[simp] theorem get?_outermost (own : Table Value) (name : String) :
    (Scope.mk own []).get? name = own.get? name := by
  rw [get?, List.findSome?_cons, List.findSome?_nil]
  cases own.get? name <;> rfl

/-- The last pair with a name gives its value. -/
theorem get?_ofPairs (pairs : List (String × Value)) (name : String) :
    (ofPairs pairs).get? name = (pairs.filter fun pair => pair.1 == name).getLast?.map (·.2) := by
  rw [ofPairs, get?_outermost, Table.get?_ofList]

/-- The pairs of a child hide what its parent binds. -/
theorem get?_childOfPairs (pairs : List (String × Value)) (name : String) :
    (scope.childOfPairs pairs).get? name = ((ofPairs pairs).get? name).or (scope.get? name) := by
  rw [ofPairs, get?_outermost, childOfPairs, get?, get?, List.findSome?_cons]
  cases (Table.ofList pairs).get? name <;> rfl

@[simp] theorem get?_insert_self (name : String) (value : Value) :
    (scope.insert name value).get? name = some value := by
  simp [insert, get?]

theorem get?_insert_of_ne {name other : String} (h : other ≠ name) (value : Value) :
    (scope.insert name value).get? other = scope.get? other := by
  simp [insert, get?, List.findSome?_cons, Table.get?_insert_of_ne h]

@[simp] theorem get?_child (name : String) : scope.child.get? name = scope.get? name := by
  simp [child, get?, List.findSome?_cons]

end Scope
end Splice
