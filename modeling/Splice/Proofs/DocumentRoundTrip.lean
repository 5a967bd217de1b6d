import Splice.Scope
import Splice.Proofs.NearestDouble

/-!
# Values written as documents and read back

A document has no sets and no infinities, a value no integers above the signed range. Main
statement: a value that is written as a document and read back has become its normal form, where
sets are lists and doubles that are not finite are null at every depth, and a scope binds the keys
of a map to the normal forms of its values. A document that is read as a value and written back has
its integers above the signed range rounded to doubles, and is the same in all else.
-/

namespace Splice

namespace Value

mutual

/-- The value with its sets as lists and its doubles that are not finite as null. -/
def norm : Value → Value
  | list items | set items => list (normItems items)
  | map entries => map (normEntries entries)
  | float x => if x.isFinite then float x else null
  | value => value

def normItems : List Value → List Value
  | [] => []
  | v :: vs => norm v :: normItems vs

def normEntries : List (String × Value) → List (String × Value)
  | [] => []
  | (key, v) :: es => (key, norm v) :: normEntries es

end

@[simp] theorem normItems_eq_map (items : List Value) : normItems items = items.map norm := by
  induction items with
  | nil => simp [normItems]
  | cons v vs ih => simp [normItems, ih]

@[simp] theorem normEntries_eq_map (entries : List (String × Value)) :
    normEntries entries = entries.map fun (key, v) => (key, norm v) := by
  induction entries with
  | nil => simp [normEntries]
  | cons e es ih => simp [normEntries, ih]

theorem norm_norm (value : Value) : value.norm.norm = value.norm := by
  induction value with
  | null | bool | int | string => rfl
  | float x =>
    rw [norm]
    split
    · rename_i hfinite
      rw [norm, if_pos hfinite]
    · rfl
  | list items ih | set items ih =>
    simp only [norm, normItems_eq_map, List.map_map]
    exact congrArg list (List.map_congr_left ih)
  | map entries ih =>
    simp only [norm, normEntries_eq_map]
    exact congrArg map (Entries.map_map_of_eq ih)

/-- An integer of 64 bits keeps its kind when it is written and read. -/
theorem ofNumber_ofInt64 (n : Int64) : ofNumber (.ofInt64 n) = int n := by
  have hsigned : n.toInt < 0x8000000000000000 := n.toInt_lt
  rw [Number.ofInt64, ofNumber, if_pos hsigned, Int64.ofInt_toInt]

theorem ofDocument_ofDouble (x : Binary64) :
    ofDocument (.ofDouble x) = if x.isFinite then float x else null := by
  unfold Document.ofDouble Number.ofDouble?
  by_cases h : x.isFinite
  · simp [h, ofDocument, ofNumber]
  · simp [h, ofDocument]

theorem ofDocument_ofValue (value : Value) : ofDocument (.ofValue value) = value.norm := by
  induction value with
  | null | bool | string => rfl
  | int n => exact ofNumber_ofInt64 n
  | float x => exact ofDocument_ofDouble x
  | list items ih | set items ih =>
    simp only [Document.ofValue, ofDocument, norm, ofItems_eq_map, normItems_eq_map,
      Document.ofItems_eq_map, List.map_map]
    exact congrArg list (List.map_congr_left ih)
  | map entries ih =>
    simp only [Document.ofValue, ofDocument, norm, ofFields_eq_map, normEntries_eq_map,
      Document.ofEntries_eq_map]
    exact congrArg map (Entries.map_map_of_eq ih)

end Value

/-! ## Documents read and written back -/

namespace Number

theorem nearestTo_ofInt {n : Int} (lower : -0x8000000000000000 ≤ n)
    (upper : n < 0x10000000000000000) : Binary64.NearestTo n (.ofInt n) := by
  have hle : n.natAbs ≤ 2 ^ 64 := by omega
  apply Binary64.nearestTo_ofInt
  calc (n.natAbs : ℚ) ≤ 2 ^ (64 : ℤ) := by exact_mod_cast hle
    _ < 2 ^ (1023 : ℤ) := zpow_lt_zpow_right₀ (by norm_num) (by norm_num)

/-- The number with an integer above the signed range rounded to a double. -/
def rounded : Number → Number
  | .integer n lower upper =>
    if n < 0x8000000000000000 then .integer n lower upper
    else .double (.ofInt n) (nearestTo_ofInt lower upper).isFinite
  | .double x finite => .double x finite

end Number

namespace Document

mutual

/-- The document with its integers above the signed range rounded to doubles. -/
def rounded : Document → Document
  | .number n => .number n.rounded
  | .array items => .array (roundedItems items)
  | .object fields => .object (roundedFields fields)
  | document => document

def roundedItems : List Document → List Document
  | [] => []
  | d :: ds => rounded d :: roundedItems ds

def roundedFields : List (String × Document) → List (String × Document)
  | [] => []
  | (key, d) :: fs => (key, rounded d) :: roundedFields fs

end

@[simp] theorem roundedItems_eq_map (items : List Document) :
    roundedItems items = items.map rounded := by
  induction items with
  | nil => simp [roundedItems]
  | cons d ds ih => simp [roundedItems, ih]

@[simp] theorem roundedFields_eq_map (fields : List (String × Document)) :
    roundedFields fields = fields.map fun (key, d) => (key, rounded d) := by
  induction fields with
  | nil => simp [roundedFields]
  | cons f fs ih => simp [roundedFields, ih]

theorem ofDouble_of_isFinite {x : Binary64} (finite : x.isFinite) :
    ofDouble x = number (.double x finite) := by
  rw [ofDouble, Number.ofDouble?, dif_pos finite]

theorem ofValue_ofNumber (n : Number) : ofValue (.ofNumber n) = number n.rounded := by
  cases n with
  | integer n lower upper =>
    rw [Value.ofNumber, Number.rounded]
    split
    · rename_i hsigned
      rw [ofValue, Number.ofInt64]
      simp only [Int64.toInt_ofInt_of_le lower hsigned]
    · exact ofDouble_of_isFinite _
  | double x finite => exact ofDouble_of_isFinite finite

theorem ofValue_ofDocument (document : Document) :
    ofValue (.ofDocument document) = document.rounded := by
  induction document with
  | null | bool | string => rfl
  | number n => exact ofValue_ofNumber n
  | array items ih =>
    simp only [Value.ofDocument, ofValue, rounded, Value.ofItems_eq_map, ofItems_eq_map,
      roundedItems_eq_map, List.map_map]
    exact congrArg array (List.map_congr_left ih)
  | object fields ih =>
    simp only [Value.ofDocument, ofValue, rounded, Value.ofFields_eq_map, ofEntries_eq_map,
      roundedFields_eq_map]
    exact congrArg object (Entries.map_map_of_eq ih)

end Document

namespace Scope

/-- A scope is made of a map, and binds each of its keys to the normal form of its value. -/
theorem ofValue_map (entries : List (String × Value)) :
    ofValue (.map entries) =
      .ok ⟨.ofEntries (entries.map fun (key, value) => (key, value.norm)), []⟩ := by
  have hnorm := Value.ofDocument_ofValue (.map entries)
  rw [Document.ofValue, Value.ofDocument, Value.norm, Value.normEntries_eq_map] at hnorm
  rw [ofValue, Document.ofValue, ofDocument, Value.map.inj hnorm]

theorem ofValue_of_ne_map {value : Value} (h : ∀ entries, value ≠ .map entries) :
    ofValue value = .error (.notAnObject (.ofValue value)) := by
  cases value with
  | float x =>
    rw [ofValue, Document.ofValue, Document.ofDouble]
    cases Number.ofDouble? x <;> rfl
  | map entries => exact absurd rfl (h entries)
  | _ => rfl

end Scope

/-- A value that is written as a document and read back is its normal form, which is its own normal
form. A scope is made of a map and of nothing else; it binds the keys of the map, each to the normal
form of its value. A document that is read as a value and written back has each integer above the
signed range rounded to the nearest double. -/
theorem values_and_documents_round_trip :
    (∀ value : Value, Value.ofDocument (.ofValue value) = value.norm) ∧
    (∀ value : Value, value.norm.norm = value.norm) ∧
    (∀ entries : List (String × Value), ∃ scope, Scope.ofValue (.map entries) = .ok scope ∧
      scope.outer = [] ∧
      (Entries.Sorted entries →
        scope.own.entries = entries.map fun (key, value) => (key, value.norm)) ∧
      (∀ name, name ∈ scope.own.entries.map Prod.fst ↔ name ∈ entries.map Prod.fst) ∧
      ∀ name, scope.get? name = (entries.lookup name).map Value.norm) ∧
    (∀ value : Value, (∀ entries, value ≠ .map entries) →
      Scope.ofValue value = .error (.notAnObject (.ofValue value))) ∧
    (∀ document : Document, Document.ofValue (.ofDocument document) = document.rounded) ∧
    ∀ (n : Int) (lower : -2 ^ 63 ≤ n) (upper : n < 2 ^ 64),
      (n < 2 ^ 63 ∧ (Number.integer n lower upper).rounded = .integer n lower upper) ∨
      (2 ^ 63 ≤ n ∧ ∃ x finite, (Number.integer n lower upper).rounded = .double x finite ∧
        Binary64.NearestTo n x) := by
  refine ⟨Value.ofDocument_ofValue, Value.norm_norm, ?_, fun _ h => Scope.ofValue_of_ne_map h,
    Document.ofValue_ofDocument, ?_⟩
  · intro entries
    refine ⟨_, Scope.ofValue_map entries, rfl, ?_, ?_, ?_⟩
    · intro hsorted
      exact Table.entries_ofEntries (Entries.sorted_map Value.norm hsorted)
    · intro name
      rw [Entries.mem_keys_iff, ← Table.get?, Table.get?_ofEntries, Entries.lookup_map,
        Option.isSome_map, ← Entries.mem_keys_iff]
    · intro name
      rw [Scope.get?_outermost, Table.get?_ofEntries, Entries.lookup_map]
  · intro n lower upper
    rw [Number.rounded]
    split
    · rename_i hsigned
      exact Or.inl ⟨hsigned, rfl⟩
    · rename_i hlarge
      have hnearest := Number.nearestTo_ofInt lower upper
      exact Or.inr ⟨not_lt.mp hlarge, .ofInt n, hnearest.isFinite, rfl, hnearest⟩

theorem values_and_documents_round_trip_edges :
    let value : Value := .map [("a", .set [.int 1, .float (.infinity true)]),
      ("b", .list [.float (.zero true)])]
    Value.ofDocument (.ofValue value) =
        .map [("a", .list [.int 1, .null]), ("b", .list [.float (.zero true)])] ∧
      (∃ scope, Scope.ofValue value = .ok scope ∧
        scope.own.entries =
          [("a", .list [.int 1, .null]), ("b", .list [.float (.zero true)])] ∧
        scope.get? "a" = some (.list [.int 1, .null]) ∧ scope.get? "c" = none) ∧
      (∀ entries, Value.set [value] ≠ .map entries) ∧
      Scope.ofValue (.set [value]) = .error (.notAnObject (.array [.ofValue value])) ∧
      ∃ (lower : -2 ^ 63 ≤ (2 ^ 63 + 1025 : Int)) (upper : (2 ^ 63 + 1025 : Int) < 2 ^ 64) (x : _)
        (finite : _), (Number.integer (2 ^ 63 + 1025) lower upper).rounded = .double x finite ∧
          x.bits = 0x43E0000000000001 ∧ Binary64.NearestTo (2 ^ 63 + 1025 : Int) x := by
  intro value
  obtain ⟨hback, -, hscope, hother, -, hlarge⟩ := values_and_documents_round_trip
  have hset : ∀ entries, Value.set [value] ≠ .map entries := fun _ h => nomatch h
  obtain ⟨scope, hvalue, -, hentries, -, hget⟩ := hscope
    [("a", .set [.int 1, .float (.infinity true)]), ("b", .list [.float (.zero true)])]
  refine ⟨(hback value).trans (by cbv), ⟨scope, hvalue, ?_, ?_, ?_⟩, hset, hother _ hset, ?_⟩
  · have hsorted : Entries.Sorted [("a", Value.set [.int 1, .float (.infinity true)]),
        ("b", .list [.float (.zero true)])] := by
      simp only [Entries.Sorted, List.pairwise_pair]
      decide
    rw [hentries hsorted]
    cbv
  · rw [hget]
    cbv
  · rw [hget]
    cbv
  · have lower : -2 ^ 63 ≤ (2 ^ 63 + 1025 : Int) := by decide
    have upper : (2 ^ 63 + 1025 : Int) < 2 ^ 64 := by decide
    obtain ⟨hsigned, -⟩ | ⟨-, x, finite, hrounded, hnearest⟩ := hlarge _ lower upper
    · exact absurd hsigned (by decide)
    · refine ⟨lower, upper, x, finite, hrounded, ?_, hnearest⟩
      rw [Number.rounded, if_neg (by decide)] at hrounded
      rw [← (Number.double.inj hrounded)]
      decide +kernel

end Splice
