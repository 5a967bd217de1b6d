import Splice.Scope
import Splice.Proofs.TwoPhase

/-!
# Navigation of documents

A chain of accessors whose indices are literals, without random elements, is a way through a
document: its root and its keys are fields of objects, its indices positions in arrays, and a size
is the number of elements or fields. Main statement: in the scope of an object the chain has the
value of the document that the way leads to. Where the way ends before, at the first accessor that
does not apply to the document reached, it fails there, with the path of that accessor and the
value of that document.
-/

namespace Splice

namespace Part

/-- The attribute that a chain starts from. -/
def root? : Part → Option String
  | .text _ => none
  | .attribute name => some name
  | .access child _ _ => child.root?

/-- The accessors of a chain, each with the path it reports, from the root outwards. -/
def nodes : Part → List (String × Accessor)
  | .text _ | .attribute _ => []
  | .access child path accessor => child.nodes ++ [(path, accessor)]

end Part

/-- What an accessor of this kind comes to is up to the value alone. -/
inductive Accessor.IsFixed : Accessor → Prop
  | index (n : Int64) : IsFixed (.index (.literal n))
  | key (name : String) : IsFixed (.key name)
  | size : IsFixed .size

theorem Accessor.IsFixed.exists_lookUp {accessor : Accessor} (h : accessor.IsFixed)
    (context : Context) : ∃ resolved, (accessor.lookUp context).1 = .ok resolved := by
  cases h <;> exact ⟨_, rfl⟩

namespace Document

/-- An array or object has fewer than 2 ^ 63 elements or fields, and so has all that is in it. -/
inductive Countable : Document → Prop
  | null : Countable .null
  | bool (b : Bool) : Countable (.bool b)
  | number (n : Number) : Countable (.number n)
  | string (s : String) : Countable (.string s)
  | array {items : List Document} (length_lt : items.length < 2 ^ 63)
      (items_countable : ∀ item ∈ items, Countable item) : Countable (.array items)
  | object {fields : List (String × Document)} (length_lt : fields.length < 2 ^ 63)
      (fields_countable : ∀ field ∈ fields, Countable field.2) : Countable (.object fields)

/-- A count as a document. -/
def count? (n : Nat) : Option Document := (Number.ofInt? n).map number

/-- The document that an accessor leads to. -/
def access? : Document → Accessor → Option Document
  | .array items, .index (.literal n) => if n.toInt < 0 then none else items[n.toInt.toNat]?
  | .object fields, .key name => fields.lookup name
  | .array items, .size => count? items.length
  | .object fields, .size => count? fields.length
  | _, _ => none

/-- The failure of an accessor that leads nowhere. In an array an index is missing, in an object a
key; any other accessor does not go with the document. -/
def refusal (path : String) : Document → Accessor → EvalError
  | .array _, .index (.literal n) => .undefinedIndex path n
  | document, .index _ => .indexNotSupported (.ofDocument document) path
  | .object _, .key name => .undefinedKey path name
  | document, .key _ => .keyAccessNotSupported (.ofDocument document) path
  | document, .size => .sizeNotSupported (.ofDocument document) path
  | document, .random => .randomNotSupported (.ofDocument document) path

def step (document : Document) (path : String) (accessor : Accessor) :
    Except EvalError Document :=
  match document.access? accessor with
  | some next => .ok next
  | none => .error (document.refusal path accessor)

/-- Goes from a document along accessors in turn. The first that leads nowhere ends it. -/
def navigate (document : Document) (nodes : List (String × Accessor)) :
    Except EvalError Document :=
  nodes.foldlM (fun reached (path, accessor) => reached.step path accessor) document

theorem navigate_concat (document : Document) (nodes : List (String × Accessor)) (path : String)
    (accessor : Accessor) :
    document.navigate (nodes ++ [(path, accessor)]) =
      (document.navigate nodes).bind fun reached => reached.step path accessor := by
  rw [navigate, List.foldlM_append]
  congr
  funext reached
  exact bind_pure (reached.step path accessor)

/-- Goes from a field of an object along accessors. -/
def locate (fields : List (String × Document)) (root : String)
    (nodes : List (String × Accessor)) : Except EvalError Document :=
  match fields.lookup root with
  | some document => document.navigate nodes
  | none => .error (.undefinedAttribute root)

theorem locate_concat (fields : List (String × Document)) (root : String)
    (nodes : List (String × Accessor)) (path : String) (accessor : Accessor) :
    locate fields root (nodes ++ [(path, accessor)]) =
      (locate fields root nodes).bind fun reached => reached.step path accessor := by
  unfold locate
  cases fields.lookup root with
  | none => rfl
  | some document => exact document.navigate_concat nodes path accessor

theorem step_of_access?_eq_some {document next : Document} {accessor : Accessor} (path : String)
    (h : document.access? accessor = some next) : document.step path accessor = .ok next := by
  rw [step, h]

theorem step_of_access?_eq_none {document : Document} {accessor : Accessor} (path : String)
    (h : document.access? accessor = none) :
    document.step path accessor = .error (document.refusal path accessor) := by
  rw [step, h]

/-- A count that is small enough is its own value. -/
theorem exists_count {n : Nat} (h : n < 2 ^ 63) :
    ∃ count, count? n = some count ∧ Value.ofDocument count = .int (Int64.ofNat n) := by
  have hbounds : -0x8000000000000000 ≤ (n : Int) ∧ (n : Int) < 0x10000000000000000 := by omega
  have hsigned : (n : Int) < 0x8000000000000000 := by omega
  refine ⟨number (.integer n hbounds.1 hbounds.2), ?_, ?_⟩
  · rw [count?, Number.ofInt?, dif_pos hbounds]
    rfl
  · rw [Value.ofDocument, Value.ofNumber, if_pos hsigned]
    rfl

theorem Countable.of_access? {document next : Document} {accessor : Accessor}
    (h : document.Countable) (haccess : document.access? accessor = some next) :
    next.Countable := by
  cases h with
  | array length_lt items_countable =>
    cases accessor with
    | index spec =>
      cases spec with
      | literal n =>
        rw [access?] at haccess
        split at haccess
        · cases haccess
        · exact items_countable next (List.mem_of_getElem? haccess)
      | _ => cases haccess
    | size =>
      rw [access?, count?, Option.map_eq_some_iff] at haccess
      obtain ⟨count, -, rfl⟩ := haccess
      exact .number count
    | _ => cases haccess
  | object length_lt fields_countable =>
    cases accessor with
    | key name =>
      rw [access?, List.lookup_eq_some_iff] at haccess
      obtain ⟨before, after, rfl, -⟩ := haccess
      exact fields_countable (name, next) (by simp)
    | size =>
      rw [access?, count?, Option.map_eq_some_iff] at haccess
      obtain ⟨count, -, rfl⟩ := haccess
      exact .number count
    | _ => cases haccess
  | _ => cases haccess

theorem Countable.of_navigate {nodes : List (String × Accessor)} {document reached : Document}
    (h : document.Countable) (hnavigate : document.navigate nodes = .ok reached) :
    reached.Countable := by
  induction nodes using List.reverseRecOn generalizing reached with
  | nil => exact Except.ok.inj hnavigate ▸ h
  | append_singleton nodes node ih =>
    rw [navigate_concat] at hnavigate
    cases hbefore : document.navigate nodes with
    | error e =>
      rw [hbefore] at hnavigate
      cases hnavigate
    | ok before =>
      rw [hbefore, Except.bind, step] at hnavigate
      split at hnavigate
      · rename_i next haccess
        exact Except.ok.inj hnavigate ▸ (ih hbefore).of_access? haccess
      · cases hnavigate

theorem Countable.of_locate {fields : List (String × Document)} {root : String}
    {nodes : List (String × Accessor)} {reached : Document} (h : (Document.object fields).Countable)
    (hlocate : locate fields root nodes = .ok reached) : reached.Countable := by
  rw [locate] at hlocate
  split at hlocate
  · rename_i document hfield
    have haccess : (Document.object fields).access? (.key root) = some document := hfield
    exact (h.of_access? haccess).of_navigate hlocate
  · cases hlocate

end Document

/-! ## Values of documents -/

theorem Value.ofNumber_eq (n : Number) :
    (∃ i, ofNumber n = int i) ∨ ∃ x, ofNumber n = float x := by
  cases n with
  | integer n lower upper =>
    rw [ofNumber]
    split
    · exact Or.inl ⟨_, rfl⟩
    · exact Or.inr ⟨_, rfl⟩
  | double x finite => exact Or.inr ⟨x, rfl⟩

namespace Resolved

variable (path : String) (origin : Origin) (draws : List Nat)

theorem map_value_apply_index (document : Document) (n : Int64) :
    ((index n).apply path ⟨.ofDocument document, origin⟩ draws).1.map Found.value =
      (document.step path (.index (.literal n))).map Value.ofDocument := by
  cases document with
  | array items =>
    by_cases hrange : 0 ≤ n.toInt ∧ n.toInt < items.length
    · have haccess : (Document.array items).access? (.index (.literal n)) =
          some items[n.toInt.toNat] := by
        rw [Document.access?, if_neg (by omega), List.getElem?_eq_getElem]
      rw [Document.step_of_access?_eq_some path haccess]
      simp [apply, Value.ofDocument, Except.map, hrange]
    · have haccess : (Document.array items).access? (.index (.literal n)) = none := by
        rw [Document.access?, ite_eq_left_iff]
        exact fun _ => List.getElem?_eq_none (by omega)
      rw [Document.step_of_access?_eq_none path haccess]
      simp [apply, Value.ofDocument, Document.refusal, Except.map, hrange]
  | number m =>
    obtain ⟨i, hvalue⟩ | ⟨x, hvalue⟩ := Value.ofNumber_eq m <;>
      simp [apply, Document.step, Document.access?, Document.refusal, Value.ofDocument, hvalue,
        Except.map]
  | _ => rfl

theorem map_value_apply_key (document : Document) (name : String) :
    ((key name).apply path ⟨.ofDocument document, origin⟩ draws).1.map Found.value =
      (document.step path (.key name)).map Value.ofDocument := by
  cases document with
  | object fields =>
    rw [Document.step, Document.access?, Value.ofDocument]
    simp only [apply, Value.lookup_ofFields]
    cases fields.lookup name <;> rfl
  | number m =>
    obtain ⟨i, hvalue⟩ | ⟨x, hvalue⟩ := Value.ofNumber_eq m <;>
      simp [apply, Document.step, Document.access?, Document.refusal, Value.ofDocument, hvalue,
        Except.map]
  | _ => rfl

theorem map_value_apply_size {document : Document} (hcountable : document.Countable) :
    (size.apply path ⟨.ofDocument document, origin⟩ draws).1.map Found.value =
      (document.step path .size).map Value.ofDocument := by
  cases hcountable with
  | @array items length_lt =>
    obtain ⟨count, hcount, hvalue⟩ := Document.exists_count length_lt
    have haccess : (Document.array items).access? .size = some count := by
      rw [Document.access?, hcount]
    rw [Document.step_of_access?_eq_some path haccess]
    simp [apply, Value.ofDocument, Except.map, hvalue]
  | @object fields length_lt =>
    obtain ⟨count, hcount, hvalue⟩ := Document.exists_count length_lt
    have haccess : (Document.object fields).access? .size = some count := by
      rw [Document.access?, hcount]
    rw [Document.step_of_access?_eq_some path haccess]
    simp [apply, Value.ofDocument, Except.map, hvalue]
  | number m =>
    obtain ⟨i, hvalue⟩ | ⟨x, hvalue⟩ := Value.ofNumber_eq m <;>
      simp [apply, Document.step, Document.access?, Document.refusal, Value.ofDocument, hvalue,
        Except.map]
  | _ => rfl

/-- On the value of a document an accessor finds the value of the document that it leads to, or
fails as the document refuses it. -/
theorem map_value_apply_ofDocument {document : Document} (hcountable : document.Countable)
    {accessor : Accessor} (hfixed : accessor.IsFixed) {context : Context} {resolved : Resolved}
    (hlookUp : (accessor.lookUp context).1 = .ok resolved) :
    (resolved.apply path ⟨.ofDocument document, origin⟩ draws).1.map Found.value =
      (document.step path accessor).map Value.ofDocument := by
  cases hfixed with
  | index n =>
    cases hlookUp
    exact map_value_apply_index path origin draws document n
  | key name =>
    cases hlookUp
    exact map_value_apply_key path origin draws document name
  | size =>
    cases hlookUp
    exact map_value_apply_size path origin draws hcountable

end Resolved

/-- Where two results have one image, so do the results of what is done next, if it takes equal
images to equal images. -/
theorem map_bind_congr {ε α β γ : Type} {r : Except ε α} {s : Except ε β} {f : α → γ} {g : β → γ}
    (h : r.map f = s.map g) {p : α → Except ε α} {q : β → Except ε β}
    (hnext : ∀ a b, s = .ok b → f a = g b → (p a).map f = (q b).map g) :
    (r.bind p).map f = (s.bind q).map g := by
  cases r with
  | error e =>
    cases s with
    | error e' => exact h
    | ok b => cases h
  | ok a =>
    cases s with
    | error e => cases h
    | ok b => exact hnext a b rfl (Except.ok.inj h)

theorem Part.map_value_eval_ofDocument {fields : List (String × Document)}
    (hcountable : (Document.object fields).Countable) {root : String} (draws : List Nat) :
    ∀ part : Part, part.root? = some root → (∀ node ∈ part.nodes, node.2.IsFixed) →
      (part.eval.run (Scope.mk (.ofEntries (Value.ofFields fields)) []).get? draws).result.map
          Found.value =
        (Document.locate fields root part.nodes).map Value.ofDocument
  | .attribute name, hroot, _ => by
    obtain rfl := Option.some.inj hroot
    simp only [eval, Evaluation.require, Evaluation.bind_eq, Evaluation.bind, Evaluation.run,
      Scope.get?_outermost, Table.get?_ofEntries, Value.lookup_ofFields, Document.locate]
    cases fields.lookup name <;> rfl
  | .access child path accessor, hroot, hfixed => by
    have ih := map_value_eval_ofDocument hcountable draws child hroot fun node hnode =>
      hfixed node (List.mem_append_left _ hnode)
    have haccessor : accessor.IsFixed := hfixed (path, accessor) (by simp [nodes])
    obtain ⟨resolved, hlookUp⟩ :=
      haccessor.exists_lookUp (Scope.mk (.ofEntries (Value.ofFields fields)) []).get?
    rw [result_access, hlookUp, nodes, Document.locate_concat]
    refine map_bind_congr ih ?_
    rintro ⟨value, origin⟩ reached hlocate rfl
    exact Resolved.map_value_apply_ofDocument path origin _ (hcountable.of_locate hlocate)
      haccessor hlookUp

/-- In the scope of an object, a chain without random elements whose indices are literals comes to
the value of the document that its root and accessors lead to from the object, or to the failure of
the first of them, from the root outwards, that leads nowhere. -/
theorem eval_ofDocument_eq_locate {fields : List (String × Document)}
    (hcountable : (Document.object fields).Countable) {part : Part} {root : String}
    (hroot : part.root? = some root) (hfixed : ∀ node ∈ part.nodes, node.2.IsFixed) :
    ∃ scope, Scope.ofDocument (.object fields) = .ok scope ∧ ∀ draws,
      (part.eval.run scope.get? draws).result.map Found.value =
        (Document.locate fields root part.nodes).map Value.ofDocument :=
  ⟨_, rfl, fun draws => Part.map_value_eval_ofDocument hcountable draws part hroot hfixed⟩

theorem eval_ofDocument_eq_locate_nested :
    let fields : List (String × Document) :=
      [("a", .array [.object [("k", .array [.null, .bool true])], .string "s"])]
    let size (index : Int64) (path : String) : Part :=
      .access (.access (.access (.attribute "a") "a" (.index (.literal index))) path (.key "k"))
        "a(i).k" .size
    (Document.object fields).Countable ∧
      (∀ index path, (size index path).root? = some "a" ∧
        ∀ node ∈ (size index path).nodes, node.2.IsFixed) ∧
      ∃ scope, Scope.ofDocument (.object fields) = .ok scope ∧ ∀ draws,
        ((size 0 "a(0)").eval.run scope.get? draws).result.map Found.value = .ok (.int 2) ∧
        ((size 1 "a(+1)").eval.run scope.get? draws).result.map Found.value =
          .error (.keyAccessNotSupported (.string "s") "a(+1)") := by
  intro fields size
  have hcountable : (Document.object fields).Countable := by
    refine .object (by simp [fields]) (List.forall_mem_singleton.mpr (.array (by simp) ?_))
    refine List.forall_mem_cons.mpr ⟨.object (by simp) (List.forall_mem_singleton.mpr ?_),
      List.forall_mem_singleton.mpr (.string "s")⟩
    exact .array (by simp) (List.forall_mem_cons.mpr
      ⟨.null, List.forall_mem_singleton.mpr (.bool true)⟩)
  have hroot (index : Int64) (path : String) : (size index path).root? = some "a" := rfl
  have hfixed (index : Int64) (path : String) :
      ∀ node ∈ (size index path).nodes, node.2.IsFixed := by
    have hnodes : (size index path).nodes =
        [("a", .index (.literal index)), (path, .key "k"), ("a(i).k", .size)] := rfl
    rw [hnodes]
    simpa using ⟨Accessor.IsFixed.index index, Accessor.IsFixed.key "k", Accessor.IsFixed.size⟩
  obtain ⟨scope, hscope, hzero⟩ :=
    eval_ofDocument_eq_locate hcountable (hroot 0 "a(0)") (hfixed 0 "a(0)")
  obtain ⟨scope', hscope', hone⟩ :=
    eval_ofDocument_eq_locate hcountable (hroot 1 "a(+1)") (hfixed 1 "a(+1)")
  obtain rfl := Except.ok.inj (hscope.symm.trans hscope')
  refine ⟨hcountable, fun index path => ⟨hroot index path, hfixed index path⟩, scope, hscope, ?_⟩
  intro draws
  exact ⟨(hzero draws).trans (by cbv), (hone draws).trans (by cbv)⟩

end Splice
