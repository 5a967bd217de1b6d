import Mathlib
import Splice.Workspace

/-!
# Scopes as flat maps

A scope keeps its levels apart, and a child holds those of its parent as they were. What a name is
bound to in it takes less to say: its own bindings, over one flat map that was its parent's when the
child was made. Main statement: after any history of steps on any number of scopes, each of them
answers, changes, counts and evaluates templates as its flat map says, and a step on one of them is
not seen in another.
-/

namespace Splice

/-! ## Bindings after a history -/

/-- The names bound at a scope's own level, and the flat map for all others. -/
structure Bindings where
  own : Context := fun _ => none
  around : Context := fun _ => none

namespace Bindings

/-- The bindings as one map. -/
def flat (bindings : Bindings) : Context :=
  fun name => (bindings.own name).or (bindings.around name)

/-- Binds a name at the own level, or takes its binding there away. -/
def set (bindings : Bindings) (name : String) (value : Option Value) : Bindings :=
  { bindings with own := Function.update bindings.own name value }

def child (bindings : Bindings) : Bindings := { around := bindings.flat }

/-- The fields of an object, nothing for another document. -/
def ofDocument? : Document → Option Bindings
  | .object fields => some { own := fun name => (fields.lookup name).map Value.ofDocument }
  | _ => none

/-- The values of pairs under the texts of their keys, nothing if a key has no text. Of pairs with
one text the last counts. -/
def ofKeyedPairs? (pairs : List (Value × Value)) : Option Bindings :=
  (pairs.mapM fun pair => (Scope.keyText pair.1).toOption.map (·, Document.ofValue pair.2)).map
    fun fields =>
      { own := fun name =>
          (fields.filter fun field => field.1 == name).getLast?.map fun field =>
            Value.ofDocument field.2 }

end Bindings

/-- The bindings of a scope, all levels but its own taken together. -/
def Scope.bindings (scope : Scope) : Bindings :=
  { own := scope.own.get?
    around := fun name => scope.outer.findSome? (·.get? name) }

/-- What the slot of a step holds after it, given what the slots held before. A step that makes no
scope leaves the slot as it was. -/
def Step.recorded (before : String → Option Bindings) (slot : String) : Step → Option Bindings
  | .new => some {}
  | .make scope => some scope.bindings
  | .child of => ((before of).map .child).or (before slot)
  | .clone of => (before of).or (before slot)
  | .fromDocument document => (Bindings.ofDocument? document).or (before slot)
  | .fromValue value => (Bindings.ofDocument? (.ofValue value)).or (before slot)
  | .fromKeyedPairs pairs => (Bindings.ofKeyedPairs? pairs).or (before slot)
  | .insert name value => (before slot).map (·.set name (some value))
  | .remove name => (before slot).map (·.set name none)
  | .get _ | .render _ => before slot

/-- What a slot holds after a history, of which the last step comes first. -/
def recorded? : List (String × Step) → String → Option Bindings
  | [], _ => none
  | (changed, step) :: earlier, slot =>
    if slot = changed then step.recorded (recorded? earlier) slot else recorded? earlier slot

theorem toOption_mapM {ε α β : Type} (f : α → Except ε β) (items : List α) :
    (items.mapM f).toOption = items.mapM fun item => (f item).toOption := by
  induction items with
  | nil => rfl
  | cons item items ih =>
    rw [List.mapM_cons, List.mapM_cons, ← ih]
    cases f item with
    | error e => rfl
    | ok made => cases items.mapM f <;> rfl

namespace Scope

variable (scope : Scope)

@[simp] theorem flat_bindings : scope.bindings.flat = scope.get? := by
  funext name
  simp only [bindings, Bindings.flat, get?, List.findSome?_cons]
  cases scope.own.get? name <;> rfl

@[simp] theorem bindings_insert (name : String) (value : Value) :
    (scope.insert name value).bindings = scope.bindings.set name (some value) := by
  simp only [bindings, insert, Bindings.set, Bindings.mk.injEq, and_true]
  funext other
  by_cases h : other = name
  · rw [h, Table.get?_insert_self, Function.update_self]
  · rw [Table.get?_insert_of_ne h, Function.update_of_ne h]

@[simp] theorem bindings_erase (name : String) :
    (scope.erase name).bindings = scope.bindings.set name none := by
  simp only [bindings, erase, Bindings.set, Bindings.mk.injEq, and_true]
  funext other
  by_cases h : other = name
  · rw [h, Table.get?_erase_self, Function.update_self]
  · rw [Table.get?_erase_of_ne h, Function.update_of_ne h]

@[simp] theorem bindings_child : scope.child.bindings = scope.bindings.child := by
  rw [Bindings.child, flat_bindings]
  rfl

theorem map_bindings_ofDocument (document : Document) :
    (ofDocument document).toOption.map bindings = Bindings.ofDocument? document := by
  cases document with
  | object fields =>
    have hown : (Table.ofEntries (Value.ofFields fields)).get? =
        fun name => (fields.lookup name).map Value.ofDocument := by
      funext name
      rw [Table.get?_ofEntries, Value.lookup_ofFields]
    simp only [ofDocument, Except.toOption, Option.map_some, bindings, hown,
      Bindings.ofDocument?, List.findSome?_nil]
  | _ => rfl

theorem toOption_keyedField (pair : Value × Value) :
    (keyedField pair).toOption = (keyText pair.1).toOption.map (·, Document.ofValue pair.2) := by
  rw [keyedField]
  cases keyText pair.1 <;> rfl

theorem map_bindings_ofKeyedPairs (pairs : List (Value × Value)) :
    (ofKeyedPairs pairs).toOption.map bindings = Bindings.ofKeyedPairs? pairs := by
  simp only [Bindings.ofKeyedPairs?, ← toOption_keyedField, ← toOption_mapM]
  rw [ofKeyedPairs]
  cases pairs.mapM keyedField with
  | error e => rfl
  | ok fields =>
    have hfields := map_bindings_ofDocument (.object (Entries.ofList fields))
    simp only [Bindings.ofDocument?, Entries.lookup_ofList, Option.map_map] at hfields
    exact hfields

end Scope

/-! ## Steps and histories -/

namespace Workspace

variable (workspace : Workspace) (slot : String)

/-- The scope that a step puts into its slot, if it puts one there. -/
def made? : Step → Option Scope
  | .new => some {}
  | .make scope => some scope
  | .child of => (workspace.scope? of).map Scope.child
  | .clone of => workspace.scope? of
  | .fromDocument document => (Scope.ofDocument document).toOption
  | .fromValue value => (Scope.ofValue value).toOption
  | .fromKeyedPairs pairs => (Scope.ofKeyedPairs pairs).toOption
  | .insert name value => (workspace.scope? slot).map (·.insert name value)
  | .remove name => (workspace.scope? slot).map (·.erase name)
  | .get _ | .render _ => none

theorem storeResult_fst (result : Except ScopeError Scope) :
    (workspace.storeResult slot result).1 =
      result.toOption.elim workspace (workspace.store slot) := by
  cases result <;> rfl

/-- All that a step does is to put a scope into its slot. -/
theorem step_fst (step : Step) : (workspace.step slot step).1 =
    (workspace.made? slot step).elim workspace (workspace.store slot) := by
  cases step with
  | new | make scope => rfl
  | child source | clone source =>
    rw [Workspace.step, made?]
    cases workspace.scope? source <;> rfl
  | fromDocument document | fromValue value | fromKeyedPairs pairs =>
    exact workspace.storeResult_fst slot _
  | insert name value | remove name =>
    rw [Workspace.step, made?]
    cases workspace.scope? slot <;> rfl
  | get name | render template =>
    rw [Workspace.step]
    cases workspace.scope? slot <;> rfl

/-- A step changes its own slot alone. -/
theorem scope?_step_of_ne {other : String} (h : other ≠ slot) (step : Step) :
    (workspace.step slot step).1.scope? other = workspace.scope? other := by
  rw [step_fst]
  cases workspace.made? slot step with
  | none => rfl
  | some scope => exact workspace.scope?_store_of_ne h scope

theorem scope?_step_self (step : Step) : (workspace.step slot step).1.scope? slot =
    (workspace.made? slot step).or (workspace.scope? slot) := by
  rw [step_fst]
  cases workspace.made? slot step with
  | none => rfl
  | some scope => exact workspace.scope?_store_self slot scope

/-- The bindings in a slot, as its scope has them. -/
def bindings? : Option Bindings := (workspace.scope? slot).map Scope.bindings

/-- What a step does to the bindings in its slot. -/
theorem bindings?_step_self (step : Step) :
    (workspace.step slot step).1.bindings? slot = step.recorded workspace.bindings? slot := by
  rw [bindings?, scope?_step_self, Option.map_or]
  cases step with
  | new | make scope | clone source => rfl
  | child source =>
    simp only [made?, Step.recorded, bindings?]
    cases workspace.scope? source <;> simp
  | fromDocument document => rw [made?, Scope.map_bindings_ofDocument, Step.recorded, bindings?]
  | fromValue value =>
    rw [made?, Scope.ofValue, Scope.map_bindings_ofDocument, Step.recorded, bindings?]
  | fromKeyedPairs pairs =>
    rw [made?, Scope.map_bindings_ofKeyedPairs, Step.recorded, bindings?]
  | insert name value | remove name =>
    simp only [made?, Step.recorded, bindings?]
    cases workspace.scope? slot <;> simp
  | get name | render template => rfl

theorem steps_concat (history : List (String × Step)) (changed : String) (step : Step) :
    workspace.steps (history ++ [(changed, step)]) =
      ((workspace.steps history).step changed step).1 := by
  simp [steps]

end Workspace

/-- Every slot holds the bindings that the history says. -/
theorem bindings?_steps (history : List (String × Step)) :
    (Workspace.steps {} history).bindings? = recorded? history.reverse := by
  induction history using List.reverseRecOn with
  | nil => rfl
  | append_singleton history last ih =>
    obtain ⟨changed, step⟩ := last
    funext slot
    rw [Workspace.steps_concat, List.reverse_concat, recorded?, ← ih]
    by_cases h : slot = changed
    · rw [if_pos h, h, Workspace.bindings?_step_self]
    · rw [if_neg h, Workspace.bindings?, Workspace.scope?_step_of_ne _ _ h, Workspace.bindings?]

/-! ## Levels as one table -/

/-- There are as many entries in a table as keys that are bound. -/
theorem Table.exists_card_eq_size {α : Type} (table : Table α) :
    ∃ keys : Finset String, (∀ key, key ∈ keys ↔ (table.get? key).isSome) ∧
      table.size = keys.card := by
  have hnodup : (table.entries.map Prod.fst).Nodup :=
    List.pairwise_map.mpr (table.sorted.imp fun hlt => String.ne_of_lt hlt)
  refine ⟨(table.entries.map Prod.fst).toFinset, ?_, ?_⟩
  · intro key
    rw [List.mem_toFinset, Entries.mem_keys_iff, Table.get?]
  · rw [List.toFinset_card_of_nodup hnodup, List.length_map, Table.size]

namespace Scope

/-- All levels of a scope as one. -/
def flatten (scope : Scope) : Table Value :=
  (scope.own :: scope.outer).foldr (fun level => Table.overlay level.entries) ∅

theorem get?_flatten (scope : Scope) : scope.flatten.get? = scope.get? := by
  funext name
  unfold flatten get?
  induction scope.own :: scope.outer with
  | nil => rfl
  | cons level levels ih =>
    rw [List.foldr_cons, Table.get?_overlay, ih, List.findSome?_cons, Table.get?]
    cases level.entries.lookup name <;> rfl

end Scope

/-! ## Scopes as their flat maps -/

@[simp] theorem Bindings.flat_set (bindings : Bindings) (name : String) (value : Option Value) :
    (bindings.set name value).flat =
      Function.update bindings.flat name (value.or (bindings.around name)) := by
  funext other
  by_cases h : other = name
  · simp only [h, flat, set, Function.update_self]
  · simp only [flat, set, Function.update_of_ne h]

/-- What the scope in a slot answers. -/
def Workspace.context? (workspace : Workspace) (slot : String) : Option Context :=
  (workspace.scope? slot).map Scope.get?

/-- The scope in a slot answers, changes, counts and evaluates as the bindings say. -/
structure Workspace.Answers (workspace : Workspace) (slot : String) (scope : Scope)
    (bindings : Bindings) : Prop where
  held : workspace.scope? slot = some scope
  get : ∀ name, workspace.step slot (.get name) = (workspace, .got (bindings.flat name))
  insert : ∀ name value, (workspace.step slot (.insert name value)).1.context? slot =
    some (Function.update bindings.flat name (some value))
  remove : ∀ name, (workspace.step slot (.remove name)).2 = .removed (bindings.own name) ∧
    (workspace.step slot (.remove name)).1.context? slot =
      some (Function.update bindings.flat name (bindings.around name))
  size : ∃ names : Finset String, (∀ name, name ∈ names ↔ (bindings.own name).isSome) ∧
    scope.size = names.card
  isEmpty : scope.isEmpty = true ↔ scope.size = 0
  evaluate : ∃ table : Table Value, (∀ name, table.get? name = bindings.flat name) ∧
    (∀ target (expression : Expression target) draws,
      expression.evaluate.run scope.get? draws = expression.evaluate.run table.get? draws) ∧
    ∀ template, workspace.step slot (.render template) =
      (workspace, .rendered (render template table.get? []))

namespace Workspace

variable {workspace : Workspace} {slot : String} {scope : Scope}

theorem context?_eq_map_flat (workspace : Workspace) (slot : String) :
    workspace.context? slot = (workspace.bindings? slot).map Bindings.flat := by
  rw [context?, bindings?, Option.map_map]
  congr
  funext scope
  exact scope.flat_bindings.symm

theorem answers_bindings (hscope : workspace.scope? slot = some scope) :
    workspace.Answers slot scope scope.bindings := by
  have hbindings : workspace.bindings? slot = some scope.bindings := by
    rw [bindings?, hscope, Option.map_some]
  refine
    { held := hscope, get := ?_, insert := ?_, remove := ?_, isEmpty := ?_,
      size := scope.own.exists_card_eq_size, evaluate := ?_ }
  · intro name
    rw [Workspace.step, hscope, Scope.flat_bindings]
  · intro name value
    rw [context?_eq_map_flat, bindings?_step_self, Step.recorded, hbindings, Option.map_some,
      Option.map_some, Bindings.flat_set, Option.some_or]
  · intro name
    constructor
    · rw [Workspace.step, hscope]
      rfl
    · rw [context?_eq_map_flat, bindings?_step_self, Step.recorded, hbindings, Option.map_some,
        Option.map_some, Bindings.flat_set, Option.none_or]
  · rw [Scope.isEmpty, Scope.size, Table.isEmpty, Table.size, List.isEmpty_iff,
      List.length_eq_zero_iff]
  · refine ⟨scope.flatten, ?_, ?_, ?_⟩
    · intro name
      rw [scope.get?_flatten, Scope.flat_bindings]
    · intro target expression draws
      rw [scope.get?_flatten]
    · intro template
      rw [Workspace.step, hscope, scope.get?_flatten]

/-- After any history of steps on any number of scopes there is a scope in the slots that the
history puts one in and in no other, and it is its flat map: it answers from it, is changed by an
insertion or a removal at the one name, counts its own bindings, and evaluates every template as a
table of the flat map would. A step on it changes no other scope. -/
theorem steps_answer_recorded (history : List (String × Step)) (slot : String) :
    (recorded? history.reverse slot = none → (steps {} history).scope? slot = none) ∧
    (∀ bindings, recorded? history.reverse slot = some bindings →
      ∃ scope, (steps {} history).Answers slot scope bindings) ∧
    ∀ step other, other ≠ slot →
      ((steps {} history).step slot step).1.scope? other = (steps {} history).scope? other := by
  have hrecorded := congrFun (bindings?_steps history) slot
  rw [bindings?] at hrecorded
  refine ⟨?_, ?_, fun step other hother => scope?_step_of_ne _ slot hother step⟩
  · intro hnone
    rwa [hnone, Option.map_eq_none_iff] at hrecorded
  · intro bindings hbindings
    obtain ⟨scope, hscope, rfl⟩ := Option.map_eq_some_iff.mp (hrecorded.trans hbindings)
    exact ⟨scope, answers_bindings hscope⟩

theorem steps_answer_recorded_child :
    let history : List (String × Step) :=
      [("a", .new), ("a", .insert "x" (.int 1)), ("a", .insert "n" .null), ("b", .child "a"),
        ("a", .insert "x" (.int 2)), ("b", .insert "x" (.int 3)), ("c", .clone "b"),
        ("b", .remove "x"), ("d", .fromDocument (.object [("n", .bool true)])),
        ("f", .fromKeyedPairs [(.int 1, .null), (.string "1", .bool true)])]
    let workspace := steps {} history
    (∃ scope bindings, recorded? history.reverse "b" = some bindings ∧
        workspace.Answers "b" scope bindings ∧ bindings.own "x" = none ∧
        bindings.flat "x" = some (.int 1) ∧ bindings.flat "n" = some .null) ∧
      (workspace.step "b" (.get "x")).2 = .got (some (.int 1)) ∧
      (workspace.step "f" (.get "1")).2 = .got (some (.bool true)) ∧
      (workspace.step "b" (.remove "n")).1.scope? "c" = workspace.scope? "c" ∧
      workspace.scope? "e" = none := by
  intro history workspace
  have hslot := steps_answer_recorded history
  have hb : recorded? history.reverse "b" = some
      { own := Function.update (Function.update (fun _ => none) "x" (some (.int 3))) "x" none
        around := Bindings.flat
          { own := Function.update (Function.update (fun _ => none) "x" (some (.int 1))) "n"
              (some .null) } } := by
    cbv
  obtain ⟨scope, hscope⟩ := (hslot "b").2.1 _ hb
  obtain ⟨bindings, hf, hone⟩ : ∃ bindings, recorded? history.reverse "f" = some bindings ∧
      bindings.flat "1" = some (.bool true) := ⟨_, rfl, by cbv⟩
  obtain ⟨keyed, hkeyed⟩ := (hslot "f").2.1 _ hf
  refine ⟨⟨scope, _, hb, hscope, by cbv, by cbv, by cbv⟩, ?_, ?_,
    (hslot "b").2.2 (.remove "n") "c" (by decide), (hslot "e").1 (by cbv)⟩
  · rw [hscope.get]
    cbv
  · rw [hkeyed.get, hone]

end Workspace

end Splice
