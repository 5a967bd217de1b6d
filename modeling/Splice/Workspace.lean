import Splice.Scope

/-!
# Workspaces

Scopes under names, and the steps that build, change and read them. A step that makes a scope
stores it under its name only if it succeeds; a step on a name without a scope does nothing.
-/

namespace Splice

inductive Step where
  | new
  | make (scope : Scope)
  | child (of : String)
  | clone (of : String)
  | fromDocument (document : Document)
  | fromValue (value : Value)
  | fromKeyedPairs (pairs : List (Value × Value))
  | insert (name : String) (value : Value)
  | remove (name : String)
  | get (name : String)
  | render (template : String)

inductive RenderError where
  | parse (error : ParseError)
  | eval (error : EvalError)

inductive Reply where
  | none
  | failed (error : ScopeError)
  | removed (value : Option Value)
  | got (value : Option Value)
  | rendered (result : Except RenderError String)

/-- The text of a template in a context. -/
def render (template : String) (context : Context) (draws : List Nat) :
    Except RenderError String :=
  match Expression.compile .string template with
  | .error e => .error (.parse e)
  | .ok expression => (expression.evaluate.run context draws).result.mapError .eval

/-- The scopes in use, by name. -/
structure Workspace where
  scopes : Table Scope := ∅

namespace Workspace

def scope? (workspace : Workspace) (slot : String) : Option Scope :=
  workspace.scopes.get? slot

def store (workspace : Workspace) (slot : String) (scope : Scope) : Workspace :=
  ⟨workspace.scopes.insert slot scope⟩

def storeResult (workspace : Workspace) (slot : String) :
    Except ScopeError Scope → Workspace × Reply
  | .ok scope => (workspace.store slot scope, .none)
  | .error e => (workspace, .failed e)

/-- Takes a step on the scope in a slot. -/
def step (workspace : Workspace) (slot : String) : Step → Workspace × Reply
  | .new => (workspace.store slot {}, .none)
  | .make scope => (workspace.store slot scope, .none)
  | .child of =>
    match workspace.scope? of with
    | some scope => (workspace.store slot scope.child, .none)
    | none => (workspace, .none)
  | .clone of =>
    match workspace.scope? of with
    | some scope => (workspace.store slot scope, .none)
    | none => (workspace, .none)
  | .fromDocument document => workspace.storeResult slot (Scope.ofDocument document)
  | .fromValue value => workspace.storeResult slot (Scope.ofValue value)
  | .fromKeyedPairs pairs => workspace.storeResult slot (Scope.ofKeyedPairs pairs)
  | .insert name value =>
    match workspace.scope? slot with
    | some scope => (workspace.store slot (scope.insert name value), .none)
    | none => (workspace, .none)
  | .remove name =>
    match workspace.scope? slot with
    | some scope => (workspace.store slot (scope.erase name), .removed (scope.own.get? name))
    | none => (workspace, .none)
  | .get name =>
    match workspace.scope? slot with
    | some scope => (workspace, .got (scope.get? name))
    | none => (workspace, .none)
  | .render template =>
    match workspace.scope? slot with
    | some scope => (workspace, .rendered (render template scope.get? []))
    | none => (workspace, .none)

/-- Takes steps in turn, each on the slot that goes with it. -/
def steps (workspace : Workspace) (history : List (String × Step)) : Workspace :=
  history.foldl (fun workspace (slot, step) => (workspace.step slot step).1) workspace

@[simp] theorem scope?_store_self (workspace : Workspace) (slot : String) (scope : Scope) :
    (workspace.store slot scope).scope? slot = some scope :=
  Table.get?_insert_self slot scope workspace.scopes

theorem scope?_store_of_ne (workspace : Workspace) {slot other : String} (h : other ≠ slot)
    (scope : Scope) : (workspace.store slot scope).scope? other = workspace.scope? other :=
  Table.get?_insert_of_ne h scope workspace.scopes

end Workspace
end Splice
