import Splice.EvalError

/-!
# Evaluations

An evaluation asks for the values of names and for positions drawn at random, and ends in a result
or a failure. It is a tree that branches on the answers, so what it asks can depend on what it was
told, and on nothing else. It runs against any context and any sequence of draws, or through all
draws at once.
-/

namespace Splice

/-- What an evaluation asks: the value a name is bound to, if it is bound. -/
abbrev Context := String → Option Value

inductive Evaluation (α : Type) where
  | done (result : α)
  | fail (error : EvalError)
  | ask (name : String) (next : Option Value → Evaluation α)
  | draw (bound : Nat) (next : Nat → Evaluation α)

/-- What a run comes to: its result, the names it asked in order, and the draws it left. -/
structure Run (α : Type) where
  result : Except EvalError α
  asked : List String
  draws : List Nat

/-- The run that goes on from a result, with the draws that were left. -/
def Run.andThen {α β : Type} (r : Run α) (next : α → List Nat → Run β) : Run β :=
  match r.result with
  | .ok a =>
    let rest := next a r.draws
    { rest with asked := r.asked ++ rest.asked }
  | .error e => ⟨.error e, r.asked, r.draws⟩

namespace Evaluation

variable {α β : Type}

def bind : Evaluation α → (α → Evaluation β) → Evaluation β
  | done result, f => f result
  | fail error, _ => fail error
  | ask name next, f => ask name fun answer => (next answer).bind f
  | draw bound next, f => draw bound fun position => (next position).bind f

instance : Monad Evaluation where
  pure := done
  bind := bind

@[simp] theorem pure_eq (a : α) : (pure a : Evaluation α) = done a := rfl

@[simp] theorem bind_eq (p : Evaluation α) (f : α → Evaluation β) : p >>= f = p.bind f := rfl

@[simp] theorem map_eq (f : α → β) (p : Evaluation α) :
    f <$> p = p.bind fun a => done (f a) := rfl

@[simp] theorem bind_done (p : Evaluation α) : p.bind done = p := by
  induction p with
  | done a => rfl
  | fail e => rfl
  | ask name next ih => simp [bind, ih]
  | draw bound next ih => simp [bind, ih]

theorem bind_bind {γ : Type} (p : Evaluation α) (f : α → Evaluation β) (g : β → Evaluation γ) :
    (p.bind f).bind g = p.bind fun a => (f a).bind g := by
  induction p with
  | done a => rfl
  | fail e => rfl
  | ask name next ih => simp [bind, ih]
  | draw bound next ih => simp [bind, ih]

instance : LawfulMonad Evaluation :=
  LawfulMonad.mk' Evaluation (fun p => by simp) (fun _ _ => rfl) bind_bind

def ofExcept : Except EvalError α → Evaluation α
  | .ok a => done a
  | .error e => fail e

/-- The value of a name, which must have one. -/
def require (name : String) : Evaluation Value :=
  ask name fun
    | some value => done value
    | none => fail (.undefinedAttribute name)

/-- The value cast to a target. -/
def cast (target : Target) (value : Value) : Evaluation target.Carrier :=
  match value.cast target with
  | .ok result => done result
  | .error e => fail (.cast e)

/-- The same evaluation with a failure replaced by a result. -/
def orElse (default : α) : Evaluation α → Evaluation α
  | done result => done result
  | fail _ => done default
  | ask name next => ask name fun answer => (next answer).orElse default
  | draw bound next => draw bound fun position => (next position).orElse default

/-- Runs an evaluation. Each draw takes one number from the sequence, brought below its bound;
past the end of the sequence the position drawn is the first. -/
def run (context : Context) : Evaluation α → List Nat → Run α
  | done result, draws => ⟨.ok result, [], draws⟩
  | fail error, draws => ⟨.error error, [], draws⟩
  | ask name next, draws =>
    let rest := (next (context name)).run context draws
    { rest with asked := name :: rest.asked }
  | draw bound next, draws => (next (draws.headD 0 % bound)).run context draws.tail

/-- The results of all draws. -/
def outcomes (context : Context) : Evaluation α → List (Except EvalError α)
  | done result => [.ok result]
  | fail error => [.error error]
  | ask name next => (next (context name)).outcomes context
  | draw bound next => (List.range bound).flatMap fun position => (next position).outcomes context

theorem run_bind (p : Evaluation α) (f : α → Evaluation β) (context : Context)
    (draws : List Nat) :
    (p.bind f).run context draws =
      (p.run context draws).andThen fun a rest => (f a).run context rest := by
  induction p generalizing draws with
  | done a => simp [bind, run, Run.andThen]
  | fail e => simp [bind, run, Run.andThen]
  | ask name next ih =>
    simp only [bind, run, ih, Run.andThen]
    cases ((next (context name)).run context draws).result <;> rfl
  | draw bound next ih => simp only [bind, run, ih]

theorem outcomes_bind (p : Evaluation α) (f : α → Evaluation β) (context : Context) :
    (p.bind f).outcomes context = (p.outcomes context).flatMap fun
      | .ok a => (f a).outcomes context
      | .error e => [.error e] := by
  induction p with
  | done a => simp [bind, outcomes]
  | fail e => simp [bind, outcomes]
  | ask name next ih => simp only [bind, outcomes, ih]
  | draw bound next ih => simp only [bind, outcomes, ih, List.flatMap_assoc]

end Evaluation
end Splice
