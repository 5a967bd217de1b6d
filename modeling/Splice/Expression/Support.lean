import Splice.Expression

/-!
# What an expression can come to

The texts and the messages of failures that an expression evaluates to over all draws, each once
and in ascending order. The draws of different parts are independent, so the texts of a
concatenation are those of its parts combined, and equal texts are merged part by part. The main
statements say that nothing is lost by that and nothing added.
-/

namespace Splice

structure Support where
  texts : List String
  messages : List String

/-- Texts in ascending order, each once. -/
def distinct (texts : List String) : List String :=
  (Entries.ofList (texts.map fun text => (text, ()))).map (·.1)

@[simp] theorem mem_distinct {texts : List String} {text : String} :
    text ∈ distinct texts ↔ text ∈ texts := by
  simp [distinct, Entries.mem_keys_ofList]

namespace Support

def ofOutcomes (outcomes : List (Except EvalError String)) : Support :=
  { texts := distinct (outcomes.filterMap Except.toOption)
    messages := distinct (outcomes.filterMap fun
      | .error e => some e.message
      | .ok _ => none) }

/-- One evaluation and then another, whose texts are joined. The second is reached only if the
first can succeed. -/
def andThen (first second : Support) : Support :=
  { texts := distinct (first.texts.flatMap fun text => second.texts.map (text ++ ·))
    messages :=
      distinct (first.messages ++ if first.texts.isEmpty then [] else second.messages) }

def ofParts (context : Context) : List Part → Support
  | [] => ⟨[""], []⟩
  | part :: parts => (ofOutcomes (part.render.outcomes context)).andThen (ofParts context parts)

/-- The support lists the texts and the messages of the outcomes. -/
def Lists (support : Support) (outcomes : List (Except EvalError String)) : Prop :=
  (∀ text, text ∈ support.texts ↔ .ok text ∈ outcomes) ∧
    ∀ message, message ∈ support.messages ↔ ∃ e, .error e ∈ outcomes ∧ e.message = message

theorem ofOutcomes_lists (outcomes : List (Except EvalError String)) :
    (ofOutcomes outcomes).Lists outcomes := by
  constructor
  · intro text
    simp only [ofOutcomes, mem_distinct, List.mem_filterMap]
    constructor
    · rintro ⟨outcome, hmem, h⟩
      cases outcome with
      | error e => simp [Except.toOption] at h
      | ok t => simp_all [Except.toOption]
    · exact fun h => ⟨_, h, rfl⟩
  · intro message
    simp only [ofOutcomes, mem_distinct, List.mem_filterMap]
    constructor
    · rintro ⟨outcome, hmem, h⟩
      cases outcome with
      | error e => exact ⟨e, hmem, by simpa using h⟩
      | ok t => simp at h
    · rintro ⟨e, hmem, rfl⟩
      exact ⟨_, hmem, rfl⟩

theorem andThen_lists {first second : Support} {p q : Evaluation String} {context : Context}
    (hp : first.Lists (p.outcomes context)) (hq : second.Lists (q.outcomes context)) :
    (first.andThen second).Lists
      ((p.bind fun text => q.bind fun rest => .done (text ++ rest)).outcomes context) := by
  simp only [Lists, Evaluation.outcomes_bind, List.mem_flatMap, Evaluation.outcomes]
  constructor
  · intro text
    simp only [andThen, mem_distinct, List.mem_flatMap, List.mem_map, hp.1, hq.1]
    constructor
    · rintro ⟨a, ha, b, hb, rfl⟩
      exact ⟨_, ha, List.mem_flatMap.2 ⟨_, hb, by simp⟩⟩
    · rintro ⟨a, ha, h⟩
      cases a with
      | error e => simp at h
      | ok a =>
        obtain ⟨b, hb, h⟩ := List.mem_flatMap.1 h
        cases b with
        | error e => simp at h
        | ok b =>
          have ht : text = a ++ b := by simpa using h
          exact ⟨a, ha, b, hb, ht.symm⟩
  · intro message
    simp only [andThen, mem_distinct, List.mem_append, hp.2]
    constructor
    · rintro (⟨e, he, rfl⟩ | h)
      · exact ⟨e, ⟨_, he, by simp⟩, rfl⟩
      · split at h
        · simp at h
        · rename_i hne
          obtain ⟨a, ha⟩ := List.exists_mem_of_ne_nil first.texts (by simpa using hne)
          obtain ⟨e, he, rfl⟩ := (hq.2 message).1 h
          exact ⟨e, ⟨_, (hp.1 a).1 ha, List.mem_flatMap.2 ⟨_, he, by simp⟩⟩, rfl⟩
    · rintro ⟨e, ⟨a, ha, h⟩, rfl⟩
      cases a with
      | error e' =>
        have : e = e' := by simpa using h
        exact Or.inl ⟨e', ha, by rw [this]⟩
      | ok a =>
        obtain ⟨b, hb, h⟩ := List.mem_flatMap.1 h
        cases b with
        | ok b => simp at h
        | error e' =>
          have he : e = e' := by simpa using h
          have hne : first.texts.isEmpty = false := by
            cases ht : first.texts with
            | nil => have := (hp.1 a).2 ha; simp [ht] at this
            | cons t ts => rfl
          exact Or.inr (by simpa [hne, he] using (hq.2 e'.message).2 ⟨e', hb, rfl⟩)

theorem ofParts_lists (context : Context) (parts : List Part) :
    (ofParts context parts).Lists ((Part.renderAll parts).outcomes context) := by
  induction parts with
  | nil => simp [Lists, ofParts, Part.renderAll, Part.renderAfter, Evaluation.outcomes]
  | cons part parts ih =>
    rw [Part.renderAll_cons]
    exact andThen_lists (ofOutcomes_lists _) ih

end Support

namespace Expression

def support (expression : Expression .string) (context : Context) : Support :=
  match expression.plan with
  | .concat parts => .ofParts context parts
  | _ => .ofOutcomes (expression.evaluate.outcomes context)

theorem support_lists (expression : Expression .string) (context : Context) :
    (expression.support context).Lists (expression.evaluate.outcomes context) := by
  unfold support
  split
  · rename_i parts h
    have heval : expression.evaluate = Part.renderAll parts := by
      simp only [evaluate, h, Plan.evaluate]
      exact Evaluation.bind_done _
    rw [heval]
    exact Support.ofParts_lists context parts
  · exact Support.ofOutcomes_lists _

end Expression
end Splice
