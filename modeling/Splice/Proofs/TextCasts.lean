import Splice.Proofs.Plans

/-!
# Casting values and their texts

Where a value is cast to a text, a truth value or an integer it makes no difference whether the
value itself is cast or a string with its text form: an integer prints as the numeral that reads it
back, in and out of bounds, and no other value prints as a numeral or a truth value. Floating point
numbers are excepted, since a whole one prints as an integer. Main statement: both casts agree,
errors included, and so do the two plans of a lone expression.
-/

namespace Splice

/-- The targets for which a string stands for itself or is read as a truth value or an integer. -/
def Target.isTextual : Target → Bool
  | .string | .bool | .integer _ => true
  | _ => false

def Value.isFloat : Value → Bool
  | .float _ => true
  | _ => false

/-! ## Numerals -/

namespace Numeral

theorem natural?_cons_eq_none {c : Char} (h : c.isDigit = false) (cs : List Char) :
    natural? (c :: cs) = none := by
  simp [natural?, h]

theorem unsigned?_cons_eq_none {c : Char} (h : c.isDigit = false) (hplus : c ≠ '+')
    (cs : List Char) : unsigned? (c :: cs) = none := by
  unfold unsigned?
  split
  · rename_i hcons
    exact absurd (List.cons.inj hcons).1 hplus
  · rw [natural?_cons_eq_none h, Option.map_none]

theorem signed?_cons_eq_none {c : Char} (h : c.isDigit = false) (hplus : c ≠ '+')
    (hminus : c ≠ '-') (cs : List Char) : signed? (c :: cs) = none := by
  unfold signed?
  split
  · rename_i hcons
    exact absurd (List.cons.inj hcons).1 hminus
  · exact unsigned?_cons_eq_none h hplus cs

end Numeral

namespace IntType

/-- Nothing is read from a text that starts with neither a digit nor a sign. -/
theorem read_eq_none_of_head? {type : IntType} {text : String} {c : Char}
    (htext : text.toList.head? = some c) (h : c.isDigit = false) (hplus : c ≠ '+')
    (hminus : c ≠ '-') : type.read text = none := by
  obtain ⟨cs, hcs⟩ : ∃ cs, text.toList = c :: cs := List.head?_eq_some_iff.mp htext
  rw [read, hcs, Numeral.signed?_cons_eq_none h hplus hminus,
    Numeral.unsigned?_cons_eq_none h hplus, ite_self, Option.bind_none]

/-- An integer is read back from its text where it is within bounds, and only there. -/
theorem read_repr (type : IntType) (n : Int) : type.read n.repr = type.fit n := by
  cases hsigned : type.isSigned with
  | true => simp [read, hsigned]
  | false =>
    have hlower : type.lower = 0 := by cases type <;> simp_all [isSigned, lower]
    by_cases hn : 0 ≤ n
    · have hunsigned : Numeral.unsigned? n.repr.toList = some n := by
        rw [Int.repr_eq_if, if_pos hn, Nat.toList_repr,
          Numeral.unsigned?_of_natural? (Numeral.natural?_toDigits _), Int.toNat_of_nonneg hn]
      simp [read, hsigned, hunsigned]
    · -- An unsigned type has no notation for the integer and no room for it.
      have hunsigned : Numeral.unsigned? n.repr.toList = none := by
        rw [Int.repr_eq_if, if_neg hn, String.toList_append]
        exact Numeral.unsigned?_cons_eq_none (c := '-') (by decide) (by decide) _
      have hfit : type.fit n = none := by
        rw [fit, hlower, if_neg fun h => hn h.1]
      simp [read, hsigned, hunsigned, hfit]

end IntType

theorem readBool?_eq_none_of_head? {text : String} {c : Char} (htext : text.toList.head? = some c)
    (ht : c ≠ 't') (hf : c ≠ 'f') : readBool? text = none := by
  have htrue : text ≠ "true" := by
    rintro rfl
    exact ht (Option.some.inj htext).symm
  have hfalse : text ≠ "false" := by
    rintro rfl
    exact hf (Option.some.inj htext).symm
  rw [readBool?, if_neg htrue, if_neg hfalse]

/-- No integer prints as a truth value, as neither truth value is read as an integer. -/
theorem readBool?_repr (n : Int) : readBool? n.repr = none := by
  have hne (word : String) (hword : Numeral.signed? word.toList = none) : n.repr ≠ word := by
    rintro rfl
    rw [Numeral.signed?_repr] at hword
    cases hword
  rw [readBool?, if_neg (hne "true" (by decide)), if_neg (hne "false" (by decide))]

/-! ## Texts of values -/

namespace Value

theorem head?_text_list (items : List Value) : (list items).text.toList.head? = some '[' := by
  simp [text]

theorem head?_text_map (entries : List (String × Value)) :
    (map entries).text.toList.head? = some '\x7b' := by
  simp [text]

/-- An integer is read from the text of a value where the value is cast to it. -/
theorem read_text (type : IntType) {value : Value} (h : value.isFloat = false) :
    type.read value.text = value.toInt? type := by
  cases value with
  | null => cases type <;> decide
  | bool b => cases b <;> cases type <;> decide
  | int n => rw [text, IntType.read_repr, toInt?]
  | float x => cases h
  | string s => rw [text, toInt?]
  | list items | set items =>
    exact IntType.read_eq_none_of_head? (head?_text_list items) (by decide) (by decide)
      (by decide)
  | map entries =>
    exact IntType.read_eq_none_of_head? (head?_text_map entries) (by decide) (by decide)
      (by decide)

/-- A truth value is read from the text of a value where the value is cast to it. -/
theorem readBool?_text {value : Value} (h : value.isFloat = false) :
    readBool? value.text = value.toBool? := by
  cases value with
  | null => decide
  | bool b => cases b <;> decide
  | int n =>
    rw [text]
    exact readBool?_repr n.toInt
  | float x => cases h
  | string s => rw [text, toBool?]
  | list items | set items =>
    exact readBool?_eq_none_of_head? (head?_text_list items) (by decide) (by decide)
  | map entries =>
    exact readBool?_eq_none_of_head? (head?_text_map entries) (by decide) (by decide)

theorem cast_string_text {target : Target} (htarget : target.isTextual = true) {value : Value}
    (h : value.isFloat = false) : (string value.text).cast target = value.cast target := by
  have herror (target : Target) :
      (string value.text).castError target = value.castError target := by
    rw [castError, castError, text]
  cases target with
  | string => rw [cast, cast, text]
  | bool => rw [cast, cast, herror, toBool?, readBool?_text h]
  | integer type => rw [cast, cast, herror, toInt?, read_text type h]
  | _ => cases htarget

end Value

/-! ## Plans of a lone expression -/

/-- Where the part has no floating point number as its value, its text serves as well. -/
theorem Plan.run_single_eq_run_concat {target : Target} (htarget : target.isTextual = true)
    {part : Part} {context : Context} {draws : List Nat}
    (h : ∀ found, (part.eval.run context draws).result = .ok found → found.value.isFloat = false) :
    (Plan.single part : Plan target).evaluate.run context draws =
      (Plan.concat [part] : Plan target).evaluate.run context draws := by
  have hconcat : (Plan.concat [part] : Plan target).evaluate =
      part.eval.bind fun found => Evaluation.cast target (.string found.value.text) := by
    rw [evaluate, Part.renderAll_singleton, Part.render_eq_bind, Evaluation.bind_eq,
      Evaluation.bind_bind]
    rfl
  rw [hconcat, evaluate, Evaluation.bind_eq, Evaluation.run_bind, Evaluation.run_bind,
    Run.andThen, Run.andThen]
  cases hresult : (part.eval.run context draws).result with
  | error e => rfl
  | ok found =>
    simp only [Evaluation.cast, Value.cast_string_text htarget (h found hresult)]

/-- A value that is no floating point number is cast to a text, a truth value or an integer just as
a string with its text is, or fails with the same value and target in the error. So a lone
expression, which is evaluated for its value, comes to the same as if it were rendered and the text
cast. -/
theorem cast_eq_cast_text {target : Target} (htarget : target.isTextual = true) :
    (∀ value : Value, value.isFloat = false →
      value.cast target = (Value.string value.text).cast target) ∧
    ∀ body : Body, ∃ expression : Expression target,
      Expression.compile target ("$\x7b" ++ body.text ++ "\x7d") = .ok expression ∧
      expression.plan = .single body.part ∧
      ∀ context draws,
        (∀ found, (body.part.eval.run context draws).result = .ok found →
          found.value.isFloat = false) →
        expression.evaluate.run context draws =
          (Plan.concat [body.part] : Plan target).evaluate.run context draws := by
  constructor
  · intro value hvalue
    exact (Value.cast_string_text htarget hvalue).symm
  · intro body
    refine ⟨_, Expression.compile_body target body, rfl, ?_⟩
    intro context draws hfound
    exact Plan.run_single_eq_run_concat htarget hfound

theorem cast_eq_cast_text_unsigned :
    let target : Target := .integer .uint32
    let body : Body := .root ⟨"n", by simp, by simp [isReserved]⟩
    let context (n : Int64) : Context := fun name => if name = "n" then some (.int n) else none
    target.isTextual = true ∧ (∀ n, (Value.int n).isFloat = false) ∧
      (Value.int (-1)).cast target = (Value.string "-1").cast target ∧
      (Value.int 7).cast target = .ok (7 : Int) ∧
      (Value.string "7").cast target = .ok (7 : Int) ∧
      (∀ n found, (body.part.eval.run (context n) []).result = .ok found →
        found.value.isFloat = false) ∧
      ∃ expression : Expression target,
        Expression.compile target "$\x7bn\x7d" = .ok expression ∧
        (∀ n, expression.evaluate.run (context n) [] =
          (Plan.concat [body.part] : Plan target).evaluate.run (context n) []) ∧
        (expression.evaluate.run (context (-1)) []).result = .error (.cast ⟨"-1", "u32"⟩) ∧
        (expression.evaluate.run (context 7) []).result = .ok (7 : Int) := by
  intro target body context
  have htarget : target.isTextual = true := rfl
  have hresult (n : Int64) : (body.part.eval.run (context n) []).result =
      .ok ⟨.int n, .stored⟩ := rfl
  have hfound : ∀ n found, (body.part.eval.run (context n) []).result = .ok found →
      found.value.isFloat = false := by
    intro n found h
    rw [hresult] at h
    cases h
    rfl
  obtain ⟨hcast, hplans⟩ := cast_eq_cast_text htarget
  obtain ⟨expression, hcompile, -, hrun⟩ := hplans body
  have hseven : (Value.int 7).cast target = .ok (7 : Int) := by cbv
  refine ⟨htarget, fun _ => rfl, hcast (.int (-1)) rfl, hseven,
    (hcast (.int 7) rfl).symm.trans hseven, hfound, expression, hcompile,
    fun n => hrun (context n) [] (hfound n), ?_, ?_⟩
  · rw [hrun (context (-1)) [] (hfound (-1))]
    cbv
  · rw [hrun (context 7) [] (hfound 7)]
    cbv

end Splice
