import Splice.Expression
import Splice.Proofs.BodyReading

/-!
# Reading templates

The splits at the markers, and the parser as a whole. Main statement: a template parses exactly when
it is the text of a layout, into the parts of that layout, and no text is that of two layouts.
Nothing depends on what the parser read before.
-/

namespace Splice

/-! ## Markers -/

theorem splitOpen?_eq_none_iff {cs : List Char} :
    splitOpen? cs = none ↔ ¬ ['$', '{'] <:+: cs := by
  fun_induction splitOpen? cs with
  | case1 => simp
  | case2 rest => simp [List.infix_cons_iff]
  | case3 c rest hc ih =>
    have hstart : ¬ ['$', '{'] <+: c :: rest := by
      rintro ⟨more, h⟩
      simp only [List.cons_append, List.nil_append, List.cons.injEq] at h
      exact hc more h.1.symm h.2.symm
    simp [List.infix_cons_iff, hstart, ih]

theorem splitOpen?_append {before : List Char} (h : ¬ ['$', '{'] <:+: before)
    (after : List Char) : splitOpen? (before ++ '$' :: '{' :: after) = some (before, after) := by
  induction before with
  | nil => simp [splitOpen?]
  | cons c rest ih =>
    rw [List.infix_cons_iff, not_or] at h
    -- A dollar sign that ends the text is followed by that of the marker, and opens nothing.
    have hc : ∀ more, c = '$' → rest ++ '$' :: '{' :: after = '{' :: more → False := by
      rintro more rfl hmore
      cases rest with
      | nil => simp at hmore
      | cons d rest =>
        apply h.1
        simp only [List.cons_append, List.cons.injEq] at hmore
        rw [hmore.1]
        exact ⟨rest, rfl⟩
    rw [List.cons_append, splitOpen?.eq_3 _ _ hc, ih h.2]
    rfl

theorem not_infix_of_splitOpen? {cs before after : List Char}
    (h : splitOpen? cs = some (before, after)) : ¬ ['$', '{'] <:+: before := by
  fun_induction splitOpen? cs generalizing before with
  | case1 => simp at h
  | case2 rest => simp_all
  | case3 c rest hc ih =>
    obtain ⟨⟨b, a⟩, hs, hb⟩ := Option.map_eq_some_iff.1 h
    cases hb
    have hrest := append_of_splitOpen? hs
    have hstart : ¬ ['$', '{'] <+: c :: b := by
      rintro ⟨more, hm⟩
      simp only [List.cons_append, List.nil_append, List.cons.injEq] at hm
      apply hc (more ++ '$' :: '{' :: after) hm.1.symm
      rw [hrest, ← hm.2]
      rfl
    rw [List.infix_cons_iff, not_or]
    exact ⟨hstart, ih hs⟩

theorem splitClose?_eq_none_iff {cs : List Char} : splitClose? cs = none ↔ '}' ∉ cs := by
  induction cs with
  | nil => simp [splitClose?]
  | cons c rest ih =>
    by_cases hc : c = '}'
    · simp [splitClose?, hc]
    · simp [splitClose?, hc, ih, Ne.symm hc]

theorem splitClose?_append {body : List Char} (h : '}' ∉ body) (after : List Char) :
    splitClose? (body ++ '}' :: after) = some (body, after) := by
  induction body with
  | nil => simp [splitClose?]
  | cons c rest ih =>
    simp only [List.mem_cons, not_or] at h
    simp [splitClose?, Ne.symm h.1, ih h.2]

/-- A text cut at its markers: literal text and closed bodies in turn, whatever stands in the
bodies, up to the end of the text or to an expression that is never closed. -/
inductive Cut : List Char → Prop
  | literal (last : Literal) : Cut last.text.toList
  | unclosed (before : Literal) {rest : List Char} : '}' ∉ rest →
      Cut (before.text.toList ++ '$' :: '{' :: rest)
  | closed (before : Literal) {body after : List Char} : '}' ∉ body → Cut after →
      Cut (before.text.toList ++ '$' :: '{' :: (body ++ '}' :: after))

/-- Every text can be cut, so what holds of the three ways to go on holds of every text. -/
theorem cut (cs : List Char) : Cut cs := by
  cases hopen : splitOpen? cs with
  | none =>
    have hclosed := splitOpen?_eq_none_iff.mp hopen
    simpa using Cut.literal ⟨String.ofList cs, by simpa using hclosed⟩
  | some split =>
    obtain ⟨before, rest⟩ := split
    have hbefore := not_infix_of_splitOpen? hopen
    have hcs := append_of_splitOpen? hopen
    by_cases hmem : '}' ∈ rest
    · obtain ⟨body, after, hrest, hbody⟩ := List.eq_append_cons_of_mem hmem
      have hlt : after.length < cs.length := by
        simp only [hcs, hrest, List.length_append, List.length_cons]
        omega
      have h := Cut.closed ⟨String.ofList before, by simpa using hbefore⟩ hbody (cut after)
      rw [hcs, hrest]
      simpa using h
    · have h := Cut.unclosed ⟨String.ofList before, by simpa using hbefore⟩ hmem
      rw [hcs]
      simpa using h
termination_by cs.length
decreasing_by exact hlt

/-! ## Templates -/

namespace Parser

/-- The parts of a text do not depend on what the parser read before: a body that is read starts
the path anew, and at a body that is not, reading ends. -/
theorem parts_fst_congr (p q : Parser) (cs : List Char) : (p.parts cs).1 = (q.parts cs).1 := by
  rw [parts, parts]
  split
  · rfl
  · split
    · rfl
    · rename_i body after _
      simp only [expression]
      cases readToken .expectedName body <;> rfl

/-- One round of reading: literal text, then one expression, then the rest of the template. -/
theorem parts_fst (parser : Parser) (cs : List Char) :
    (parser.parts cs).1 =
      match splitOpen? cs with
      | none => .ok (literal cs)
      | some (before, rest) =>
        match splitClose? rest with
        | none => .error ⟨.unterminated, '$' :: '{' :: rest⟩
        | some (body, after) =>
          match (parser.expression body).1 with
          | .error fault => .error (fault.before ('}' :: after))
          | .ok part => (parser.parts after).1.map (literal before ++ part :: ·) := by
  rw [parts]
  split
  · rename_i hopen
    rw [hopen]
  · rename_i before rest hopen
    rw [hopen]
    dsimp only
    split
    · rename_i hclose
      rw [hclose]
    · rename_i body after hclose
      rw [hclose]
      dsimp only
      cases parser.expression body with
      | mk result parser' =>
        cases result with
        | error fault => rfl
        | ok part =>
          dsimp only
          rw [parts_fst_congr parser parser' after]
          cases parser'.parts after with
          | mk more parser'' => cases more <;> rfl

theorem parts_literal (parser : Parser) (last : Literal) :
    (parser.parts last.text.toList).1 = .ok (literal last.text.toList) := by
  rw [parts_fst, splitOpen?_eq_none_iff.mpr last.closed]

theorem parts_unclosed (parser : Parser) (before : Literal) {rest : List Char} (h : '}' ∉ rest) :
    (parser.parts (before.text.toList ++ '$' :: '{' :: rest)).1 =
      .error ⟨.unterminated, '$' :: '{' :: rest⟩ := by
  rw [parts_fst, splitOpen?_append before.closed]
  dsimp only
  rw [splitClose?_eq_none_iff.mpr h]

theorem parts_closed (parser : Parser) (before : Literal) {body : List Char} (h : '}' ∉ body)
    (after : List Char) :
    (parser.parts (before.text.toList ++ '$' :: '{' :: (body ++ '}' :: after))).1 =
      match (parser.expression body).1 with
      | .error fault => .error (fault.before ('}' :: after))
      | .ok part =>
        (parser.parts after).1.map (literal before.text.toList ++ part :: ·) := by
  rw [parts_fst, splitOpen?_append before.closed]
  dsimp only
  rw [splitClose?_append h]

theorem parts_text (parser : Parser) (layout : Layout) :
    (parser.parts layout.text.toList).1 = .ok layout.segments := by
  induction layout with
  | literal last =>
    rw [Layout.toList_text_literal, parts_literal, Layout.segments_literal]
  | expression before body after ih =>
    rw [Layout.toList_text_expression, parts_closed parser before body.close_not_mem_text,
      expression_text]
    dsimp only
    rw [ih, Layout.segments_expression]
    rfl

theorem exists_of_parts_ok (parser : Parser) {cs : List Char} {parts : List Part}
    (h : (parser.parts cs).1 = .ok parts) : ∃ layout : Layout, layout.text.toList = cs := by
  induction cut cs generalizing parts with
  | literal last => exact ⟨.literal last, rfl⟩
  | unclosed before hrest =>
    rw [parts_unclosed parser before hrest] at h
    cases h
  | @closed before body after hbody _ ih =>
    rw [parts_closed parser before hbody] at h
    cases hpart : (parser.expression body).1 with
    | error fault => simp [hpart] at h
    | ok part =>
      cases hafter : (parser.parts after).1 with
      | error fault => simp [hpart, hafter, Except.map] at h
      | ok more =>
        obtain ⟨expression, rfl, -⟩ := expression_eq_ok_iff.mp hpart
        obtain ⟨layout, rfl⟩ := ih hafter
        exact ⟨.expression before expression layout, by simp⟩

theorem parse_fst (parser : Parser) (source : String) :
    (parser.parse source).1 =
      match (parser.parts source.toList).1 with
      | .error fault => .error (fault.locate source)
      | .ok [] => .ok [.text source]
      | .ok parts => .ok parts := by
  rw [parse]
  cases parser.parts source.toList with
  | mk result parser' =>
    cases result with
    | error fault => rfl
    | ok parts => cases parts <;> rfl

theorem parse_text (parser : Parser) (layout : Layout) :
    (parser.parse layout.text).1 = .ok layout.parts := by
  rw [parse_fst, parts_text]
  cases layout with
  | literal last =>
    by_cases h : last.text = "" <;> simp [literal, h, Layout.text, Layout.parts]
  | expression before body after =>
    cases h : (Layout.expression before body after).segments with
    | nil => simp at h
    | cons part parts => simp [Layout.parts, h]

theorem exists_of_parse_ok {parser : Parser} {source : String} {parts : List Part}
    (h : (parser.parse source).1 = .ok parts) :
    ∃ layout : Layout, layout.text = source ∧ layout.parts = parts := by
  cases hparts : (parser.parts source.toList).1 with
  | error fault => simp [parse_fst, hparts] at h
  | ok segments =>
    obtain ⟨layout, htext⟩ := exists_of_parts_ok parser hparts
    have hsource : layout.text = source := String.toList_inj.mp htext
    have hlayout := parser.parse_text layout
    rw [hsource, h] at hlayout
    exact ⟨layout, hsource, (Except.ok.inj hlayout).symm⟩

end Parser

/-- A template is the text of one layout at most. -/
theorem Layout.text_injective : Function.Injective Layout.text := by
  intro a b h
  have hl := congrArg String.toList h
  induction a generalizing b with
  | literal last =>
    cases b with
    | literal last' => rw [Literal.ext h]
    | expression before body after =>
      have hopen := splitOpen?_eq_none_iff.mpr last.closed
      rw [toList_text_literal] at hl
      rw [hl, toList_text_expression, splitOpen?_append before.closed] at hopen
      cases hopen
  | expression before body after ih =>
    cases b with
    | literal last =>
      have hopen := splitOpen?_eq_none_iff.mpr last.closed
      rw [toList_text_literal] at hl
      rw [← hl, toList_text_expression, splitOpen?_append before.closed] at hopen
      cases hopen
    | expression before' body' after' =>
      have hopen := congrArg splitOpen? hl
      simp only [toList_text_expression, splitOpen?_append before.closed,
        splitOpen?_append before'.closed, Option.some.injEq, Prod.mk.injEq] at hopen
      have hclose := congrArg splitClose? hopen.2
      simp only [splitClose?_append body.close_not_mem_text,
        splitClose?_append body'.close_not_mem_text, Option.some.injEq, Prod.mk.injEq] at hclose
      have hafter := String.toList_inj.mp hclose.2
      rw [Literal.ext (String.toList_inj.mp hopen.1),
        Body.text_injective (String.toList_inj.mp hclose.1), ih hafter hclose.2]

theorem Template.parse_text (layout : Layout) :
    Template.parse layout.text = .ok ⟨layout.text, layout.parts⟩ := by
  simp [Template.parse, Parser.parse_text, Except.map]

theorem Template.exists_of_parse_ok {source : String} {template : Template}
    (h : Template.parse source = .ok template) :
    ∃ layout : Layout, layout.text = source ∧ template = ⟨source, layout.parts⟩ := by
  unfold Template.parse at h
  cases hparse : (({} : Parser).parse source).1 with
  | error e => simp [hparse, Except.map] at h
  | ok parts =>
    simp only [hparse, Except.map, Except.ok.injEq] at h
    subst h
    obtain ⟨layout, htext, rfl⟩ := Parser.exists_of_parse_ok hparse
    exact ⟨layout, htext, rfl⟩

/-- The template is read without a fault. -/
def Parses (source : String) : Prop :=
  ∃ template, Template.parse source = .ok template

theorem parses_iff {source : String} : Parses source ↔ ∃ layout : Layout, layout.text = source := by
  constructor
  · rintro ⟨template, h⟩
    obtain ⟨layout, htext, -⟩ := Template.exists_of_parse_ok h
    exact ⟨layout, htext⟩
  · rintro ⟨layout, rfl⟩
    exact ⟨_, Template.parse_text layout⟩

theorem Expression.compile_text (target : Target) (layout : Layout) :
    Expression.compile target layout.text =
      .ok (.ofTemplate target ⟨layout.text, layout.parts⟩) :=
  compile_of_parse_ok (Template.parse_text layout)

/-- An expression that is alone in a template is evaluated for its value. -/
theorem Expression.compile_body (target : Target) (body : Body) :
    compile target ("$\x7b" ++ body.text ++ "\x7d") =
      .ok ⟨⟨"$\x7b" ++ body.text ++ "\x7d", [body.part]⟩, .single body.part⟩ := by
  have hplan : Plan.ofParts target [body.part] = .single body.part := by
    cases body <;> rfl
  rw [← body.text_layout, compile_text, ofTemplate, body.parts_layout, hplan]

theorem Expression.exists_of_compile_ok {target : Target} {source : String}
    {expression : Expression target} (h : Expression.compile target source = .ok expression) :
    ∃ layout : Layout, layout.text = source ∧
      expression = .ofTemplate target ⟨source, layout.parts⟩ := by
  rw [compile] at h
  cases hparse : Template.parse source with
  | error e => simp [hparse, Except.map] at h
  | ok template =>
    simp only [hparse, Except.map, Except.ok.injEq] at h
    obtain ⟨layout, htext, rfl⟩ := Template.exists_of_parse_ok hparse
    exact ⟨layout, htext, h.symm⟩

/-- The parser accepts exactly the texts of layouts, gives the parts that the layout stands for,
and has no choice of layouts. -/
theorem parse_eq_ok_iff_layout (parser : Parser) (source : String) (parts : List Part) :
    ((parser.parse source).1 = .ok parts ↔
      ∃ layout : Layout, layout.text = source ∧ layout.parts = parts) ∧
    Function.Injective Layout.text := by
  constructor
  · constructor
    · exact Parser.exists_of_parse_ok
    · rintro ⟨layout, rfl, rfl⟩
      exact parser.parse_text layout
  · exact Layout.text_injective

end Splice
