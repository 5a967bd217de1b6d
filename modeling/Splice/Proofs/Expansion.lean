import Splice.Proofs.Printing
import Splice.Proofs.Rendering
import Splice.Proofs.Substitution

/-!
# Expansions of containers

A list or map has the text that a longer template renders to, with one expression for each of its
elements or values between brackets or braces. Main statement: for an expression without random
elements whose value is a list, the template that selects the elements by their positions renders to
the text of the list; for one whose value is a map with tokens for keys, the template that selects
the values by their keys renders to the text of the map.
-/

namespace Splice

/-! ## Filling layouts -/

/-- The text of a layout with a text in the place of each expression. -/
def Layout.fill (f : Body → String) : Layout → String
  | literal last => last.text
  | expression before body after => before.text ++ f body ++ after.fill f

theorem Layout.fill_marked (layout : Layout) :
    layout.fill (fun body => "$\x7b" ++ body.text ++ "\x7d") = layout.text := by
  induction layout with
  | literal last => rfl
  | expression before body after ih =>
    rw [fill, ih, text]
    simp only [String.append_assoc]

/-- The text of the value that a body has whatever is drawn; empty if it has none. -/
def Body.textIn (context : Context) (body : Body) : String :=
  match body.result context [] with
  | .ok value => value.text
  | .error _ => ""

theorem Body.result_render (body : Body) (context : Context) (draws : List Nat) :
    (body.part.render.run context draws).result = (body.result context draws).map Value.text := by
  rw [Part.render_eq_bind, Evaluation.run_bind_done, result]
  cases h : (body.part.eval.run context draws).result <;> simp [Run.map, h, Except.map]

/-- An expression that is alone in a template renders to the text of its value. -/
theorem Body.result_evaluate_single_string (body : Body) (context : Context) (draws : List Nat) :
    ((Plan.single body.part : Plan .string).evaluate.run context draws).result =
      (body.result context draws).map Value.text := by
  rw [← result_render, Part.render_eq_bind]
  rfl

/-- Rendering puts the texts in the places of the expressions that have them whatever is drawn. -/
theorem Layout.result_renderAll_segments {context : Context} {f : Body → String} (layout : Layout)
    (h : ∀ body ∈ layout.bodies, ∀ draws,
      (body.part.render.run context draws).result = .ok (f body)) (draws : List Nat) :
    ((Part.renderAll layout.segments).run context draws).result = .ok (layout.fill f) := by
  induction layout generalizing draws with
  | literal last =>
    have hlast := Part.renderAll_literal_append last.text.toList []
    rw [List.append_nil, String.ofList_toList] at hlast
    rw [segments_literal, hlast, fill, Evaluation.result_append rfl fun _ => rfl]
    exact congrArg Except.ok String.append_empty
  | expression before body after ih =>
    have hbody := h body List.mem_cons_self
    have hafter := ih fun inner hinner => h inner (List.mem_cons_of_mem _ hinner)
    rw [segments_expression, Part.renderAll_literal_append, String.ofList_toList,
      Part.renderAll_cons_eq_append, fill, String.append_assoc]
    exact Evaluation.result_append rfl fun draws => Evaluation.result_append (hbody draws) hafter

theorem Layout.exists_expression_fill (context : Context) (layout : Layout)
    (h : ∀ body ∈ layout.bodies,
      body.part.NoRandom ∧ ∃ value, body.result context [] = .ok value) :
    ∃ expression : Expression .string,
      Expression.compile .string layout.text = .ok expression ∧ ∀ draws,
        (expression.evaluate.run context draws).result =
          .ok (layout.fill (Body.textIn context)) := by
  refine ⟨_, Expression.compile_text .string layout, fun draws => ?_⟩
  rw [Layout.evaluate_ofTemplate]
  refine layout.result_renderAll_segments (fun body hbody draws => ?_) draws
  obtain ⟨hrandom, value, hvalue⟩ := h body hbody
  rw [body.result_render, Body.result_congr hrandom context draws [], Body.textIn, hvalue]
  rfl

/-! ## Rows of expressions -/

/-- A label with an expression after it, and a value for the expression. -/
structure Row where
  label : String
  body : Body
  value : Value

namespace Row

/-- No expression opens at the label, and the expression has the value whatever is drawn. -/
structure Holds (context : Context) (row : Row) : Prop where
  label_plain : '$' ∉ row.label.toList
  noRandom : row.body.part.NoRandom
  result_eq : row.body.result context [] = .ok row.value

/-- The row as it is written. -/
def source (row : Row) : String := row.label ++ ("$\x7b" ++ row.body.text ++ "\x7d")

def text (row : Row) : String := row.label ++ row.value.text

theorem Holds.textIn_eq {context : Context} {row : Row} (h : row.Holds context) :
    row.body.textIn context = row.value.text := by
  rw [Body.textIn, h.result_eq]

/-- Rows, with a text around them and a separator between them, are a layout: no expression opens in
them but their own. -/
theorem exists_layout (opening closing : String) (hopening : '$' ∉ opening.toList)
    (hclosing : '$' ∉ closing.toList) (rows : List Row)
    (hrows : ∀ row ∈ rows, '$' ∉ row.label.toList) :
    ∃ layout : Layout, layout.bodies = rows.map Row.body ∧ ∀ f, layout.fill f =
      opening ++ ", ".intercalate (rows.map fun row => row.label ++ f row.body) ++ closing := by
  have hclosed {text : String} (h : '$' ∉ text.toList) : ¬ ['$', '{'] <:+: text.toList :=
    fun hopen => h (hopen.subset List.mem_cons_self)
  have hlabelled {front label : String} (hfront : '$' ∉ front.toList)
      (hlabel : '$' ∉ label.toList) : ¬ ['$', '{'] <:+: (front ++ label).toList :=
    hclosed (by simp [hfront, hlabel])
  -- After the first row it is the separator that opens the rest.
  induction rows generalizing opening with
  | nil =>
    exact ⟨.literal ⟨opening ++ closing, hlabelled hopening hclosing⟩, rfl,
      fun f => by simp [Layout.fill]⟩
  | cons row rest ih =>
    obtain ⟨hlabel, hrest⟩ := List.forall_mem_cons.mp hrows
    cases rest with
    | nil =>
      refine ⟨.expression ⟨opening ++ row.label, hlabelled hopening hlabel⟩ row.body
        (.literal ⟨closing, hclosed hclosing⟩), rfl, fun f => ?_⟩
      simp [Layout.fill, String.append_assoc]
    | cons next rest =>
      obtain ⟨after, hbodies, hfill⟩ := ih ", " (by simp) hrest
      refine ⟨.expression ⟨opening ++ row.label, hlabelled hopening hlabel⟩ row.body after, ?_,
        fun f => ?_⟩
      · rw [Layout.bodies, hbodies, List.map_cons (l := next :: rest)]
      · rw [Layout.fill, hfill, List.map_cons (l := next :: rest), List.map_cons,
          String.intercalate_cons_cons]
        simp only [String.append_assoc]

/-- Rows of expressions render to the rows of their texts. -/
theorem exists_expression {context : Context} (opening closing : String)
    (hopening : '$' ∉ opening.toList) (hclosing : '$' ∉ closing.toList) (rows : List Row)
    (hrows : ∀ row ∈ rows, row.Holds context) :
    ∃ expression : Expression .string,
      Expression.compile .string (opening ++ ", ".intercalate (rows.map source) ++ closing) =
        .ok expression ∧
      ∀ draws, (expression.evaluate.run context draws).result =
        .ok (opening ++ ", ".intercalate (rows.map text) ++ closing) := by
  obtain ⟨layout, hbodies, hfill⟩ :=
    exists_layout opening closing hopening hclosing rows fun row hrow => (hrows row hrow).label_plain
  have hsource := hfill fun body => "$\x7b" ++ body.text ++ "\x7d"
  rw [Layout.fill_marked] at hsource
  have htexts : rows.map (fun row => row.label ++ row.body.textIn context) = rows.map text :=
    List.map_congr_left fun row hrow => congrArg (row.label ++ ·) (hrows row hrow).textIn_eq
  have hfilled := hfill (Body.textIn context)
  rw [htexts] at hfilled
  have hvalues : ∀ body ∈ layout.bodies,
      body.part.NoRandom ∧ ∃ value, body.result context [] = .ok value := by
    rw [hbodies]
    exact List.forall_mem_map.mpr fun row hrow =>
      ⟨(hrows row hrow).noRandom, _, (hrows row hrow).result_eq⟩
  obtain ⟨expression, hcompile, hrun⟩ := layout.exists_expression_fill context hvalues
  exact ⟨expression, hsource ▸ hcompile, fun draws =>
    (hrun draws).trans (congrArg Except.ok hfilled)⟩

end Row

/-! ## Elements and values -/

namespace Body

/-- The template that selects so many elements by their positions. -/
def listTemplate (body : Body) (n : Nat) : String :=
  "[" ++ ", ".intercalate ((List.range n).map fun i =>
    "$\x7b" ++ body.text ++ "(" ++ i.repr ++ ")\x7d") ++ "]"

/-- The template that selects values by their keys. -/
def mapTemplate (body : Body) (keys : List String) : String :=
  "\x7b" ++ ", ".intercalate (keys.map fun key =>
    key ++ "=" ++ "$\x7b" ++ body.text ++ "." ++ key ++ "\x7d") ++ "\x7d"

variable {body : Body} {context : Context}

theorem result_index {items : List Value} (hvalue : body.result context [] = .ok (.list items))
    (hlength : items.length ≤ 2 ^ 63) {i : Nat} (hi : i < items.length) :
    (body.select (.index (.ofInt i))).result context [] = .ok items[i] := by
  have hposition : (Int64.ofNat i).toInt = i := Int64.toInt_ofNat_of_lt (by omega)
  have haccessor : (Selector.index (.ofInt i)).accessor = .index (.literal (Int64.ofNat i)) := by
    rw [Selector.accessor, Token.ofInt, ← hposition, IndexSpec.ofToken_repr]
  rw [result_select _ (by simp [haccessor]), haccessor, hvalue]
  simp [Accessor.lookUp, IndexSpec.lookUp, Except.map, Except.bind, Resolved.find, Resolved.apply,
    hposition, hi]

theorem result_key {entries : List (String × Value)}
    (hvalue : body.result context [] = .ok (.map entries)) {token : Token}
    (hsize : token.text ≠ "size") (hrandom : token.text ≠ "random") {value : Value}
    (hlookup : entries.lookup token.text = some value) :
    (body.select (.dot token)).result context [] = .ok value := by
  have haccessor := Selector.accessor_dot hsize hrandom
  rw [result_select _ (by simp [haccessor]), haccessor, hvalue]
  simp [Accessor.lookUp, Except.map, Except.bind, Resolved.find, Resolved.apply, hlookup]

theorem exists_listTemplate_expression (hrandom : body.part.NoRandom) {items : List Value}
    (hvalue : body.result context [] = .ok (.list items)) (hlength : items.length ≤ 2 ^ 63) :
    ∃ expression : Expression .string,
      Expression.compile .string (body.listTemplate items.length) = .ok expression ∧
      ∀ draws, (expression.evaluate.run context draws).result = .ok (Value.list items).text := by
  let rows : List Row := items.mapIdx fun i item => ⟨"", body.select (.index (.ofInt i)), item⟩
  have hrows : ∀ row ∈ rows, row.Holds context := by
    intro row hrow
    obtain ⟨i, hi, rfl⟩ := List.mem_mapIdx.mp hrow
    exact ⟨by simp, ⟨hrandom, by simp [Selector.accessor]⟩, result_index hvalue hlength hi⟩
  have hsources : rows.map Row.source = (List.range items.length).map fun i =>
      "$\x7b" ++ body.text ++ "(" ++ i.repr ++ ")\x7d" := by
    refine List.ext_getElem (by simp [rows]) fun i _ _ => ?_
    simp [rows, Row.source, text, Selector.text, Token.ofInt, String.append_assoc]
    rfl
  have htexts : rows.map Row.text = Value.texts items := by
    rw [Value.texts_eq_map]
    refine List.ext_getElem (by simp [rows]) fun i _ _ => ?_
    simp [rows, Row.text]
  obtain ⟨expression, hcompile, hrun⟩ :=
    Row.exists_expression "[" "]" (by simp) (by simp) rows hrows
  rw [hsources] at hcompile
  rw [htexts] at hrun
  exact ⟨expression, hcompile, hrun⟩

theorem exists_mapTemplate_expression (hrandom : body.part.NoRandom)
    {entries : List (String × Value)} (hvalue : body.result context [] = .ok (.map entries))
    (hsorted : Entries.Sorted entries)
    (hkeys : ∀ entry ∈ entries, IsToken entry.1 ∧ entry.1 ≠ "size" ∧ entry.1 ≠ "random") :
    ∃ expression : Expression .string,
      Expression.compile .string (body.mapTemplate (entries.map Prod.fst)) = .ok expression ∧
      ∀ draws, (expression.evaluate.run context draws).result = .ok (Value.map entries).text := by
  let toEntry : Token × Value → String × Value := fun (token, value) => (token.text, value)
  obtain ⟨pairs, rfl⟩ : entries ∈ Set.range (List.map toEntry) := by
    rw [Set.range_list_map]
    exact fun entry hentry =>
      ⟨(⟨entry.1, (hkeys entry hentry).1.1, (hkeys entry hentry).1.2⟩, entry.2), rfl⟩
  let rows : List Row :=
    pairs.map fun (token, value) => ⟨token.text ++ "=", body.select (.dot token), value⟩
  have hrows : ∀ row ∈ rows, row.Holds context := by
    intro row hrow
    obtain ⟨pair, hpair, rfl⟩ := List.mem_map.mp hrow
    have hentry : toEntry pair ∈ pairs.map toEntry := List.mem_map_of_mem hpair
    obtain ⟨-, hsize, hdraw⟩ := hkeys _ hentry
    have haccessor : (Selector.dot pair.1).accessor = .key pair.1.text :=
      Selector.accessor_dot hsize hdraw
    have hdollar : '$' ∉ pair.1.text.toList := fun h => by
      have hplain := pair.1.plain _ h
      simp [isReserved] at hplain
    exact ⟨by simp [hdollar], ⟨hrandom, by simp [haccessor]⟩,
      result_key hvalue hsize hdraw (Entries.lookup_of_mem hsorted hentry)⟩
  have hsources : rows.map Row.source = ((pairs.map toEntry).map Prod.fst).map fun key =>
      key ++ "=" ++ "$\x7b" ++ body.text ++ "." ++ key ++ "\x7d" := by
    rw [List.map_map, List.map_map, List.map_map]
    refine List.map_congr_left fun pair _ => ?_
    simp only [Function.comp_apply, Row.source, text, Selector.text, String.append_assoc, toEntry]
  have htexts : rows.map Row.text = Value.entryTexts (pairs.map toEntry) := by
    rw [Value.entryTexts_eq_map, List.map_map, List.map_map]
    rfl
  obtain ⟨expression, hcompile, hrun⟩ :=
    Row.exists_expression "\x7b" "\x7d" (by simp) (by simp) rows hrows
  rw [hsources] at hcompile
  rw [htexts] at hrun
  exact ⟨expression, hcompile, hrun⟩

end Body

/-- Take an expression without random elements. Where it has a list for a value, the template with
an expression for each position between brackets renders to the text of the list, as the expression
itself does. Where it has a map, whose keys are tokens and no keywords, the template with an
expression for each key between braces renders to the text of the map, as the expression itself
does. -/
theorem container_text_eq_expansion {body : Body} (hrandom : body.part.NoRandom) :
    ∃ (whole : Expression .value) (single : Expression .string),
      Expression.compile .value ("$\x7b" ++ body.text ++ "\x7d") = .ok whole ∧
      Expression.compile .string ("$\x7b" ++ body.text ++ "\x7d") = .ok single ∧
      ∀ context draws,
        (∀ items : List Value, items.length ≤ 2 ^ 63 →
          (whole.evaluate.run context draws).result = .ok (.list items) →
          ∃ expansion : Expression .string,
            Expression.compile .string (body.listTemplate items.length) = .ok expansion ∧
            ∀ draws' draws'', (expansion.evaluate.run context draws').result =
                (single.evaluate.run context draws'').result ∧
              (single.evaluate.run context draws'').result = .ok (Value.list items).text) ∧
        ∀ entries : List (String × Value), Entries.Sorted entries →
          (∀ entry ∈ entries, IsToken entry.1 ∧ entry.1 ≠ "size" ∧ entry.1 ≠ "random") →
          (whole.evaluate.run context draws).result = .ok (.map entries) →
          ∃ expansion : Expression .string,
            Expression.compile .string (body.mapTemplate (entries.map Prod.fst)) = .ok expansion ∧
            ∀ draws' draws'', (expansion.evaluate.run context draws').result =
                (single.evaluate.run context draws'').result ∧
              (single.evaluate.run context draws'').result = .ok (Value.map entries).text := by
  refine ⟨_, _, Expression.compile_body .value body, Expression.compile_body .string body, ?_⟩
  intro context draws
  simp only [Expression.evaluate, Body.result_evaluate_single,
    Body.result_evaluate_single_string]
  have hvalue (value : Value) (h : body.result context draws = .ok value) (draws' : List Nat) :
      body.result context draws' = .ok value :=
    (Body.result_congr hrandom context draws' draws).trans h
  have htext (value : Value) (h : body.result context draws = .ok value) (draws' : List Nat) :
      (body.result context draws').map Value.text = .ok value.text := by
    rw [hvalue value h]
    rfl
  constructor
  · intro items hlength hlist
    obtain ⟨expansion, hcompile, hrun⟩ :=
      Body.exists_listTemplate_expression hrandom (hvalue _ hlist []) hlength
    exact ⟨expansion, hcompile, fun draws' draws'' =>
      ⟨(hrun draws').trans (htext _ hlist draws'').symm, htext _ hlist draws''⟩⟩
  · intro entries hsorted hkeys hmap
    obtain ⟨expansion, hcompile, hrun⟩ :=
      Body.exists_mapTemplate_expression hrandom (hvalue _ hmap []) hsorted hkeys
    exact ⟨expansion, hcompile, fun draws' draws'' =>
      ⟨(hrun draws').trans (htext _ hmap draws'').symm, htext _ hmap draws''⟩⟩

theorem container_text_eq_expansion_nested :
    let body : Body := .root ⟨"c", by simp, by simp [isReserved]⟩
    let listContext : Context := fun _ => some (.list [.string "\x7b", .list [.null]])
    let mapContext : Context := fun _ => some (.map [("k", .list []), ("é", .bool true)])
    body.part.NoRandom ∧
      (∀ entry ∈ ([("k", .list []), ("é", .bool true)] : List (String × Value)),
        IsToken entry.1 ∧ entry.1 ≠ "size" ∧ entry.1 ≠ "random") ∧
      (∃ expansion : Expression .string,
        Expression.compile .string "[$\x7bc(0)\x7d, $\x7bc(1)\x7d]" = .ok expansion ∧
        (expansion.evaluate.run listContext []).result = .ok "[\x7b, [null]]") ∧
      ∃ expansion : Expression .string,
        Expression.compile .string "\x7bk=$\x7bc.k\x7d, é=$\x7bc.é\x7d\x7d" = .ok expansion ∧
        (expansion.evaluate.run mapContext []).result = .ok "\x7bk=[], é=true\x7d" := by
  intro body listContext mapContext
  have hrandom : body.part.NoRandom := trivial
  have hkeys : ∀ entry ∈ ([("k", .list []), ("é", .bool true)] : List (String × Value)),
      IsToken entry.1 ∧ entry.1 ≠ "size" ∧ entry.1 ≠ "random" := by
    simp [IsToken, isReserved]
  have hsorted : Entries.Sorted ([("k", .list []), ("é", .bool true)] : List (String × Value)) := by
    simp only [Entries.Sorted, List.pairwise_pair]
    decide +kernel
  obtain ⟨whole, single, hwhole, -, hexpansions⟩ := container_text_eq_expansion hrandom
  have hwhole' := (Expression.compile_body .value body).symm.trans hwhole
  have hlist : (whole.evaluate.run listContext []).result =
      .ok (.list [.string "\x7b", .list [.null]]) := by
    rw [← Except.ok.inj hwhole']
    cbv
  have hmap : (whole.evaluate.run mapContext []).result =
      .ok (.map [("k", .list []), ("é", .bool true)]) := by
    rw [← Except.ok.inj hwhole']
    cbv
  obtain ⟨first, hfirst, hfirstRun⟩ := (hexpansions listContext []).1 _ (by simp) hlist
  obtain ⟨second, hsecond, hsecondRun⟩ := (hexpansions mapContext []).2 _ hsorted hkeys hmap
  refine ⟨hrandom, hkeys, ⟨first, hfirst, ?_⟩, second, hsecond, ?_⟩
  · rw [(hfirstRun [] []).1, (hfirstRun [] []).2]
    cbv
  · rw [(hsecondRun [] []).1, (hsecondRun [] []).2]
    cbv

end Splice
