import Splice.Proofs.Numerals
import Splice.Proofs.Printing
import Splice.Proofs.Renaming

/-!
# Canonical templates

Printing what was read gives the template back, but for the spelling of integers as indices, which
becomes canonical. The chains read from the printed text differ from the first ones in the paths
alone, and only behind an index that was spelled otherwise; a second printing changes nothing. Main
statement: all this for every template that can be read, and what its parts evaluate to stays the
same but for the paths in failures.
-/

namespace Splice

/-! ## Canonical spelling -/

namespace Token

/-- An integer in its decimal form, any other token as it is. -/
def canonical (token : Token) : Token :=
  match IntType.int64.read token.text with
  | some n => ofInt n
  | none => token

/-- If the token is read as an integer, it is the decimal form of that integer. -/
def IsCanonical (token : Token) : Prop :=
  ∀ n, IntType.int64.read token.text = some n → token.text = n.repr

theorem canonical_eq_self_iff {token : Token} : token.canonical = token ↔ token.IsCanonical := by
  unfold canonical IsCanonical
  cases hread : IntType.int64.read token.text with
  | none => simp
  | some n =>
    constructor
    · intro h m hm
      obtain rfl := Option.some.inj hm
      exact (congrArg Token.text h).symm
    · intro h
      exact Token.ext (h n rfl).symm

end Token

theorem Token.text_canonical (token : Token) :
    token.canonical.text = (IndexSpec.ofToken token.text).text := by
  unfold canonical
  cases hread : IntType.int64.read token.text with
  | none => rw [IndexSpec.ofToken_of_read_eq_none hread, IndexSpec.text]
  | some n =>
    simp only [IndexSpec.ofToken, hread, IndexSpec.text, ofInt, IntType.toInt_ofInt_of_read hread]

namespace Selector

def canonical : Selector → Selector
  | index token => index token.canonical
  | dot token => dot token

@[simp] theorem accessor_canonical (selector : Selector) :
    selector.canonical.accessor = selector.accessor := by
  cases selector with
  | index token => simp only [canonical, accessor, Token.text_canonical, IndexSpec.ofToken_text]
  | dot token => rfl

theorem text_canonical (selector : Selector) :
    selector.canonical.text = selector.accessor.text := by
  cases selector with
  | index token => simp only [canonical, text, accessor, Token.text_canonical, Accessor.text]
  | dot token =>
    simp only [canonical, text, accessor]
    split
    · rename_i hsize
      rw [hsize]
      rfl
    · split
      · rename_i hrandom
        rw [hrandom]
        rfl
      · rfl

end Selector

namespace Body

def canonical : Body → Body
  | root token => root token
  | select front selector => select front.canonical selector.canonical

/-- The tokens that stand as an index. -/
def indices : Body → List Token
  | root _ => []
  | select front (.index token) => token :: front.indices
  | select front (.dot _) => front.indices

/-- The tokens that stand as an index with a further selector behind it. -/
def innerIndices : Body → List Token
  | root _ => []
  | select front _ => front.indices

theorem canonical_eq_self_iff {body : Body} :
    body.canonical = body ↔ ∀ token ∈ body.indices, token.IsCanonical := by
  induction body with
  | root token => simp [canonical, indices]
  | select front selector ih =>
    cases selector with
    | index token =>
      simp [canonical, indices, Selector.canonical, ih, Token.canonical_eq_self_iff, and_comm]
    | dot token => simp [canonical, indices, Selector.canonical, ih]

/-- A chain spells the canonical form of the body it was read from. -/
theorem fullPath_part (body : Body) : body.part.fullPath = body.canonical.text := by
  induction body with
  | root token => rfl
  | select front selector ih =>
    rw [part, Part.fullPath, canonical, text, ih, selector.text_canonical]

theorem part_canonical (body : Body) : body.canonical.part = body.part.renamed := by
  induction body with
  | root token => rfl
  | select front selector ih =>
    rw [canonical, part, part, Part.renamed, ih, front.fullPath_part, selector.accessor_canonical]

/-- The paths of a chain are those that it spells if no index in front of another selector changes
its spelling. -/
theorem renamed_part_eq_self_iff {body : Body} :
    body.part.renamed = body.part ↔ ∀ token ∈ body.innerIndices, token.IsCanonical := by
  cases body with
  | root token => simp [part, Part.renamed, innerIndices]
  | select front selector =>
    rw [innerIndices, ← canonical_eq_self_iff]
    simp only [part, Part.renamed, Part.access.injEq, fullPath_part, and_true]
    constructor
    · rintro ⟨-, htext⟩
      exact text_injective htext
    · intro h
      rw [← part_canonical, h]
      exact ⟨rfl, rfl⟩

end Body

/-! ## Canonical layouts -/

namespace Part

theorem map_renamed_literal (cs : List Char) : (literal cs).map renamed = literal cs := by
  by_cases h : cs = [] <;> simp [literal, h, renamed]

theorem map_renamed_orEmpty (parts : List Part) :
    (orEmpty parts).map renamed = orEmpty (parts.map renamed) := by
  cases parts <;> rfl

theorem displayAll_literal (cs : List Char) : displayAll (literal cs) = String.ofList cs := by
  by_cases h : cs = [] <;> simp [literal, h, display]

theorem displayAll_map_renamed (parts : List Part) :
    displayAll (parts.map renamed) = displayAll parts := by
  simp [displayAll, Function.comp_def]

end Part

namespace Layout

/-- The layout with every index that is an integer in its decimal form. -/
def canonical : Layout → Layout
  | literal last => literal last
  | expression before body after => expression before body.canonical after.canonical

theorem canonical_eq_self_iff {layout : Layout} :
    layout.canonical = layout ↔
      ∀ body ∈ layout.bodies, ∀ token ∈ body.indices, token.IsCanonical := by
  induction layout with
  | literal last => simp [canonical, bodies]
  | expression before body after ih => simp [canonical, bodies, ih, Body.canonical_eq_self_iff]

theorem segments_canonical (layout : Layout) :
    layout.canonical.segments = layout.segments.map Part.renamed := by
  induction layout with
  | literal last => rw [canonical, segments_literal, Part.map_renamed_literal]
  | expression before body after ih =>
    rw [canonical, segments_expression, segments_expression, List.map_append, List.map_cons,
      Part.map_renamed_literal, ih, body.part_canonical]

theorem parts_canonical (layout : Layout) :
    layout.canonical.parts = layout.parts.map Part.renamed := by
  rw [parts_eq_orEmpty, parts_eq_orEmpty, segments_canonical, Part.map_renamed_orEmpty]

theorem map_renamed_segments_eq_self_iff {layout : Layout} :
    layout.segments.map Part.renamed = layout.segments ↔
      ∀ body ∈ layout.bodies, ∀ token ∈ body.innerIndices, token.IsCanonical := by
  induction layout with
  | literal last => simp [Part.map_renamed_literal, bodies]
  | expression before body after ih =>
    rw [segments_expression, List.map_append, List.map_cons, Part.map_renamed_literal,
      List.append_cancel_left_eq, List.cons.injEq, ih, Body.renamed_part_eq_self_iff]
    simp [bodies]

theorem map_renamed_parts_eq_self_iff {layout : Layout} :
    layout.parts.map Part.renamed = layout.parts ↔
      ∀ body ∈ layout.bodies, ∀ token ∈ body.innerIndices, token.IsCanonical := by
  cases layout with
  | literal last => simp [parts, Part.renamed, bodies]
  | expression before body after => exact map_renamed_segments_eq_self_iff

theorem displayAll_segments (layout : Layout) :
    Part.displayAll layout.segments = layout.canonical.text := by
  induction layout with
  | literal last => simp [Part.displayAll_literal, canonical, text]
  | expression before body after ih =>
    rw [segments_expression, Part.displayAll_append, Part.displayAll_cons,
      Part.displayAll_literal, ih, Part.display_of_isStatic_eq_false body.isStatic_part,
      body.fullPath_part, canonical, text]
    simp [String.append_assoc]

theorem displayAll_parts (layout : Layout) :
    Part.displayAll layout.parts = layout.canonical.text := by
  cases layout with
  | literal last => simp [parts, Part.display, canonical, text]
  | expression before body after => exact displayAll_segments _

end Layout

/-- Printing what was read. The text is that of the canonical layout, and is the template itself
just if all its integers are canonical. It is read as the same parts under the paths that they
spell, which are the same parts just if all integers with a selector behind them are canonical. The
renamed parts print alike, and they evaluate alike but for the paths in failures. -/
theorem displayAll_reread (parser : Parser) {source : String} {parts : List Part}
    (h : (parser.parse source).1 = .ok parts) :
    (∃ layout : Layout, layout.text = source ∧
      Part.displayAll parts = layout.canonical.text ∧
      (Part.displayAll parts = source ↔
        ∀ body ∈ layout.bodies, ∀ token ∈ body.indices, token.IsCanonical) ∧
      (parts.map Part.renamed = parts ↔
        ∀ body ∈ layout.bodies, ∀ token ∈ body.innerIndices, token.IsCanonical)) ∧
    (parser.parse (Part.displayAll parts)).1 = .ok (parts.map Part.renamed) ∧
    Part.displayAll (parts.map Part.renamed) = Part.displayAll parts ∧
    ∀ part ∈ parts, ∀ context draws,
      (part.renamed.eval.run context draws).withoutPath =
        (part.eval.run context draws).withoutPath := by
  obtain ⟨layout, rfl, rfl⟩ := Parser.exists_of_parse_ok h
  refine ⟨⟨layout, rfl, layout.displayAll_parts, ?_, Layout.map_renamed_parts_eq_self_iff⟩, ?_,
    Part.displayAll_map_renamed _, ?_⟩
  · rw [layout.displayAll_parts, Layout.text_injective.eq_iff, Layout.canonical_eq_self_iff]
  · rw [layout.displayAll_parts, parser.parse_text, layout.parts_canonical]
  · intro part _ context draws
    exact part.withoutPath_run_renamed context draws

theorem displayAll_reread_padded :
    let part : Part :=
      .access (.access (.attribute "a") "a" (.index (.literal 7))) "a(007)" (.key "k")
    let again : Part :=
      .access (.access (.attribute "a") "a" (.index (.literal 7))) "a(7)" (.key "k")
    (({} : Parser).parse "é$\x7ba(007).k\x7d").1 = .ok [.text "é", part] ∧
      Part.displayAll [.text "é", part] = "é$\x7ba(7).k\x7d" ∧
      (({} : Parser).parse "é$\x7ba(7).k\x7d").1 = .ok [.text "é", again] ∧
      ∀ context draws,
        (again.eval.run context draws).withoutPath = (part.eval.run context draws).withoutPath := by
  intro part again
  have hparse : (({} : Parser).parse "é$\x7ba(007).k\x7d").1 = .ok [.text "é", part] := by cbv
  have hdisplay : Part.displayAll [.text "é", part] = "é$\x7ba(7).k\x7d" := by cbv
  have hrenamed : part.renamed = again := by cbv
  obtain ⟨-, hagain, -, heval⟩ := displayAll_reread {} hparse
  rw [hdisplay, List.map_cons, List.map_cons, List.map_nil, hrenamed, Part.renamed] at hagain
  refine ⟨hparse, hdisplay, hagain, ?_⟩
  intro context draws
  rw [← hrenamed]
  exact heval part (by simp) context draws

end Splice
