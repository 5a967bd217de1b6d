import Mathlib
import Splice.Template

/-!
# Layouts

The notation of templates as data. A layout is literal text with expression bodies in it, a body
is a token with selectors after it. Each has the text it is written as and the part it stands for,
so that the parser can be compared with everything that can be written.
-/

namespace Splice

/-- A non-empty run of characters that have no role in the notation. -/
structure Token where
  text : String
  ne_empty : text ≠ ""
  plain : ∀ c ∈ text.toList, isReserved c = false

instance : Inhabited Token := ⟨⟨"a", by simp, by simp [isReserved]⟩⟩

/-- A selector as written: `(token)` or `.token`. -/
inductive Selector where
  | index (token : Token)
  | dot (token : Token)

/-- An expression body, read from the left: a token, or a body with one selector more. -/
inductive Body where
  | root (token : Token)
  | select (front : Body) (selector : Selector)

/-- Literal text, in which no expression opens. -/
structure Literal where
  text : String
  closed : ¬ ['$', '{'] <:+: text.toList

instance : Inhabited Literal := ⟨⟨"", by simp⟩⟩

/-- Literal text with expressions in it. Between two expressions there is always a literal, which
may be empty. -/
inductive Layout where
  | literal (last : Literal)
  | expression (before : Literal) (body : Body) (after : Layout)

theorem Token.ext {s t : Token} (h : s.text = t.text) : s = t := by
  cases s
  cases t
  cases h
  rfl

theorem Literal.ext {l m : Literal} (h : l.text = m.text) : l = m := by
  cases l
  cases m
  cases h
  rfl

theorem Token.toList_ne_nil (token : Token) : token.text.toList ≠ [] := by
  intro h
  apply token.ne_empty
  exact String.toList_eq_nil_iff.mp h

namespace Selector

def text : Selector → String
  | index token => "(" ++ token.text ++ ")"
  | dot token => "." ++ token.text

/-- A token in parentheses is an index. After a dot the whole tokens `size` and `random` are
keywords and every other is a key. -/
def accessor : Selector → Accessor
  | index token => .index (IndexSpec.ofToken token.text)
  | dot token =>
    if token.text = "size" then .size
    else if token.text = "random" then .random
    else .key token.text

theorem accessor_dot {token : Token} (hsize : token.text ≠ "size")
    (hrandom : token.text ≠ "random") : (dot token).accessor = .key token.text := by
  rw [accessor, if_neg hsize, if_neg hrandom]

theorem text_injective {s t : Selector} (h : s.text = t.text) : s = t := by
  have hl := congrArg String.toList h
  cases s <;> cases t <;> simp [text] at hl
  · rw [Token.ext (String.toList_inj.mp hl)]
  · rw [Token.ext (String.toList_inj.mp hl)]

end Selector

namespace Body

def text : Body → String
  | root token => token.text
  | select front selector => front.text ++ selector.text

/-- The chain a body stands for. An accessor is stored with the text in front of its selector. -/
def part : Body → Part
  | root token => .attribute token.text
  | select front selector => .access front.part front.text selector.accessor

theorem close_not_mem_text (body : Body) : '}' ∉ body.text.toList := by
  have htoken (token : Token) : '}' ∉ token.text.toList := by
    intro h
    have hplain := token.plain _ h
    simp [isReserved] at hplain
  induction body with
  | root token => exact htoken token
  | select front selector ih =>
    cases selector <;> simp [text, Selector.text, ih, htoken]

theorem part_ne_text (body : Body) (content : String) : body.part ≠ .text content := by
  cases body <;> simp [part]

end Body

namespace Layout

def text : Layout → String
  | literal last => last.text
  | expression before body after =>
    before.text ++ "$\x7b" ++ body.text ++ "\x7d" ++ after.text

/-- Literals and expressions in turn, empty literals included. -/
def pieces : Layout → List Part
  | literal last => [.text last.text]
  | expression before body after => .text before.text :: body.part :: after.pieces

/-- The pieces without empty literals. -/
def segments (layout : Layout) : List Part :=
  layout.pieces.filter (· ≠ .text "")

/-- The parts a layout stands for. A lone literal stays, even when it is empty. -/
def parts : Layout → List Part
  | literal last => [.text last.text]
  | layout => layout.segments

def bodies : Layout → List Body
  | literal _ => []
  | expression _ body after => body :: after.bodies

@[simp] theorem segments_literal (last : Literal) :
    (literal last).segments = Splice.literal last.text.toList := by
  by_cases h : last.text = "" <;> simp [segments, pieces, Splice.literal, h]

@[simp] theorem segments_expression (before : Literal) (body : Body) (after : Layout) :
    (expression before body after).segments =
      Splice.literal before.text.toList ++ body.part :: after.segments := by
  have hbody : body.part ≠ .text "" := body.part_ne_text ""
  by_cases h : before.text = "" <;> simp [segments, pieces, Splice.literal, h, hbody]

@[simp] theorem toList_text_literal (last : Literal) :
    (literal last).text.toList = last.text.toList := rfl

@[simp] theorem toList_text_expression (before : Literal) (body : Body) (after : Layout) :
    (expression before body after).text.toList =
      before.text.toList ++ '$' :: '{' :: (body.text.toList ++ '}' :: after.text.toList) := by
  simp [text]

end Layout

/-- The template of an expression alone. -/
def Body.layout (body : Body) : Layout := .expression default body (.literal default)

namespace Body

theorem text_layout (body : Body) : body.layout.text = "$\x7b" ++ body.text ++ "\x7d" := by
  simp [layout, default, Layout.text]

theorem parts_layout (body : Body) : body.layout.parts = [body.part] := by
  simp [layout, default, Layout.parts, literal]

end Body
end Splice
