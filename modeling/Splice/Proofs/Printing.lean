import Splice.Proofs.Concatenation

/-!
# Printing parts

Which lists of parts are those of a template. A chain has tokens for its names, no keyword as a key
and no number as the name of an index, and each accessor is stored with the path that its child
spells. A list has such chains with literal text between them. Main statement: the text that such a
list spells is read as the very same list, paths included.
-/

namespace Splice

/-! ## Chains and lists of parts that can be written -/

def IsToken (text : String) : Prop :=
  text ≠ "" ∧ ∀ c ∈ text.toList, isReserved c = false

/-- Any literal, and any attribute whose name is not read as a literal. -/
def IndexSpec.Writable : IndexSpec → Prop
  | .literal _ => True
  | .attribute name => IsToken name ∧ IntType.int64.read name = none

/-- A keyword after a dot is not a key. -/
def Accessor.Writable : Accessor → Prop
  | .index spec => spec.Writable
  | .key name => IsToken name ∧ name ≠ "size" ∧ name ≠ "random"
  | .size | .random => True

/-- A chain over an attribute, stored with the paths that it spells. -/
def Part.Writable : Part → Prop
  | .text _ => False
  | .attribute name => IsToken name
  | .access child path accessor =>
    child.Writable ∧ child.displayName = some path ∧ accessor.Writable

/-- Chains with literal text between them. No literal is empty or has an expression open in it, and
no literal follows another. -/
structure Part.Segmented (parts : List Part) : Prop where
  ne_empty : .text "" ∉ parts
  closed : ∀ content, .text content ∈ parts → ¬ ['$', '{'] <:+: content.toList
  apart : parts.IsChain fun part next => ¬ (part.isStatic ∧ next.isStatic)
  chains : ∀ part ∈ parts, part.isStatic = false → part.Writable

/-- There is some part, and only as the single one it can be an empty literal. -/
def Part.WellFormed (parts : List Part) : Prop :=
  parts = [.text ""] ∨ parts ≠ [] ∧ Segmented parts

/-- The text that parts spell, one after the other. -/
def Part.displayAll (parts : List Part) : String := String.join (parts.map Part.display)

/-! ## Numerals as tokens -/

theorem isReserved_of_isDigit {c : Char} (h : c.isDigit) : isReserved c = false := by
  by_contra hc
  simp only [isReserved, Bool.not_eq_false, List.contains_eq_mem, List.mem_cons,
    List.not_mem_nil, or_false, decide_eq_true_eq] at hc
  rcases hc with rfl | rfl | rfl | rfl | rfl | rfl <;> simp [Char.isDigit] at h

theorem isToken_natRepr (n : Nat) : IsToken n.repr := by
  constructor
  · intro h
    exact Nat.toDigits_ne_nil (by rw [← Nat.toList_repr, h]; rfl)
  · intro c hc
    rw [Nat.toList_repr] at hc
    exact isReserved_of_isDigit (Nat.isDigit_of_mem_toDigits (by decide) (by decide) hc)

theorem isToken_intRepr (n : Int) : IsToken n.repr := by
  rw [Int.repr_eq_if]
  split
  · exact isToken_natRepr _
  · constructor
    · simp
    · intro c hc
      rw [String.toList_append, List.mem_append] at hc
      rcases hc with hminus | hdigit
      · obtain rfl : c = '-' := by simpa using hminus
        decide
      · exact (isToken_natRepr _).2 c hdigit

/-- The numeral of an integer, a minus sign in front if it is negative. -/
def Token.ofInt (n : Int) : Token := ⟨n.repr, (isToken_intRepr n).1, (isToken_intRepr n).2⟩

/-! ## Layouts of writable parts -/

theorem Accessor.exists_selector {accessor : Accessor} (h : accessor.Writable) :
    ∃ selector : Selector, selector.accessor = accessor ∧ selector.text = accessor.text := by
  match accessor with
  | .index (.literal n) =>
    refine ⟨.index (.ofInt n.toInt), ?_, rfl⟩
    rw [Selector.accessor, Token.ofInt, IndexSpec.ofToken_repr]
  | .index (.attribute name) =>
    obtain ⟨⟨hempty, hplain⟩, hread⟩ := h
    refine ⟨.index ⟨name, hempty, hplain⟩, ?_, rfl⟩
    rw [Selector.accessor, IndexSpec.ofToken_of_read_eq_none hread]
  | .key name =>
    obtain ⟨⟨hempty, hplain⟩, hsize, hrandom⟩ := h
    exact ⟨.dot ⟨name, hempty, hplain⟩, Selector.accessor_dot hsize hrandom, rfl⟩
  | .size => exact ⟨.dot ⟨"size", by simp, by simp [isReserved]⟩, rfl, rfl⟩
  | .random => exact ⟨.dot ⟨"random", by simp, by simp [isReserved]⟩, rfl, rfl⟩

namespace Part

theorem Writable.isStatic_eq_false {part : Part} (h : part.Writable) : part.isStatic = false := by
  cases part with
  | text content => exact h.elim
  | _ => rfl

theorem display_of_isStatic_eq_false {part : Part} (h : part.isStatic = false) :
    part.display = "$\x7b" ++ part.fullPath ++ "\x7d" := by
  cases part with
  | text content => cases h
  | _ => rfl

/-- A writable chain is the part of a body that is written as the chain spells itself. -/
theorem exists_body : ∀ part : Part, part.Writable →
    ∃ body : Body, body.part = part ∧ body.text = part.fullPath
  | .text _, h => h.elim
  | .attribute name, h => ⟨.root ⟨name, h.1, h.2⟩, rfl, rfl⟩
  | .access child path accessor, ⟨hchild, hpath, haccessor⟩ => by
    obtain ⟨front, hpart, hfront⟩ := exists_body child hchild
    obtain ⟨selector, hselector, htext⟩ := Accessor.exists_selector haccessor
    have hpath' : front.text = path := by
      rw [displayName, hchild.isStatic_eq_false] at hpath
      exact hfront.trans (Option.some.inj hpath)
    refine ⟨front.select selector, ?_, ?_⟩
    · rw [Body.part, hpart, hpath', hselector]
    · rw [Body.text, hfront, htext, fullPath]

@[simp] theorem displayAll_nil : displayAll [] = "" := rfl

@[simp] theorem displayAll_cons (part : Part) (parts : List Part) :
    displayAll (part :: parts) = part.display ++ displayAll parts := by
  simp [displayAll, String.join_cons]

@[simp] theorem displayAll_append (parts more : List Part) :
    displayAll (parts ++ more) = displayAll parts ++ displayAll more := by
  simp [displayAll, String.join_append]

/-- In front of parts that start with an expression no marker is left open: the next character is
the dollar sign of theirs. -/
theorem not_opensAcross_displayAll (content : String) {parts : List Part}
    (h : ∀ next ∈ parts.head?, next.isStatic = false) :
    ¬ OpensAcross content (displayAll parts) := by
  rintro ⟨-, hhead⟩
  cases parts with
  | nil => simp at hhead
  | cons next parts =>
    rw [displayAll_cons, display_of_isStatic_eq_false (h next rfl)] at hhead
    simp at hhead

end Part

namespace Layout

theorem exists_cons_chain (layout : Layout) {part : Part} (h : part.Writable) :
    ∃ whole : Layout, whole.segments = part :: layout.segments ∧
      whole.text = part.display ++ layout.text := by
  obtain ⟨body, rfl, hbody⟩ := Part.exists_body part h
  refine ⟨.expression default body layout, by simp [Splice.literal, default], ?_⟩
  rw [Part.display_of_isStatic_eq_false h.isStatic_eq_false, text, hbody]
  simp [default]

theorem exists_cons_text (layout : Layout) {content : String} (hempty : content ≠ "")
    (hclosed : ¬ ['$', '{'] <:+: content.toList)
    (hnext : ∀ next ∈ layout.segments.head?, next.isStatic = false)
    (htext : layout.text = Part.displayAll layout.segments) :
    ∃ whole : Layout, whole.segments = .text content :: layout.segments ∧
      whole.text = content ++ layout.text := by
  have hseam := Part.not_opensAcross_displayAll content hnext
  rw [← htext] at hseam
  obtain ⟨whole, hwhole, hsegments⟩ := layout.exists_prepend ⟨content, hclosed⟩ hseam
  have hliteral := Part.fuse_literal content.toList [] layout.segments hnext
  refine ⟨whole, ?_, hwhole⟩
  rw [hsegments]
  simpa [Splice.literal, hempty] using hliteral

end Layout

namespace Part.Segmented

theorem tail {part : Part} {parts : List Part} (h : Segmented (part :: parts)) :
    Segmented parts where
  ne_empty := fun hmem => h.ne_empty (List.mem_cons_of_mem _ hmem)
  closed := fun content hmem => h.closed content (List.mem_cons_of_mem _ hmem)
  apart := h.apart.tail
  chains := fun next hmem => h.chains next (List.mem_cons_of_mem _ hmem)

theorem isStatic_head?_tail {content : String} {parts : List Part}
    (h : Segmented (.text content :: parts)) : ∀ next ∈ parts.head?, next.isStatic = false := by
  intro next hnext
  cases parts with
  | nil => simp at hnext
  | cons first parts =>
    obtain rfl : first = next := by simpa using hnext
    simpa [Part.isStatic] using (List.isChain_cons_cons.mp h.apart).1

theorem exists_layout {parts : List Part} (h : Segmented parts) :
    ∃ layout : Layout, layout.segments = parts ∧ layout.text = Part.displayAll parts := by
  induction parts with
  | nil => exact ⟨.literal default, rfl, rfl⟩
  | cons part parts ih =>
    obtain ⟨layout, rfl, htext⟩ := ih h.tail
    rw [Part.displayAll_cons, ← htext]
    cases hstatic : part.isStatic with
    | false => exact layout.exists_cons_chain (h.chains part List.mem_cons_self hstatic)
    | true =>
      obtain ⟨content, rfl⟩ : ∃ content, part = .text content := by
        cases part <;> simp_all [Part.isStatic]
      have hempty : content ≠ "" := by
        rintro rfl
        exact h.ne_empty List.mem_cons_self
      exact layout.exists_cons_text hempty (h.closed content List.mem_cons_self)
        h.isStatic_head?_tail htext

end Part.Segmented

theorem Part.WellFormed.exists_layout {parts : List Part} (h : WellFormed parts) :
    ∃ layout : Layout, layout.parts = parts ∧ layout.text = Part.displayAll parts := by
  rcases h with rfl | ⟨hne, hparts⟩
  · exact ⟨.literal default, rfl, rfl⟩
  · obtain ⟨layout, hsegments, htext⟩ := hparts.exists_layout
    refine ⟨layout, ?_, htext⟩
    rw [layout.parts_eq_orEmpty, hsegments]
    cases parts with
    | nil => exact absurd rfl hne
    | cons part parts => rfl

/-- Well-formed parts are read back from the text they spell. -/
theorem parse_displayAll_of_wellFormed (parser : Parser) {parts : List Part}
    (h : Part.WellFormed parts) : (parser.parse (Part.displayAll parts)).1 = .ok parts := by
  obtain ⟨layout, hparts, htext⟩ := h.exists_layout
  rw [← htext, parser.parse_text, hparts]

theorem parse_displayAll_of_wellFormed_least :
    let least : Part := .access (.attribute "a") "a" (.index (.literal Int64.minValue))
    let part : Part := .access (.access least "a(-9223372036854775808)" (.key "sizes"))
      "a(-9223372036854775808).sizes" (.index (.attribute "i"))
    Part.WellFormed [.text "é$", part, .text "\x7b"] ∧
      Part.displayAll [.text "é$", part, .text "\x7b"] =
        "é$$\x7ba(-9223372036854775808).sizes(i)\x7d\x7b" ∧
      (({} : Parser).parse (Part.displayAll [.text "é$", part, .text "\x7b"])).1 =
        .ok [.text "é$", part, .text "\x7b"] := by
  intro least part
  have hread : IntType.int64.read "i" = none := by cbv
  have hpath : least.displayName = some "a(-9223372036854775808)" := by cbv
  have hpath' : (Part.access least "a(-9223372036854775808)" (.key "sizes")).displayName =
      some "a(-9223372036854775808).sizes" := by cbv
  have hpart : part.Writable := by
    have ha : IsToken "a" := by simp [IsToken, isReserved]
    have hi : IsToken "i" := by simp [IsToken, isReserved]
    have hsizes : IsToken "sizes" := by simp [IsToken, isReserved]
    exact ⟨⟨⟨ha, rfl, trivial⟩, hpath, hsizes, by decide, by decide⟩, hpath', hi, hread⟩
  have hparts : Part.WellFormed [.text "é$", part, .text "\x7b"] := by
    refine Or.inr ⟨by simp, by simp [part], ?_, by simp [part, Part.isStatic], ?_⟩
    · intro content hcontent
      have hcases : content = "é$" ∨ content = "\x7b" := by simpa [part] using hcontent
      rcases hcases with rfl | rfl <;> decide
    · simpa [part, Part.isStatic] using hpart
  exact ⟨hparts, by cbv, parse_displayAll_of_wellFormed {} hparts⟩

end Splice
