import Splice.Proofs.Malformed

/-!
# Templates one after the other

What the parser makes of two texts put together. Unless a marker opens half in one text and half in
the other, the layouts of both join into one, in which the literals at the seam are a single
literal. Main statement: the parts of the whole are those of both texts joined, a failure behind the
seam keeps its problem at an offset moved by the text in front, and a failure in front of it stays
whatever follows, except that of an expression which the text behind may close.
-/

namespace Splice

/-! ## Parts one after the other -/

/-- A list of parts as a template has it: where nothing is left there is one empty literal. -/
def Part.orEmpty : List Part → List Part
  | [] => [.text ""]
  | parts => parts

/-- Two lists of parts one after the other. A literal that ends the first and one that starts the
second become one. -/
def Part.fuse : List Part → List Part → List Part
  | [], back => back
  | [.text s], .text t :: back => .text (s ++ t) :: back
  | part :: front, back => part :: fuse front back

/-- The parts of two templates as those of one. Empty literals are left out first. -/
def Part.join (front back : List Part) : List Part :=
  orEmpty (fuse (front.filter (· ≠ .text "")) (back.filter (· ≠ .text "")))

namespace Part

@[simp] theorem fuse_cons_of_ne_nil {front : List Part} (h : front ≠ []) (part : Part)
    (back : List Part) : fuse (part :: front) back = part :: fuse front back := by
  cases front with
  | nil => exact absurd rfl h
  | cons next front => cases part <;> rfl

@[simp] theorem fuse_nil_left (back : List Part) : fuse [] back = back := by
  rw [fuse]

theorem fuse_singleton {part : Part} {back : List Part}
    (h : part.isStatic = false ∨ ∀ next ∈ back.head?, next.isStatic = false) :
    fuse [part] back = part :: back := by
  cases part with
  | text s =>
    cases back with
    | nil => rfl
    | cons next back => cases next <;> simp_all [fuse, isStatic]
  | _ => rfl

/-- An expression is a seam of its own: what follows it does not reach the parts in front. -/
theorem fuse_append_cons {part : Part} (h : part.isStatic = false) (before front back : List Part) :
    fuse (before ++ part :: front) back = before ++ part :: fuse front back := by
  induction before with
  | nil =>
    cases front with
    | nil => simp [fuse_singleton (Or.inl h)]
    | cons next front => simp
  | cons first before ih => simp [ih]

/-- Literal text in front of a list that starts with literal text, if with any. -/
theorem fuse_literal (cs ds : List Char) (rest : List Part)
    (h : ∀ next ∈ rest.head?, next.isStatic = false) :
    fuse (literal cs) (literal ds ++ rest) = literal (cs ++ ds) ++ rest := by
  by_cases hcs : cs = []
  · simp [literal, hcs]
  · by_cases hds : ds = []
    · simp [literal, hcs, hds, fuse_singleton (Or.inr h)]
    · simp [literal, hcs, hds, fuse]

end Part

theorem Body.isStatic_part (body : Body) : body.part.isStatic = false := by
  cases body <;> rfl

namespace Layout

theorem filter_parts (layout : Layout) :
    layout.parts.filter (· ≠ .text "") = layout.segments := by
  cases layout with
  | literal last => rfl
  | expression before body after => simp only [parts, segments, List.filter_filter, Bool.and_self]

theorem parts_eq_orEmpty (layout : Layout) : layout.parts = Part.orEmpty layout.segments := by
  cases layout with
  | literal last => by_cases h : last.text = "" <;> simp [parts, Splice.literal, h, Part.orEmpty]
  | expression before body after =>
    cases h : (expression before body after).segments with
    | nil => simp at h
    | cons part more => simp [parts, h, Part.orEmpty]

end Layout

/-! ## The seam -/

/-- A marker opens where the texts meet, half in the one and half in the other. -/
def OpensAcross (front back : String) : Prop :=
  front.toList.getLast? = some '$' ∧ back.toList.head? = some '{'

instance (front back : String) : Decidable (OpensAcross front back) :=
  inferInstanceAs (Decidable (_ ∧ _))

theorem OpensAcross.append_left {front back : String} (h : OpensAcross front back)
    (before : String) : OpensAcross (before ++ front) back := by
  refine ⟨?_, h.2⟩
  rw [String.toList_append, List.getLast?_append, h.1, Option.some_or]

theorem OpensAcross.append_right {front back : String} (h : OpensAcross front back)
    (after : String) : OpensAcross front (back ++ after) := by
  refine ⟨h.1, ?_⟩
  rw [String.toList_append, List.head?_append, h.2, Option.some_or]

theorem Literal.closed_append (front back : Literal) (h : ¬ OpensAcross front.text back.text) :
    ¬ ['$', '{'] <:+: (front.text ++ back.text).toList := by
  rw [String.toList_append, List.infix_append_iff]
  rintro (hfront | hback | ⟨l, m, hlm, hl, hm⟩)
  · exact front.closed hfront
  · exact back.closed hback
  -- The marker is cut into `l` and `m`, in front of its dollar sign, behind it, or at its end.
  · match l with
    | [] =>
      subst hlm
      exact back.closed hm.isInfix
    | [c] =>
      obtain ⟨rfl, rfl⟩ : c = '$' ∧ m = ['{'] := by simpa [eq_comm] using hlm
      obtain ⟨before, hbefore⟩ := hl
      obtain ⟨after, hafter⟩ := hm
      apply h
      constructor
      · simp [← hbefore]
      · simp [← hafter]
    | [c, d] =>
      obtain ⟨rfl, rfl, rfl⟩ : c = '$' ∧ d = '{' ∧ m = [] := by simpa [eq_comm] using hlm
      exact front.closed hl.isInfix
    | c :: d :: e :: l => simp at hlm

def Literal.append (front back : Literal) (h : ¬ OpensAcross front.text back.text) : Literal :=
  ⟨front.text ++ back.text, front.closed_append back h⟩

namespace Layout

theorem exists_prepend (first : Literal) (layout : Layout)
    (h : ¬ OpensAcross first.text layout.text) :
    ∃ whole : Layout, whole.text = first.text ++ layout.text ∧
      whole.segments = Part.fuse (Splice.literal first.text.toList) layout.segments := by
  cases layout with
  | literal last =>
    have hseam := Part.fuse_literal first.text.toList last.text.toList [] (by simp)
    refine ⟨literal (first.append last h), rfl, ?_⟩
    simpa [Literal.append] using hseam.symm
  | expression before body after =>
    have hbefore : ¬ OpensAcross first.text before.text := by
      intro hopens
      apply h
      simpa [text, String.append_assoc] using
        hopens.append_right ("$\x7b" ++ body.text ++ "\x7d" ++ after.text)
    have hseam := Part.fuse_literal first.text.toList before.text.toList
      (body.part :: after.segments) (by simp [body.isStatic_part])
    refine ⟨expression (first.append before hbefore) body after, ?_, ?_⟩
    · simp [text, Literal.append, String.append_assoc]
    · simpa [Literal.append] using hseam.symm

/-- Two layouts join into one, unless an expression opens between them. -/
theorem exists_append (front back : Layout) (h : ¬ OpensAcross front.text back.text) :
    ∃ whole : Layout, whole.text = front.text ++ back.text ∧
      whole.segments = Part.fuse front.segments back.segments := by
  induction front with
  | literal last =>
    rw [segments_literal]
    exact exists_prepend last back h
  | expression before body after ih =>
    have hafter : ¬ OpensAcross after.text back.text :=
      fun hopens => h (hopens.append_left _)
    obtain ⟨whole, htext, hsegments⟩ := ih hafter
    refine ⟨expression before body whole, ?_, ?_⟩
    · simp [text, htext, String.append_assoc]
    · rw [segments_expression, segments_expression, hsegments,
        Part.fuse_append_cons body.isStatic_part]

end Layout

/-! ## Failures around the seam -/

namespace Failure

/-- A template in front moves a failure. -/
theorem prepend (front : Layout) {problem : Problem} {read left : List Char}
    (h : Failure problem read left)
    (hseam : ¬ OpensAcross front.text (String.ofList (read ++ left))) :
    Failure problem (front.text.toList ++ read) left := by
  have hjoin (back : Layout) {more : List Char} (hback : read ++ left = back.text.toList ++ more) :
      ∃ whole : Layout, whole.text.toList = front.text.toList ++ back.text.toList := by
    have hopens : ¬ OpensAcross front.text back.text := by
      intro hopens
      apply hseam
      rw [hback]
      simpa using hopens.append_right (String.ofList more)
    obtain ⟨whole, htext, -⟩ := front.exists_append back hopens
    exact ⟨whole, by rw [htext, String.toList_append]⟩
  cases h with
  | unclosed back hbody =>
    obtain ⟨whole, htext⟩ := hjoin back rfl
    rw [← htext]
    exact .unclosed whole hbody
  | stalled back after hstall hleft =>
    obtain ⟨whole, htext⟩ := hjoin back (List.append_assoc _ _ _)
    rw [← List.append_assoc, ← htext]
    exact .stalled whole after hstall hleft

/-- What comes after a body that stalls does not matter. -/
theorem append {problem : Problem} {read left : List Char} (h : Failure problem read left)
    (hproblem : problem ≠ .unterminated) (more : List Char) :
    Failure problem read (left ++ more) := by
  cases h with
  | unclosed front hbody => exact absurd rfl hproblem
  | stalled front after hstall hleft =>
    rw [List.append_assoc, List.cons_append]
    exact .stalled front (after ++ more) hstall hleft

end Failure

/-! ## Reading two templates as one -/

theorem Parser.parse_append_ok (p q r : Parser) {front back : String} {parts more : List Part}
    (hseam : ¬ OpensAcross front back) (hfront : (p.parse front).1 = .ok parts)
    (hback : (q.parse back).1 = .ok more) :
    (r.parse (front ++ back)).1 = .ok (Part.join parts more) := by
  obtain ⟨first, rfl, rfl⟩ := exists_of_parse_ok hfront
  obtain ⟨second, rfl, rfl⟩ := exists_of_parse_ok hback
  obtain ⟨whole, htext, hsegments⟩ := first.exists_append second hseam
  rw [← htext, parse_text, whole.parts_eq_orEmpty, hsegments, Part.join, first.filter_parts,
    second.filter_parts]

theorem Parser.parse_append_error (p q r : Parser) {front back : String} {parts : List Part}
    {e : ParseError} (hseam : ¬ OpensAcross front back) (hfront : (p.parse front).1 = .ok parts)
    (hback : (q.parse back).1 = .error e) :
    (r.parse (front ++ back)).1 =
      .error ⟨front ++ back, e.problem, front.utf8ByteSize + e.offset⟩ := by
  obtain ⟨first, rfl, -⟩ := exists_of_parse_ok hfront
  obtain ⟨read, left, hsource, hfailure, he⟩ := parse_eq_error_iff.mp hback
  have hback' : back = String.ofList (read ++ left) := by
    rw [← hsource, String.ofList_toList]
  rw [hback'] at hseam
  refine parse_eq_error_iff.mpr
    ⟨first.text.toList ++ read, left, ?_, hfailure.prepend first hseam, ?_⟩
  · rw [String.toList_append, hsource, List.append_assoc]
  · have hoffset : e.offset = (String.ofList read).utf8ByteSize := by rw [he]
    rw [hoffset, String.ofList_append, String.utf8ByteSize_append, String.ofList_toList]

theorem Parser.parse_append_error_left (p r : Parser) {front : String} {e : ParseError}
    (hfront : (p.parse front).1 = .error e) (hproblem : e.problem ≠ .unterminated)
    (back : String) :
    (r.parse (front ++ back)).1 = .error ⟨front ++ back, e.problem, e.offset⟩ := by
  obtain ⟨read, left, hsource, hfailure, he⟩ := parse_eq_error_iff.mp hfront
  have hoffset : e.offset = (String.ofList read).utf8ByteSize := by rw [he]
  refine parse_eq_error_iff.mpr
    ⟨read, left ++ back.toList, ?_, hfailure.append hproblem back.toList, by rw [hoffset]⟩
  rw [String.toList_append, hsource, List.append_assoc]

/-- Reading is compositional. Where no expression opens across the seam, two templates together are
the join of both, and a template followed by a malformed text is malformed in the same way as far
behind it. A malformed text stays so whatever follows, unless it only lacks the end of an
expression. -/
theorem parse_append_compositional (p q r : Parser) (front back : String) :
    (¬ OpensAcross front back → ∀ parts, (p.parse front).1 = .ok parts →
      (∀ more, (q.parse back).1 = .ok more →
        (r.parse (front ++ back)).1 = .ok (Part.join parts more)) ∧
      (∀ e, (q.parse back).1 = .error e →
        (r.parse (front ++ back)).1 =
          .error ⟨front ++ back, e.problem, front.utf8ByteSize + e.offset⟩)) ∧
    (∀ e, (p.parse front).1 = .error e → e.problem ≠ .unterminated →
      (r.parse (front ++ back)).1 = .error ⟨front ++ back, e.problem, e.offset⟩) := by
  refine ⟨fun hseam parts hfront => ⟨?_, ?_⟩, ?_⟩
  · intro more hback
    exact Parser.parse_append_ok p q r hseam hfront hback
  · intro e hback
    exact Parser.parse_append_error p q r hseam hfront hback
  · intro e hfront hproblem
    exact Parser.parse_append_error_left p r hfront hproblem back

theorem parse_append_compositional_samples :
    ¬ OpensAcross "é$" "$\x7ba\x7d!" ∧ ¬ OpensAcross "é$" "$\x7b.\x7d" ∧
      (({} : Parser).parse "é$").1 = .ok [.text "é$"] ∧
      (({} : Parser).parse "$\x7ba\x7d!").1 = .ok [.attribute "a", .text "!"] ∧
      (({} : Parser).parse ("é$" ++ "$\x7ba\x7d!")).1 =
        .ok [.text "é$", .attribute "a", .text "!"] ∧
      (({} : Parser).parse "$\x7b.\x7d").1 = .error ⟨"$\x7b.\x7d", .expectedName, 2⟩ ∧
      (({} : Parser).parse ("é$" ++ "$\x7b.\x7d")).1 =
        .error ⟨"é$" ++ "$\x7b.\x7d", .expectedName, 5⟩ ∧
      (({} : Parser).parse ("$\x7b.\x7d" ++ "$\x7b")).1 =
        .error ⟨"$\x7b.\x7d" ++ "$\x7b", .expectedName, 2⟩ := by
  have hseam : ¬ OpensAcross "é$" "$\x7ba\x7d!" := by decide
  have hseam' : ¬ OpensAcross "é$" "$\x7b.\x7d" := by decide
  have hfront : (({} : Parser).parse "é$").1 = .ok [.text "é$"] := by cbv
  have hback : (({} : Parser).parse "$\x7ba\x7d!").1 = .ok [.attribute "a", .text "!"] := by cbv
  have hbad : (({} : Parser).parse "$\x7b.\x7d").1 =
      .error ⟨"$\x7b.\x7d", .expectedName, 2⟩ := by cbv
  have hjoined := (parse_append_compositional {} {} {} "é$" _).1 hseam _ hfront
  have hmoved := (parse_append_compositional {} {} {} "é$" _).1 hseam' _ hfront
  refine ⟨hseam, hseam', hfront, hback, hjoined.1 _ hback, hbad, hmoved.2 _ hbad, ?_⟩
  exact (parse_append_compositional {} {} {} _ "$\x7b").2 _ hbad (by decide)

end Splice
