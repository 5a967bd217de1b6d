import Splice.Proofs.Reading

/-!
# Malformed templates

Where reading stops, and why. A body stalls in one of five ways, which what was read of it and the
next character decide. A template fails at an expression that is never closed, or at a body that
stalls; in the second case what was read can be completed, and the next character rules that out.
-/

namespace Splice

/-- A body stalls with a problem, between what was read of it and what is left. -/
inductive Stall : Problem → List Char → List Char → Prop
  | name {left} : Boundary left → Stall .expectedName [] left
  | index (front : Body) {left} : Boundary left →
      Stall .expectedIndex (front.text.toList ++ ['(']) left
  | close (front : Body) (token : Token) {left} : Boundary left → left.head? ≠ some ')' →
      Stall .expectedClose (front.text.toList ++ '(' :: token.text.toList) left
  | key (front : Body) {left} : Boundary left →
      Stall .expectedKey (front.text.toList ++ ['.']) left
  | unexpected (front : Body) {c left} : c ≠ '(' → c ≠ '.' → front.Follow (c :: left) →
      Stall (.unexpected c) front.text.toList (c :: left)

/-- Only the next character decides that a body stalls. -/
theorem Stall.of_head?_eq {problem : Problem} {read left left' : List Char}
    (h : Stall problem read left) (hhead : left'.head? = left.head?) :
    Stall problem read left' := by
  have hboundary : Boundary left → Boundary left' := by
    intro hleft c hc
    exact hleft c (hhead ▸ hc)
  cases h with
  | name hleft => exact .name (hboundary hleft)
  | index front hleft => exact .index front (hboundary hleft)
  | close front token hleft hne => exact .close front token (hboundary hleft) (hhead ▸ hne)
  | key front hleft => exact .key front (hboundary hleft)
  | @unexpected front c left hopen hdot hfollow =>
    cases left' with
    | nil => simp at hhead
    | cons d left' =>
      simp only [List.head?_cons, Option.some.injEq] at hhead
      subst hhead
      refine .unexpected front hopen hdot ?_
      cases front with
      | root token => exact hboundary hfollow
      | select front selector =>
        cases selector with
        | index token => trivial
        | dot token => exact hboundary hfollow

/-- What was read before a stall is the front of some body. -/
theorem Stall.exists_body {problem : Problem} {read left : List Char}
    (h : Stall problem read left) :
    ∃ (body : Body) (more : List Char), body.text.toList = read ++ more := by
  have token : Token := default
  cases h with
  | name hleft => exact ⟨.root token, token.text.toList, rfl⟩
  | index front hleft =>
    exact ⟨front.select (.index token), token.text.toList ++ [')'],
      by simp [Body.text, Selector.text]⟩
  | close front token hleft hne =>
    exact ⟨front.select (.index token), [')'], by simp [Body.text, Selector.text]⟩
  | key front hleft =>
    exact ⟨front.select (.dot token), token.text.toList, by simp [Body.text, Selector.text]⟩
  | unexpected front hopen hdot hfollow => exact ⟨front, [], by simp⟩

theorem Stall.close_not_mem {problem : Problem} {read left : List Char}
    (h : Stall problem read left) : '}' ∉ read := by
  obtain ⟨body, more, htext⟩ := h.exists_body
  intro hmem
  apply body.close_not_mem_text
  rw [htext]
  exact List.mem_append_left more hmem

theorem Stall.of_read_error (front : Body) {c : Char} {cs : List Char} {fault : Fault}
    (hfollow : front.Follow (c :: cs)) (h : Suffix.read c cs = .error fault) :
    ∃ taken, c :: cs = taken ++ fault.rest ∧
      Stall fault.problem (front.text.toList ++ taken) fault.rest := by
  unfold Suffix.read at h
  split at h
  · rename_i hc
    subst hc
    split at h
    · rename_i htoken
      cases h
      obtain ⟨rfl, hcs⟩ := readToken_eq_error htoken
      exact ⟨['('], rfl, .index front hcs⟩
    · cases h
    · rename_i taken rest hne htoken
      cases h
      obtain ⟨token, -, hcs, hrest⟩ := readToken_eq_ok htoken
      refine ⟨'(' :: token.text.toList, by rw [hcs]; rfl, .close front token hrest ?_⟩
      intro hhead
      cases rest with
      | nil => simp at hhead
      | cons d rest =>
        simp only [List.head?_cons, Option.some.injEq] at hhead
        exact hne rest (by rw [hhead])
  · rename_i hopen
    split at h
    · rename_i hdot
      subst hdot
      split at h
      · rename_i htoken
        cases h
        obtain ⟨rfl, hcs⟩ := readToken_eq_error htoken
        exact ⟨['.'], rfl, .key front hcs⟩
      · cases h
    · rename_i hdot
      cases h
      exact ⟨[], rfl, by simpa using .unexpected front hopen hdot hfollow⟩

theorem Stall.of_extend_error (front : Body) {cs : List Char} {fault : Fault}
    (hfollow : front.Follow cs)
    (h : (Parser.extend ⟨front.text⟩ front.part cs).1 = .error fault) :
    ∃ read, front.text.toList ++ cs = read ++ fault.rest ∧ Stall fault.problem read fault.rest := by
  match cs with
  | [] =>
    rw [Parser.extend] at h
    cases h
  | c :: cs =>
    cases hread : Suffix.read c cs with
    | error fault' =>
      rw [Parser.extend_of_read_error hread] at h
      cases h
      obtain ⟨taken, hcs, hstall⟩ := Stall.of_read_error front hfollow hread
      exact ⟨front.text.toList ++ taken, by rw [hcs, List.append_assoc], hstall⟩
    | ok result =>
      obtain ⟨suffix, rest⟩ := result
      have hlt := Suffix.length_lt_of_read hread
      obtain ⟨selector, -, hcs, hrest⟩ := Selector.exists_of_read hread
      rw [hcs, Parser.extend_select front selector hrest] at h
      obtain ⟨read, htext, hstall⟩ := Stall.of_extend_error (front.select selector) hrest h
      refine ⟨read, ?_, hstall⟩
      rw [← htext, hcs, Body.text, String.toList_append, List.append_assoc]
termination_by cs.length
decreasing_by exact hlt

namespace Parser

theorem expression_of_stall (parser : Parser) {problem : Problem} {read left : List Char}
    (h : Stall problem read left) :
    (parser.expression (read ++ left)).1 = .error ⟨problem, left⟩ := by
  have hopen (cs : List Char) : Boundary ('(' :: cs) := boundary_cons.mpr (by decide)
  have hdot (cs : List Char) : Boundary ('.' :: cs) := boundary_cons.mpr (by decide)
  cases h with
  | name hleft => simp [expression, readToken_of_boundary _ hleft]
  | index front hleft =>
    have hread : Suffix.read '(' left = .error ⟨.expectedIndex, left⟩ := by
      simp [Suffix.read, readToken_of_boundary _ hleft]
    rw [List.append_assoc, List.singleton_append,
      parser.expression_append front (front.follow_of_boundary (hopen left)),
      extend_of_read_error hread]
  | close front token hleft hne =>
    have hread : Suffix.read '(' (token.text.toList ++ left) = .error ⟨.expectedClose, left⟩ := by
      unfold Suffix.read
      rw [if_pos rfl, readToken_append _ token hleft]
      cases left with
      | nil => rfl
      | cons d left =>
        have hd : d ≠ ')' := by simpa using hne
        split
        · rename_i heq
          cases heq
        · rename_i heq
          cases heq
          exact absurd rfl hd
        · rename_i heq
          cases heq
          rfl
    rw [List.append_assoc, List.cons_append,
      parser.expression_append front (front.follow_of_boundary (hopen _)),
      extend_of_read_error hread]
  | key front hleft =>
    have hread : Suffix.read '.' left = .error ⟨.expectedKey, left⟩ := by
      simp [Suffix.read, readToken_of_boundary _ hleft]
    rw [List.append_assoc, List.singleton_append,
      parser.expression_append front (front.follow_of_boundary (hdot left)),
      extend_of_read_error hread]
  | @unexpected front c left hc hc' hfollow =>
    have hread : Suffix.read c left = .error ⟨.unexpected c, c :: left⟩ := by
      rw [Suffix.read, if_neg hc, if_neg hc']
    rw [parser.expression_append front hfollow, extend_of_read_error hread]

/-- A body is refused exactly when it stalls. -/
theorem expression_eq_error_iff {parser : Parser} {cs left : List Char} {problem : Problem} :
    (parser.expression cs).1 = .error ⟨problem, left⟩ ↔
      ∃ read, cs = read ++ left ∧ Stall problem read left := by
  constructor
  · intro h
    rw [expression] at h
    split at h
    · rename_i fault htoken
      obtain ⟨rfl, hcs⟩ := readToken_eq_error htoken
      cases h
      exact ⟨[], rfl, .name hcs⟩
    · rename_i taken rest htoken
      obtain ⟨token, htext, hcs, hrest⟩ := readToken_eq_ok htoken
      rw [← htext] at h
      obtain ⟨read, hread, hstall⟩ := Stall.of_extend_error (.root token) hrest h
      exact ⟨read, by rw [hcs, ← hread, Body.text], hstall⟩
  · rintro ⟨read, rfl, hstall⟩
    exact parser.expression_of_stall hstall

/-- What stands in front of an opening marker is read first, if it is a template of its own. -/
theorem parts_append_open (parser : Parser) (front : Layout) (rest : List Char) :
    (parser.parts (front.text.toList ++ '$' :: '{' :: rest)).1 =
      (parser.parts ('$' :: '{' :: rest)).1.map (front.segments ++ ·) := by
  have hempty : '$' :: '{' :: rest = (default : Literal).text.toList ++ '$' :: '{' :: rest := rfl
  induction front with
  | literal last =>
    -- Both sides cut the same text, with different literals in front of the marker.
    rw [Layout.toList_text_literal]
    by_cases hmem : '}' ∈ rest
    · obtain ⟨body, after, rfl, hbody⟩ := List.eq_append_cons_of_mem hmem
      rw [parser.parts_closed last hbody after, hempty, parser.parts_closed default hbody after]
      cases (parser.expression body).1 with
      | error fault => rfl
      | ok part => cases (parser.parts after).1 <;> simp [Except.map, literal, default]
    · rw [parser.parts_unclosed last hmem, hempty, parser.parts_unclosed default hmem]
      rfl
  | expression before body after ih =>
    have htext : (Layout.expression before body after).text.toList ++ '$' :: '{' :: rest =
        before.text.toList ++ '$' :: '{' :: (body.text.toList ++
          '}' :: (after.text.toList ++ '$' :: '{' :: rest)) := by
      simp
    rw [htext, parser.parts_closed before body.close_not_mem_text, expression_text]
    dsimp only
    rw [ih]
    cases (parser.parts ('$' :: '{' :: rest)).1 <;> simp [Except.map]

end Parser

/-- A template fails with a problem, between what was read of it and what is left: in front of an
expression that is never closed, or where the body of one stalls. -/
inductive Failure : Problem → List Char → List Char → Prop
  | unclosed (front : Layout) {body} : '}' ∉ body →
      Failure .unterminated front.text.toList ('$' :: '{' :: body)
  | stalled (front : Layout) {problem read left} (after : List Char) :
      Stall problem read left → '}' ∉ left →
      Failure problem (front.text.toList ++ '$' :: '{' :: read) (left ++ '}' :: after)

namespace Failure

/-- The failure of a template is that of any longer one in front of which a layout goes on. -/
theorem expression (before : Literal) (body : Body) {problem : Problem} {read left : List Char}
    (h : Failure problem read left) :
    Failure problem
      (before.text.toList ++ '$' :: '{' :: (body.text.toList ++ '}' :: read)) left := by
  cases h with
  | unclosed front hbody =>
    rw [← Layout.toList_text_expression]
    exact .unclosed (.expression before body front) hbody
  | stalled front after hstall hleft =>
    have hread := Failure.stalled (.expression before body front) after hstall hleft
    simpa using hread

end Failure

namespace Parser

theorem parts_of_failure (parser : Parser) {problem : Problem} {read left : List Char}
    (h : Failure problem read left) :
    (parser.parts (read ++ left)).1 = .error ⟨problem, left⟩ := by
  cases h with
  | unclosed front hbody =>
    rw [parts_append_open, parts_fst]
    simp [splitOpen?, splitClose?_eq_none_iff.mpr hbody, Except.map]
  | @stalled front problem read left after hstall hleft =>
    have hclose : '}' ∉ read ++ left := by
      simp [hstall.close_not_mem, hleft]
    have htext : front.text.toList ++ '$' :: '{' :: read ++ (left ++ '}' :: after) =
        front.text.toList ++ '$' :: '{' :: (read ++ left ++ '}' :: after) := by
      simp
    rw [htext, parts_append_open, parts_fst]
    simp only [splitOpen?, splitClose?_append hclose, expression_of_stall parser hstall]
    rfl

theorem exists_of_parts_error (parser : Parser) {cs : List Char} {fault : Fault}
    (h : (parser.parts cs).1 = .error fault) :
    ∃ read, cs = read ++ fault.rest ∧ Failure fault.problem read fault.rest := by
  induction cut cs generalizing fault with
  | literal last =>
    rw [parts_literal] at h
    cases h
  | unclosed before hrest =>
    rw [parts_unclosed parser before hrest] at h
    cases h
    exact ⟨before.text.toList, rfl, .unclosed (.literal before) hrest⟩
  | @closed before body after hbody _ ih =>
    rw [parts_closed parser before hbody] at h
    cases hpart : (parser.expression body).1 with
    | error inner =>
      simp only [hpart, Except.error.injEq] at h
      subst h
      obtain ⟨read, hread, hstall⟩ := expression_eq_error_iff.mp hpart
      rw [hread, List.mem_append, not_or] at hbody
      refine ⟨before.text.toList ++ '$' :: '{' :: read, by simp [hread, Fault.before], ?_⟩
      exact .stalled (.literal before) after hstall hbody.2
    | ok part =>
      cases hafter : (parser.parts after).1 with
      | ok parts => simp [hpart, hafter, Except.map] at h
      | error inner =>
        simp only [hpart, hafter, Except.map, Except.error.injEq] at h
        subst h
        obtain ⟨expression, rfl, -⟩ := expression_eq_ok_iff.mp hpart
        obtain ⟨read, hread, hfailure⟩ := ih hafter
        refine ⟨_, ?_, hfailure.expression before expression⟩
        rw [hread]
        simp

/-- A template is refused exactly when it fails, at the end of what was read of it. -/
theorem parse_eq_error_iff {parser : Parser} {source : String} {e : ParseError} :
    (parser.parse source).1 = .error e ↔
      ∃ read left, source.toList = read ++ left ∧ Failure e.problem read left ∧
        e = ⟨source, e.problem, (String.ofList read).utf8ByteSize⟩ := by
  have hlocate {problem : Problem} {read left : List Char} (h : source.toList = read ++ left) :
      Fault.locate ⟨problem, left⟩ source =
        ⟨source, problem, (String.ofList read).utf8ByteSize⟩ := by
    have hsource : source = String.ofList read ++ String.ofList left :=
      String.toList_inj.mp (by simp [h])
    have hsize := congrArg String.utf8ByteSize hsource
    rw [String.utf8ByteSize_append] at hsize
    simp only [Fault.locate, ParseError.mk.injEq, true_and]
    omega
  rw [parse_fst]
  constructor
  · intro h
    cases hparts : (parser.parts source.toList).1 with
    | ok parts => cases parts <;> simp [hparts] at h
    | error fault =>
      simp only [hparts, Except.error.injEq] at h
      subst h
      obtain ⟨read, hsource, hfailure⟩ := exists_of_parts_error parser hparts
      exact ⟨read, fault.rest, hsource, hfailure, hlocate hsource⟩
  · rintro ⟨read, left, hsource, hfailure, he⟩
    rw [hsource, parser.parts_of_failure hfailure]
    dsimp only
    rw [hlocate hsource, ← he]

end Parser

/-! ## Viable prefixes -/

/-- Some template that parses begins with the text. -/
def Viable (text : String) : Prop :=
  ∃ more, Parses (text ++ more)

theorem Layout.exists_append_expression (front : Layout) (body : Body) :
    ∃ layout : Layout,
      layout.text.toList = front.text.toList ++ '$' :: '{' :: (body.text.toList ++ ['}']) := by
  induction front with
  | literal last =>
    exact ⟨.expression last body (.literal default), by simp [default]⟩
  | expression before inner after ih =>
    obtain ⟨layout, htext⟩ := ih
    exact ⟨.expression before inner layout, by simp [htext]⟩

theorem viable_of_stall (front : Layout) {problem : Problem} {read left : List Char}
    (h : Stall problem read left) :
    Viable (String.ofList (front.text.toList ++ '$' :: '{' :: read)) := by
  obtain ⟨body, more, hbody⟩ := h.exists_body
  obtain ⟨layout, hlayout⟩ := front.exists_append_expression body
  refine ⟨String.ofList (more ++ ['}']), parses_iff.mpr ⟨layout, String.toList_inj.mp ?_⟩⟩
  rw [hlayout, hbody]
  simp

/-- The character at which a body stalls, its closing brace included, makes every template that
goes on from there fail. -/
theorem exists_failure_of_stall (front : Layout) {problem : Problem} {read left after : List Char}
    {c : Char} (h : Stall problem read left) (hleft : '}' ∉ left)
    (hc : (left ++ '}' :: after).head? = some c) (more : List Char) :
    ∃ problem' read' left', Failure problem' read' left' ∧
      front.text.toList ++ '$' :: '{' :: (read ++ c :: more) = read' ++ left' := by
  by_cases hmem : '}' ∈ c :: more
  · -- The body ends elsewhere now, but what was read of it has the same character after it.
    obtain ⟨left', after', hcs, hleft'⟩ := List.eq_append_cons_of_mem hmem
    have hhead : left'.head? = left.head? := by
      cases left' <;> cases left <;> simp_all
    refine ⟨_, _, _, .stalled front after' (h.of_head?_eq hhead) hleft', ?_⟩
    rw [hcs]
    simp
  · have hread : '}' ∉ read ++ c :: more := by
      rw [List.mem_append, not_or]
      exact ⟨h.close_not_mem, hmem⟩
    exact ⟨_, _, _, .unclosed front hread, rfl⟩

theorem not_parses_of_failure {problem : Problem} {source : String} {read left : List Char}
    (h : Failure problem read left) (hsource : source.toList = read ++ left) :
    ¬ Parses source := by
  intro hparses
  obtain ⟨layout, rfl⟩ := parses_iff.mp hparses
  have hok := Parser.parts_text {} layout
  rw [hsource, Parser.parts_of_failure {} h] at hok
  cases hok

/-- At the offset an expression opens that is never closed, after text that parses. -/
def OpensUnclosed (source : String) (offset : Nat) : Prop :=
  ∃ front body, source = front ++ "$\x7b" ++ body ∧ front.utf8ByteSize = offset ∧
    Parses front ∧ '}' ∉ body.toList

/-- What is in front of the offset is viable, and with the character at the offset it is not. -/
def EndsViable (source : String) (offset : Nat) : Prop :=
  ∃ front c after, source = front ++ String.singleton c ++ after ∧
    front.utf8ByteSize = offset ∧ Viable front ∧ ¬ Viable (front ++ String.singleton c)

theorem opensUnclosed_iff {source : String} {offset : Nat} :
    OpensUnclosed source offset ↔
      ∃ read left, source.toList = read ++ left ∧ Failure .unterminated read left ∧
        (String.ofList read).utf8ByteSize = offset := by
  constructor
  · rintro ⟨front, body, rfl, hoffset, hparses, hbody⟩
    obtain ⟨layout, rfl⟩ := parses_iff.mp hparses
    exact ⟨layout.text.toList, '$' :: '{' :: body.toList, by simp, .unclosed layout hbody,
      by simpa using hoffset⟩
  · rintro ⟨read, left, hsource, hfailure, hoffset⟩
    cases hfailure with
    | @unclosed front body hbody =>
      refine ⟨front.text, String.ofList body, ?_, by simpa using hoffset,
        parses_iff.mpr ⟨front, rfl⟩, by simpa using hbody⟩
      apply String.toList_inj.mp
      simp [hsource]
    | stalled front after hstall hleft => cases hstall

theorem Failure.endsViable {problem : Problem} {source : String} {read left : List Char}
    (h : Failure problem read left) (hproblem : problem ≠ .unterminated)
    (hsource : source.toList = read ++ left) :
    EndsViable source (String.ofList read).utf8ByteSize := by
  cases h with
  | unclosed front hbody => exact absurd rfl hproblem
  | @stalled front problem read left after hstall hleft =>
    obtain ⟨c, rest, hc⟩ : ∃ c rest, left ++ '}' :: after = c :: rest := by
      cases left <;> simp
    refine ⟨_, c, String.ofList rest, ?_, rfl, viable_of_stall front hstall, ?_⟩
    · apply String.toList_inj.mp
      rw [hsource, hc]
      simp
    · rintro ⟨more, hparses⟩
      obtain ⟨problem', read', left', hfailure, htext⟩ :=
        exists_failure_of_stall front hstall hleft (by rw [hc]; rfl) more.toList
      refine not_parses_of_failure hfailure ?_ hparses
      rw [← htext]
      simp

theorem EndsViable.lt {source : String} {offset : Nat} (h : EndsViable source offset) :
    offset < source.utf8ByteSize ∧ (String.Pos.Raw.mk offset).IsValid source := by
  obtain ⟨front, c, after, rfl, rfl, -, -⟩ := h
  constructor
  · have hc := c.utf8Size_pos
    simp only [String.utf8ByteSize_append, String.utf8ByteSize_singleton]
    omega
  · rw [String.append_assoc]
    exact String.Pos.Raw.isValid_iff_exists_append.mpr ⟨front, _, rfl, rfl⟩

/-- Where a template is refused. The message of an unterminated expression is given exactly at an
opening marker without a closing brace behind text that parses; any other message at the end of the
longest viable prefix. -/
theorem parse_error_located (parser : Parser) (source : String) :
    (∀ e, (parser.parse source).1 = .error e →
      e.template = source ∧
      ((e.problem.detail = "unterminated expression, expected '\x7d'" ∧
          e.problem = .unterminated ∧ OpensUnclosed source e.offset) ∨
        (e.problem.detail ≠ "unterminated expression, expected '\x7d'" ∧
          e.problem ≠ .unterminated ∧ e.offset < source.utf8ByteSize ∧
          (String.Pos.Raw.mk e.offset).IsValid source ∧ EndsViable source e.offset))) ∧
    (∀ offset, OpensUnclosed source offset →
      ∃ e, (parser.parse source).1 = .error e ∧ e = ⟨source, .unterminated, offset⟩ ∧
        e.problem.detail = "unterminated expression, expected '\x7d'") := by
  constructor
  · intro e h
    obtain ⟨read, left, hsource, hfailure, he⟩ := Parser.parse_eq_error_iff.mp h
    have htemplate : e.template = source := by rw [he]
    have hoffset : e.offset = (String.ofList read).utf8ByteSize := by rw [he]
    refine ⟨htemplate, ?_⟩
    by_cases hproblem : e.problem = .unterminated
    · have hdetail := Problem.detail_eq_unterminated_iff.mpr hproblem
      rw [hproblem] at hfailure
      exact Or.inl ⟨hdetail, hproblem,
        opensUnclosed_iff.mpr ⟨read, left, hsource, hfailure, hoffset.symm⟩⟩
    · have hdetail := mt Problem.detail_eq_unterminated_iff.mp hproblem
      have hends := hfailure.endsViable hproblem hsource
      rw [← hoffset] at hends
      exact Or.inr ⟨hdetail, hproblem, hends.lt.1, hends.lt.2, hends⟩
  · intro offset h
    obtain ⟨read, left, hsource, hfailure, rfl⟩ := opensUnclosed_iff.mp h
    exact ⟨_, Parser.parse_eq_error_iff.mpr ⟨read, left, hsource, hfailure, rfl⟩, rfl,
      Problem.detail_eq_unterminated_iff.mpr rfl⟩

theorem parse_error_located_samples :
    (({} : Parser).parse "é$\x7ba\x7d$\x7bb.\x7d").1 =
        .error ⟨"é$\x7ba\x7d$\x7bb.\x7d", .expectedKey, 10⟩ ∧
      Problem.expectedKey.detail ≠ "unterminated expression, expected '\x7d'" ∧
      EndsViable "é$\x7ba\x7d$\x7bb.\x7d" 10 ∧
      OpensUnclosed "é$\x7ba\x7d$\x7bb." 6 ∧
      (({} : Parser).parse "é$\x7ba\x7d$\x7bb.").1 =
        .error ⟨"é$\x7ba\x7d$\x7bb.", .unterminated, 6⟩ ∧
      Problem.unterminated.detail = "unterminated expression, expected '\x7d'" := by
  have hkey : (({} : Parser).parse "é$\x7ba\x7d$\x7bb.\x7d").1 =
      .error ⟨"é$\x7ba\x7d$\x7bb.\x7d", .expectedKey, 10⟩ := by cbv
  have hopens : OpensUnclosed "é$\x7ba\x7d$\x7bb." 6 := by
    refine ⟨"é$\x7ba\x7d", "b.", by decide, by decide, ?_, by decide⟩
    exact ⟨⟨"é$\x7ba\x7d", [.text "é", .attribute "a"]⟩, by cbv⟩
  obtain ⟨e, herror, rfl, hdetail⟩ := (parse_error_located {} _).2 _ hopens
  rcases (parse_error_located {} _).1 _ hkey with ⟨-, ⟨-, hproblem, -⟩ | ⟨hother, -, -, -, hends⟩⟩
  · cases hproblem
  · exact ⟨hkey, hother, hends, hopens, herror, hdetail⟩

end Splice
