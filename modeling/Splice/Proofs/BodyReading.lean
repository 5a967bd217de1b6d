import Splice.Proofs.Layout

/-!
# Reading bodies

What the readers of tokens, selectors and bodies accept. Each reads the text of its own kind in
front of anything that cannot continue it, and nothing else. A body read is the chain that it stands
for, whatever the parser read before, and no text is that of two bodies.
-/

namespace Splice

/-! ## Tokens and selectors -/

/-- No token goes on here: the text is at its end or at a reserved character. -/
def Boundary (cs : List Char) : Prop :=
  ∀ c ∈ cs.head?, isReserved c = true

theorem boundary_nil : Boundary [] := by simp [Boundary]

theorem boundary_cons {c : Char} {cs : List Char} : Boundary (c :: cs) ↔ isReserved c = true := by
  simp [Boundary]

theorem Boundary.takeWhile_eq_nil {cs : List Char} (h : Boundary cs) :
    cs.takeWhile (!isReserved ·) = [] := by
  cases cs with
  | nil => rfl
  | cons c cs => simp [boundary_cons.mp h]

theorem boundary_dropWhile (cs : List Char) : Boundary (cs.dropWhile (!isReserved ·)) := by
  intro c hc
  have h := List.head?_dropWhile_not (!isReserved ·) cs
  rw [Option.mem_def.mp hc] at h
  simpa using h

theorem readToken_append (problem : Problem) (token : Token) {rest : List Char}
    (h : Boundary rest) :
    readToken problem (token.text.toList ++ rest) = .ok (token.text.toList, rest) := by
  have hplain : ∀ c ∈ token.text.toList, (!isReserved c) = true := by
    intro c hc
    simp [token.plain c hc]
  have htake : (token.text.toList ++ rest).takeWhile (!isReserved ·) = token.text.toList := by
    rw [List.takeWhile_append_of_pos hplain, h.takeWhile_eq_nil, List.append_nil]
  have hdrop : (token.text.toList ++ rest).dropWhile (!isReserved ·) = rest := by
    rw [List.dropWhile_append_of_pos hplain]
    cases rest with
    | nil => rfl
    | cons c rest => simp [boundary_cons.mp h]
  unfold readToken
  rw [htake, hdrop, if_neg token.toList_ne_nil]

theorem readToken_of_boundary (problem : Problem) {cs : List Char} (h : Boundary cs) :
    readToken problem cs = .error ⟨problem, cs⟩ := by
  rw [readToken, if_pos h.takeWhile_eq_nil]

theorem readToken_eq_ok {problem : Problem} {cs taken rest : List Char}
    (h : readToken problem cs = .ok (taken, rest)) :
    ∃ token : Token, token.text = String.ofList taken ∧ cs = token.text.toList ++ rest ∧
      Boundary rest := by
  unfold readToken at h
  split at h
  · cases h
  · rename_i hne
    cases h
    have hplain : ∀ c ∈ cs.takeWhile (!isReserved ·), isReserved c = false := by
      intro c hc
      simpa using List.all_eq_true.mp List.all_takeWhile c hc
    let token : Token :=
      ⟨String.ofList (cs.takeWhile (!isReserved ·)), by simpa using hne, by simpa using hplain⟩
    exact ⟨token, rfl, by simp [token, List.takeWhile_append_dropWhile], boundary_dropWhile cs⟩

theorem readToken_eq_error {problem : Problem} {cs : List Char} {fault : Fault}
    (h : readToken problem cs = .error fault) : fault = ⟨problem, cs⟩ ∧ Boundary cs := by
  unfold readToken at h
  split at h
  · rename_i hnil
    cases h
    have hdrop : cs.dropWhile (!isReserved ·) = cs := by
      have happend := cs.takeWhile_append_dropWhile (p := (!isReserved ·))
      rwa [hnil, List.nil_append] at happend
    exact ⟨rfl, hdrop ▸ boundary_dropWhile cs⟩
  · cases h

/-- Where a selector ends when `rest` comes after it: an index ends with its parenthesis, a token
after a dot only where no token goes on. -/
def Selector.Follow : Selector → List Char → Prop
  | index _, _ => True
  | dot _, rest => Boundary rest

/-- The suffix the parser reads a selector as. -/
def Selector.suffix : Selector → Suffix
  | index token => .index token.text
  | dot token => .ofKeyToken token.text

namespace Selector

@[simp] theorem suffix_text (selector : Selector) : selector.suffix.text = selector.text := by
  cases selector with
  | index token => rfl
  | dot token => exact Suffix.text_ofKeyToken token.text

@[simp] theorem suffix_accessor (selector : Selector) :
    selector.suffix.accessor = selector.accessor := by
  cases selector with
  | index token => rfl
  | dot token =>
    simp only [suffix, accessor, Suffix.ofKeyToken]
    by_cases hr : token.text = "random"
    · simp [hr, Suffix.accessor]
    · by_cases hs : token.text = "size" <;> simp [hr, hs, Suffix.accessor]

theorem boundary_text_append (selector : Selector) (rest : List Char) :
    Boundary (selector.text.toList ++ rest) := by
  cases selector <;> simp [text, boundary_cons, isReserved]

theorem exists_read_append (selector : Selector) {rest : List Char} (h : selector.Follow rest) :
    ∃ c cs, selector.text.toList ++ rest = c :: cs ∧
      Suffix.read c cs = .ok (selector.suffix, rest) := by
  cases selector with
  | index token =>
    have hclose : Boundary (')' :: rest) := boundary_cons.mpr (by decide)
    refine ⟨'(', token.text.toList ++ ')' :: rest, by simp [text], ?_⟩
    simp [Suffix.read, readToken_append _ token hclose, suffix]
  | dot token =>
    refine ⟨'.', token.text.toList ++ rest, by simp [text], ?_⟩
    simp [Suffix.read, readToken_append _ token h, suffix]

theorem exists_of_read {c : Char} {cs rest : List Char} {suffix : Suffix}
    (h : Suffix.read c cs = .ok (suffix, rest)) :
    ∃ selector : Selector, selector.suffix = suffix ∧
      c :: cs = selector.text.toList ++ rest ∧ selector.Follow rest := by
  have happend := Suffix.append_of_read h
  unfold Suffix.read at h
  split at h
  · split at h
    · cases h
    · rename_i taken rest' htoken
      cases h
      obtain ⟨token, htext, -, -⟩ := readToken_eq_ok htoken
      refine ⟨.index token, by rw [suffix, htext], ?_, trivial⟩
      simpa [Suffix.text, text, htext] using happend
    · cases h
  · split at h
    · split at h
      · cases h
      · rename_i taken rest' htoken
        cases h
        obtain ⟨token, htext, -, hrest⟩ := readToken_eq_ok htoken
        refine ⟨.dot token, by rw [suffix, htext], ?_, hrest⟩
        simpa [Suffix.text_ofKeyToken, text, htext] using happend
    · cases h

end Selector

/-! ## Bodies -/

def Body.Follow : Body → List Char → Prop
  | root _, rest => Boundary rest
  | select _ selector, rest => selector.Follow rest

theorem Body.follow_of_boundary (body : Body) {rest : List Char} (h : Boundary rest) :
    body.Follow rest := by
  cases body with
  | root token => exact h
  | select front selector =>
    cases selector with
    | index token => trivial
    | dot token => exact h

namespace Parser

theorem extend_of_read_ok {parser : Parser} {part : Part} {c : Char} {cs rest : List Char}
    {suffix : Suffix} (h : Suffix.read c cs = .ok (suffix, rest)) :
    parser.extend part (c :: cs) =
      extend ⟨parser.path ++ suffix.text⟩ (.access part parser.path suffix.accessor) rest := by
  rw [extend]
  split
  · rename_i hread
    rw [h] at hread
    cases hread
  · rename_i hread
    rw [h] at hread
    cases hread
    rfl

theorem extend_of_read_error {parser : Parser} {part : Part} {c : Char} {cs : List Char}
    {fault : Fault} (h : Suffix.read c cs = .error fault) :
    parser.extend part (c :: cs) = (.error fault, parser) := by
  rw [extend]
  split
  · rename_i hread
    rw [h] at hread
    cases hread
    rfl
  · rename_i hread
    rw [h] at hread
    cases hread

theorem extend_select (front : Body) (selector : Selector) {rest : List Char}
    (h : selector.Follow rest) :
    extend ⟨front.text⟩ front.part (selector.text.toList ++ rest) =
      extend ⟨(front.select selector).text⟩ (front.select selector).part rest := by
  obtain ⟨c, cs, hcs, hread⟩ := selector.exists_read_append h
  rw [hcs, extend_of_read_ok hread]
  simp [Body.text, Body.part]

/-- Reading goes through a body to whatever comes after it, with the body's text as the path. -/
theorem expression_append (parser : Parser) (body : Body) {rest : List Char}
    (h : body.Follow rest) :
    parser.expression (body.text.toList ++ rest) = extend ⟨body.text⟩ body.part rest := by
  induction body generalizing rest with
  | root token =>
    rw [expression, Body.text, readToken_append _ token h]
    simp [Body.part]
  | select front selector ih =>
    have hfront : front.Follow (selector.text.toList ++ rest) :=
      front.follow_of_boundary (selector.boundary_text_append rest)
    rw [Body.text, String.toList_append, List.append_assoc, ih hfront]
    exact extend_select front selector h

theorem expression_text (parser : Parser) (body : Body) :
    (parser.expression body.text.toList).1 = .ok body.part := by
  have h := parser.expression_append body (body.follow_of_boundary boundary_nil)
  rw [List.append_nil] at h
  rw [h, extend]

theorem exists_of_extend_ok (front : Body) {cs : List Char} {part : Part}
    (h : (extend ⟨front.text⟩ front.part cs).1 = .ok part) :
    ∃ body : Body, body.text.toList = front.text.toList ++ cs ∧ body.part = part := by
  match cs with
  | [] =>
    rw [extend] at h
    cases h
    exact ⟨front, by simp, rfl⟩
  | c :: cs =>
    cases hread : Suffix.read c cs with
    | error fault =>
      rw [extend_of_read_error hread] at h
      cases h
    | ok result =>
      obtain ⟨suffix, rest⟩ := result
      have hlt := Suffix.length_lt_of_read hread
      obtain ⟨selector, -, hcs, hrest⟩ := Selector.exists_of_read hread
      rw [hcs, extend_select front selector hrest] at h
      obtain ⟨body, htext, hpart⟩ := exists_of_extend_ok (front.select selector) h
      refine ⟨body, ?_, hpart⟩
      rw [htext, hcs, Body.text, String.toList_append, List.append_assoc]
termination_by cs.length
decreasing_by exact hlt

/-- A body is read exactly when it can be written, whatever was read before it. -/
theorem expression_eq_ok_iff {parser : Parser} {cs : List Char} {part : Part} :
    (parser.expression cs).1 = .ok part ↔
      ∃ body : Body, body.text.toList = cs ∧ body.part = part := by
  constructor
  · intro h
    rw [expression] at h
    split at h
    · cases h
    · rename_i taken rest htoken
      obtain ⟨token, htext, hcs, hrest⟩ := readToken_eq_ok htoken
      rw [← htext] at h
      obtain ⟨body, hbody, hpart⟩ := exists_of_extend_ok (.root token) h
      exact ⟨body, by rw [hbody, hcs, Body.text], hpart⟩
  · rintro ⟨body, rfl, rfl⟩
    exact parser.expression_text body

end Parser

/-- Two bodies written alike are the same: the accessors' paths give back every front. -/
theorem Body.text_injective {a b : Body} (h : a.text = b.text) : a = b := by
  have hpart : a.part = b.part := by
    have ha := Parser.expression_text {} a
    rw [h, Parser.expression_text] at ha
    exact (Except.ok.inj ha).symm
  induction a generalizing b with
  | root token =>
    cases b with
    | root other => rw [Token.ext h]
    | select front selector => cases hpart
  | select front selector ih =>
    cases b with
    | root token => cases hpart
    | select front' selector' =>
      simp only [part, Part.access.injEq] at hpart
      obtain rfl := ih hpart.2.1 hpart.1
      have htext : selector.text.toList = selector'.text.toList := by
        have hl := congrArg String.toList h
        simpa [text] using hl
      rw [Selector.text_injective (String.toList_inj.mp htext)]

end Splice
