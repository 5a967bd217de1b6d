import Splice.Proofs.Malformed
import Splice.Proofs.Offsets

/-!
# Scanning a template

The parser by byte offsets. A scanner stands where literal text starts, or in the body of an
expression, and goes on by one step: to an expression, over one suffix, or to the end of a body.
Main statement: from the start of any text it does nothing that is not sound, each suffix and each
round takes it further on, and it ends with what the parser gives.
-/

namespace Splice

open String (utf8Len)

/-! ## Steps in a body -/

theorem takeWhile_of_readToken {problem : Problem} {left taken rest : List Char}
    (h : readToken problem left = .ok (taken, rest)) :
    left.takeWhile (!isReserved ·) = taken ∧ taken ≠ [] := by
  unfold readToken at h
  split at h
  · cases h
  · rename_i hne
    cases h
    exact ⟨rfl, hne⟩

/-- The length of the token in front. -/
theorem find?_reserved (cs : List Char) :
    (find? (startsWith isReserved) (String.ofList cs).toList).getD (String.ofList cs).utf8ByteSize =
      utf8Len (cs.takeWhile (!isReserved ·)) := by
  rw [String.toList_ofList, String.utf8ByteSize_ofList, find?_startsWith_getD]

namespace Cursor

def moved (cursor : Cursor) (n : Nat) : Cursor := { cursor with pos := cursor.pos + n }

theorem lt_moved (cursor : Cursor) {taken : List Char} (hne : taken ≠ []) :
    cursor.pos < (cursor.moved (utf8Len taken)).pos :=
  Nat.lt_add_of_pos_right (Nat.pos_of_ne_zero fun hzero => hne (String.utf8Len_eq_zero.mp hzero))

def advance (cursor : Cursor) (n : Nat) : Scan Cursor := .place (cursor.moved n)

/-- What is left of the body. -/
def left (source : String) (cursor : Cursor) : Scan String :=
  .slice source cursor.pos cursor.stop

def peek (source : String) (cursor : Cursor) : Scan (Option Char) := do
  let left ← cursor.left source
  return left.toList.head?

/-- The longest token in front; `problem` is what an empty one means. -/
def token (source : String) (problem : Problem) (cursor : Cursor) : Scan (String × Cursor) := do
  let left ← cursor.left source
  let length := (find? (startsWith isReserved) left.toList).getD left.utf8ByteSize
  if length = 0 then .refuse source problem cursor.pos
  else
    let next ← cursor.advance length
    let token ← .slice left 0 length
    return (token, next)

/-- Goes over a closing parenthesis. -/
def close (source : String) (cursor : Cursor) : Scan Cursor := do
  let next ← cursor.peek source
  if next = some ')' then cursor.advance (Char.utf8Size ')')
  else .refuse source .expectedClose cursor.pos

/-- The next suffix, unless the body ends. -/
def suffix (source : String) (cursor : Cursor) : Scan (Option (Suffix × Cursor)) := do
  match ← cursor.peek source with
  | none => return none
  | some c =>
    if c = '(' then
      let opened ← cursor.advance 1
      let (token, next) ← opened.token source .expectedIndex
      let closed ← next.close source
      return some (.index token, closed)
    else if c = '.' then
      let opened ← cursor.advance 1
      let (token, next) ← opened.token source .expectedKey
      return some (.ofKeyToken token, next)
    else .refuse source (.unexpected c) cursor.pos

/-- The cursor stands in a body, of which `left` is to be read, before `after`. -/
structure Holds (source : String) (cursor : Cursor) (left after : List Char) : Prop where
  start_le_pos : cursor.start ≤ cursor.pos
  stop_eq : cursor.stop = cursor.pos + utf8Len left
  restAt : RestAt source cursor.pos (left ++ after)

namespace Holds

variable {source : String} {cursor : Cursor} {taken left after : List Char}

theorem moved (h : cursor.Holds source (taken ++ left) after) :
    (cursor.moved (utf8Len taken)).Holds source left after where
  start_le_pos := h.start_le_pos.trans (Nat.le_add_right _ _)
  stop_eq := by
    have hstop := h.stop_eq
    rw [String.utf8Len_append] at hstop
    exact hstop.trans (Nat.add_assoc _ _ _).symm
  restAt := by
    have hrest := h.restAt
    rw [List.append_assoc] at hrest
    exact hrest.add_utf8Len

theorem comes_place (h : cursor.Holds source left after) :
    (Scan.place cursor).Comes (.ok cursor) :=
  Scan.comes_place ⟨h.start_le_pos, h.stop_eq ▸ Nat.le_add_right _ _⟩

theorem comes_advance (h : cursor.Holds source (taken ++ left) after) :
    (cursor.advance (utf8Len taken)).Comes (.ok (cursor.moved (utf8Len taken))) :=
  h.moved.comes_place

theorem comes_left (h : cursor.Holds source left after) :
    (cursor.left source).Comes (.ok (String.ofList left)) := by
  rw [Cursor.left, h.stop_eq]
  exact Scan.comes_slice h.restAt

theorem comes_peek (h : cursor.Holds source left after) :
    (cursor.peek source).Comes (.ok left.head?) := by
  refine h.comes_left.bind ?_
  rw [String.toList_ofList]
  exact Scan.comes_pure _

/-- A fault of what is left is located at the cursor. -/
theorem comes_refuse {α : Type} (h : cursor.Holds source left after) (problem : Problem) :
    (Scan.refuse source problem cursor.pos : Scan α).Comes
      (.error (.refused (((⟨problem, left⟩ : Fault).before after).locate source))) := by
  have hlocate : ((⟨problem, left⟩ : Fault).before after).locate source =
      ⟨source, problem, cursor.pos⟩ := h.restAt.locate_eq problem
  rw [hlocate]
  exact Scan.comes_refuse source problem cursor.pos

theorem comes_token (h : cursor.Holds source left after) {problem : Problem}
    {rest : List Char} (hread : readToken problem left = .ok (taken, rest)) :
    (cursor.token source problem).Comes
      (.ok (String.ofList taken, cursor.moved (utf8Len taken))) := by
  obtain ⟨htake, hne⟩ := takeWhile_of_readToken hread
  obtain rfl : left = taken ++ rest := append_of_readToken hread
  have hlength : utf8Len taken ≠ 0 := fun hzero => hne (String.utf8Len_eq_zero.mp hzero)
  have hslice : RestAt (String.ofList (taken ++ rest)) 0 (taken ++ rest) := by
    simpa using restAt_zero (String.ofList (taken ++ rest))
  refine h.comes_left.bind ?_
  rw [find?_reserved, htake, if_neg hlength]
  refine h.comes_advance.bind ?_
  have hcomes := Scan.comes_slice hslice
  rw [Nat.zero_add] at hcomes
  exact hcomes.bind (Scan.comes_pure _)

theorem comes_token_error (h : cursor.Holds source left after) {problem : Problem} {fault : Fault}
    (hread : readToken problem left = .error fault) :
    (cursor.token source problem).Comes
      (.error (.refused ((fault.before after).locate source))) := by
  obtain ⟨rfl, hboundary⟩ := readToken_eq_error hread
  refine h.comes_left.bind ?_
  rw [find?_reserved, hboundary.takeWhile_eq_nil, String.utf8Len_nil, if_pos rfl]
  exact h.comes_refuse problem

theorem comes_close (h : cursor.Holds source (')' :: left) after) :
    (cursor.close source).Comes (.ok (cursor.moved (utf8Len [')']))) := by
  have hclose : cursor.Holds source ([')'] ++ left) after := h
  exact h.comes_peek.bind hclose.comes_advance

theorem comes_close_error (h : cursor.Holds source left after) (hne : left.head? ≠ some ')') :
    (cursor.close source).Comes
      (.error (.refused (((⟨.expectedClose, left⟩ : Fault).before after).locate source))) := by
  refine h.comes_peek.bind ?_
  rw [if_neg hne]
  exact h.comes_refuse .expectedClose

theorem comes_suffix_nil (h : cursor.Holds source [] after) :
    (cursor.suffix source).Comes (.ok none) :=
  h.comes_peek.bind (Scan.comes_pure none)

/-- A suffix that is read takes the cursor over its text. -/
theorem comes_suffix {c : Char} {cs rest : List Char} {suffix : Suffix}
    (h : cursor.Holds source (c :: cs) after) (hread : Suffix.read c cs = .ok (suffix, rest)) :
    ∃ next : Cursor, (cursor.suffix source).Comes (.ok (some (suffix, next))) ∧
      next.Holds source rest after ∧ cursor.pos < next.pos := by
  unfold Suffix.read at hread
  -- What opens a suffix is a single byte, so the cursor that is set behind it is on a character.
  have hcons : cursor.Holds source ([c] ++ cs) after := h
  have hopened := hcons.moved
  have hlt := lt_moved cursor (List.cons_ne_nil c [])
  split at hread
  · rename_i hc
    subst hc
    split at hread
    · cases hread
    · rename_i taken rest' htoken
      cases hread
      obtain rfl := append_of_readToken htoken
      have hclose : Holds source _ ([')'] ++ rest) after := hopened.moved
      refine ⟨_, ?_, hclose.moved, ?_⟩
      · exact h.comes_peek.bind (hcons.comes_advance.bind
          ((hopened.comes_token htoken).bind (hopened.moved.comes_close.bind (Scan.comes_pure _))))
      · exact hlt.trans_le ((Nat.le_add_right _ _).trans (Nat.le_add_right _ _))
    · cases hread
  · split at hread
    · rename_i hdot
      subst hdot
      split at hread
      · cases hread
      · rename_i taken rest' htoken
        cases hread
        obtain rfl := append_of_readToken htoken
        refine ⟨_, ?_, hopened.moved, hlt.trans_le (Nat.le_add_right _ _)⟩
        exact h.comes_peek.bind (hcons.comes_advance.bind
          ((hopened.comes_token htoken).bind (Scan.comes_pure _)))
    · cases hread

theorem comes_suffix_error {c : Char} {cs : List Char} {fault : Fault}
    (h : cursor.Holds source (c :: cs) after) (hread : Suffix.read c cs = .error fault) :
    (cursor.suffix source).Comes
      (.error (.refused ((fault.before after).locate source))) := by
  unfold Suffix.read at hread
  have hcons : cursor.Holds source ([c] ++ cs) after := h
  have hopened := hcons.moved
  refine h.comes_peek.bind ?_
  dsimp only [List.head?_cons]
  split at hread
  · rename_i hc
    subst hc
    rw [if_pos rfl]
    refine hcons.comes_advance.bind ?_
    split at hread
    · rename_i htoken
      cases hread
      exact (hopened.comes_token_error htoken).bind_error
    · cases hread
    · rename_i taken rest hne htoken
      cases hread
      obtain rfl := append_of_readToken htoken
      refine (hopened.comes_token htoken).bind (hopened.moved.comes_close_error ?_).bind_error
      intro hhead
      obtain ⟨more, hmore⟩ := List.head?_eq_some_iff.mp hhead
      exact hne more hmore
  · rename_i hopen
    rw [if_neg hopen]
    split at hread
    · rename_i hdot
      subst hdot
      rw [if_pos rfl]
      refine hcons.comes_advance.bind ?_
      split at hread
      · rename_i htoken
        cases hread
        exact (hopened.comes_token_error htoken).bind_error
      · cases hread
    · rename_i hdot
      cases hread
      rw [if_neg hdot]
      exact h.comes_refuse (.unexpected c)

end Holds
end Cursor

/-! ## Steps of a scan -/

/-- Where a scan stands: before a round of literal text and one expression, before the name of the
expression, or behind what was read of it. -/
inductive Scanner where
  | round (start : Nat) (parts : List Part)
  | name (cursor : Cursor) (parts : List Part)
  | suffixes (cursor : Cursor) (path : String) (part : Part) (parts : List Part)

namespace Scanner

inductive Move where
  | next (scanner : Scanner)
  | done (parts : List Part)

/-- How far the scan has come. -/
def offset : Scanner → Nat
  | round start _ => start
  | name cursor _ => cursor.pos
  | suffixes cursor .. => cursor.pos

/-- The parts with the text between the offsets after them, unless there is none. -/
def push (source : String) (parts : List Part) (start stop : Nat) : Scan (List Part) :=
  if start < stop then do
    let text ← .slice source start stop
    return parts ++ [.text text]
  else return parts

def step (source : String) : Scanner → Scan Move
  | round start parts => do
    let rest ← .slice source start source.utf8ByteSize
    match find? opens rest.toList with
    | none =>
      if parts.isEmpty then return .done [.text source]
      else
        let parts ← push source parts start source.utf8ByteSize
        return .done parts
    | some found =>
      let parts ← push source parts start (start + found)
      let bodyStart := start + found + "$\x7b".utf8ByteSize
      let rest ← .slice source bodyStart source.utf8ByteSize
      match find? (startsWith (· == '}')) rest.toList with
      | none => .refuse source .unterminated (start + found)
      | some length =>
        let cursor ← .place ⟨bodyStart, bodyStart, bodyStart + length⟩
        return .next (.name cursor parts)
  | name cursor parts => do
    let (token, cursor) ← cursor.token source .expectedName
    return .next (.suffixes cursor token (.attribute token) parts)
  | suffixes cursor path part parts => do
    match ← cursor.suffix source with
    | none => return .next (.round (cursor.stop + Char.utf8Size '}') (parts ++ [part]))
    | some (suffix, cursor) =>
      let whole := Part.access part path suffix.accessor
      return .next (.suffixes cursor (path ++ suffix.text) whole parts)

/-- The scan goes on from the one to the other. -/
def Steps (source : String) (scanner next : Scanner) : Prop :=
  (scanner.step source).result = .ok (.next next)

/-- The scan comes from the one to the other, in any number of steps. -/
abbrev Reaches (source : String) : Scanner → Scanner → Prop :=
  Relation.ReflTransGen (Steps source)

/-- The end of a scan with what the parser gives. -/
def ended : Except ParseError (List Part) → Except Halt Move
  | .ok parts => .ok (.done parts)
  | .error e => .error (.refused e)

/-! ## What is still to come -/

/-- What the parser gives if the parts come first and the rest is read so. -/
def finish (source : String) (parts : List Part) :
    Except Fault (List Part) → Except ParseError (List Part)
  | .ok more => .ok (if (parts ++ more).isEmpty then [.text source] else parts ++ more)
  | .error fault => .error (fault.locate source)

/-- What the parser gives if the parts come first, the body is read so, and `after` follows its
closing brace. -/
def finishBody (source : String) (parts : List Part) (after : List Char) :
    Except Fault Part → Except ParseError (List Part)
  | .ok part => finish source (parts ++ [part]) (({} : Parser).parts after).1
  | .error fault => .error ((fault.before ('}' :: after)).locate source)

theorem parse_eq_finish (parser : Parser) (source : String) :
    (parser.parse source).1 = finish source [] (({} : Parser).parts source.toList).1 := by
  rw [Parser.parse_fst, Parser.parts_fst_congr parser {}]
  cases (({} : Parser).parts source.toList).1 with
  | error fault => rfl
  | ok parts => cases parts <;> rfl

variable {source : String} {parts : List Part} {cs before rest body after : List Char}

theorem finish_of_closed (source : String) (parts : List Part)
    (hopen : splitOpen? cs = some (before, rest))
    (hclose : splitClose? rest = some (body, after)) :
    finish source parts (({} : Parser).parts cs).1 =
      finishBody source (parts ++ literal before) after (({} : Parser).expression body).1 := by
  rw [Parser.parts_fst, hopen]
  dsimp only
  rw [hclose]
  dsimp only
  cases (({} : Parser).expression body).1 with
  | error fault => rfl
  | ok part =>
    cases h : (({} : Parser).parts after).1 <;> simp [finishBody, finish, h, Except.map]

/-- The scan is rightly where it stands, and the parser's result is what is still to come of it. -/
inductive Expects (source : String) (result : Except ParseError (List Part)) : Scanner → Prop
  | round {start parts rest} : RestAt source start rest → (parts = [] → start = 0) →
      finish source parts (({} : Parser).parts rest).1 = result →
      Expects source result (.round start parts)
  | name {cursor parts left after} : cursor.Holds source left ('}' :: after) →
      finishBody source parts after (({} : Parser).expression left).1 = result →
      Expects source result (.name cursor parts)
  | suffixes {cursor path part parts left after} : cursor.Holds source left ('}' :: after) →
      finishBody source parts after (Parser.extend ⟨path⟩ part left).1 = result →
      Expects source result (.suffixes cursor path part parts)

/-- The next step is sound. It goes on, further into the text, to where the same is expected, or it
ends the scan with that. -/
inductive Proceeds (source : String) (result : Except ParseError (List Part)) (scanner : Scanner) :
    Prop
  | goesOn {next : Scanner} : (scanner.step source).Comes (.ok (.next next)) →
      scanner.offset < next.offset → next.Expects source result → Proceeds source result scanner
  | ends : (scanner.step source).Comes (ended result) → Proceeds source result scanner

theorem comes_push {start : Nat} (h : RestAt source start (cs ++ rest)) (parts : List Part) :
    (push source parts start (start + utf8Len cs)).Comes (.ok (parts ++ literal cs)) := by
  unfold push literal
  by_cases hcs : cs = []
  · subst hcs
    simpa using Scan.comes_pure parts
  · have hlength : utf8Len cs ≠ 0 := fun hzero => hcs (String.utf8Len_eq_zero.mp hzero)
    rw [if_pos (by omega), if_neg hcs]
    exact (Scan.comes_slice h).bind (Scan.comes_pure _)

theorem proceeds_literal {start : Nat} (hrest : RestAt source start rest)
    (hparts : parts = [] → start = 0) (hopen : splitOpen? rest = none) :
    Proceeds source (finish source parts (({} : Parser).parts rest).1) (.round start parts) := by
  refine .ends ((Scan.comes_slice_to_end hrest).bind ?_)
  rw [String.toList_ofList, find?_opens, hopen, Parser.parts_fst, hopen]
  dsimp only [Option.map_none]
  cases parts with
  | nil =>
    -- No part has been read, so the text that is left is the whole template.
    cases hparts rfl
    obtain rfl := hrest.eq_toList_of_zero
    have hall : finish source [] (.ok (literal source.toList)) = .ok [.text source] := by
      by_cases hempty : source.toList = [] <;> simp [finish, literal, hempty]
    rw [hall]
    exact Scan.comes_pure _
  | cons part parts =>
    have hall : RestAt source start (rest ++ []) := by rwa [List.append_nil]
    rw [hrest.size_eq]
    exact (comes_push hall _).bind (Scan.comes_pure _)

theorem proceeds_unclosed {start : Nat} (hrest : RestAt source start cs)
    (hopen : splitOpen? cs = some (before, rest)) (hclose : splitClose? rest = none) :
    Proceeds source (finish source parts (({} : Parser).parts cs).1) (.round start parts) := by
  obtain rfl := append_of_splitOpen? hopen
  have hmarker : RestAt source (start + utf8Len before) (['$', '{'] ++ rest) := hrest.add_utf8Len
  have hresult : finish source parts (({} : Parser).parts (before ++ '$' :: '{' :: rest)).1 =
      .error ⟨source, .unterminated, start + utf8Len before⟩ := by
    rw [Parser.parts_fst, hopen]
    dsimp only
    rw [hclose]
    dsimp only [finish]
    rw [hrest.add_utf8Len.locate_eq]
  rw [hresult]
  refine .ends ((Scan.comes_slice_to_end hrest).bind ?_)
  rw [String.toList_ofList, find?_opens, hopen]
  refine (comes_push hrest parts).bind ((Scan.comes_slice_to_end hmarker.add_utf8Len).bind ?_)
  rw [String.toList_ofList, find?_startsWith_close, hclose]
  exact Scan.comes_refuse _ _ _

theorem proceeds_closed {start : Nat} (hrest : RestAt source start cs)
    (hopen : splitOpen? cs = some (before, rest))
    (hclose : splitClose? rest = some (body, after)) :
    Proceeds source (finish source parts (({} : Parser).parts cs).1) (.round start parts) := by
  have hfinish := finish_of_closed source parts hopen hclose
  obtain rfl := append_of_splitOpen? hopen
  obtain rfl := append_of_splitClose? hclose
  have hmarker : RestAt source (start + utf8Len before)
      (['$', '{'] ++ (body ++ '}' :: after)) := hrest.add_utf8Len
  let bodyStart := start + utf8Len before + utf8Len ['$', '{']
  let cursor : Cursor := ⟨bodyStart, bodyStart, bodyStart + utf8Len body⟩
  have hholds : cursor.Holds source body ('}' :: after) := ⟨le_rfl, rfl, hmarker.add_utf8Len⟩
  refine .goesOn ?_ ?_ (.name hholds hfinish.symm)
  · refine (Scan.comes_slice_to_end hrest).bind ?_
    rw [String.toList_ofList, find?_opens, hopen]
    refine (comes_push hrest parts).bind ((Scan.comes_slice_to_end hmarker.add_utf8Len).bind ?_)
    rw [String.toList_ofList, find?_startsWith_close, hclose]
    exact hholds.comes_place.bind (Scan.comes_pure _)
  · have hlength : 0 < utf8Len ['$', '{'] := by decide
    change start < start + utf8Len before + utf8Len ['$', '{']
    omega

theorem proceeds_round {start : Nat} (hrest : RestAt source start cs)
    (hparts : parts = [] → start = 0) :
    Proceeds source (finish source parts (({} : Parser).parts cs).1) (.round start parts) := by
  cases hopen : splitOpen? cs with
  | none => exact proceeds_literal hrest hparts hopen
  | some split =>
    cases hclose : splitClose? split.2 with
    | none => exact proceeds_unclosed hrest hopen hclose
    | some split' => exact proceeds_closed hrest hopen hclose

theorem proceeds_name {cursor : Cursor} {left : List Char}
    (h : cursor.Holds source left ('}' :: after)) :
    Proceeds source (finishBody source parts after (({} : Parser).expression left).1)
      (.name cursor parts) := by
  cases hread : readToken .expectedName left with
  | error fault =>
    simp only [Parser.expression, hread]
    exact .ends (h.comes_token_error hread).bind_error
  | ok result =>
    obtain ⟨taken, rest⟩ := result
    simp only [Parser.expression, hread]
    have hne := (takeWhile_of_readToken hread).2
    have hcomes := h.comes_token hread
    obtain rfl := append_of_readToken hread
    exact .goesOn (hcomes.bind (Scan.comes_pure _)) (Cursor.lt_moved cursor hne)
      (.suffixes h.moved rfl)

theorem proceeds_suffixes {cursor : Cursor} {path : String} {part : Part} {left : List Char}
    (h : cursor.Holds source left ('}' :: after)) :
    Proceeds source (finishBody source parts after (Parser.extend ⟨path⟩ part left).1)
      (.suffixes cursor path part parts) := by
  cases left with
  | nil =>
    -- Where a body is read to its end, the closing brace is what comes next.
    have hstop : cursor.stop = cursor.pos := h.stop_eq
    have hclose : RestAt source cursor.stop (['}'] ++ after) := hstop ▸ h.restAt
    rw [Parser.extend]
    refine .goesOn (h.comes_suffix_nil.bind (Scan.comes_pure _)) ?_
      (.round hclose.add_utf8Len (by simp) rfl)
    change cursor.pos < cursor.stop + utf8Len ['}']
    rw [hstop]
    exact Nat.lt_add_of_pos_right (by decide)
  | cons c cs =>
    cases hread : Suffix.read c cs with
    | error fault =>
      rw [Parser.extend_of_read_error hread]
      exact .ends (h.comes_suffix_error hread).bind_error
    | ok result =>
      obtain ⟨suffix, rest⟩ := result
      obtain ⟨next, hcomes, hnext, hlt⟩ := h.comes_suffix hread
      rw [Parser.extend_of_read_ok hread]
      exact .goesOn (hcomes.bind (Scan.comes_pure _)) hlt (.suffixes hnext rfl)

namespace Expects

variable {result : Except ParseError (List Part)} {scanner next : Scanner}

/-- What one step does. -/
theorem proceeds (h : scanner.Expects source result) : Proceeds source result scanner := by
  cases h with
  | round hrest hparts hresult => exact hresult ▸ proceeds_round hrest hparts
  | name hholds hresult => exact hresult ▸ proceeds_name hholds
  | suffixes hholds hresult => exact hresult ▸ proceeds_suffixes hholds

theorem offset_le (h : scanner.Expects source result) : scanner.offset ≤ source.utf8ByteSize := by
  have hle {offset : Nat} {rest : List Char} (hrest : RestAt source offset rest) :
      offset ≤ source.utf8ByteSize := hrest.size_eq ▸ Nat.le_add_right _ _
  cases h with
  | round hrest => exact hle hrest
  | name hholds => exact hle hholds.restAt
  | suffixes hholds => exact hle hholds.restAt

theorem ended_ne_next (result : Except ParseError (List Part)) (next : Scanner) :
    ended result ≠ .ok (.next next) := by
  cases result <;> simp [ended]

theorem ended_ne_broken (result : Except ParseError (List Part)) :
    ended result ≠ .error .broken := by
  cases result <;> simp [ended]

theorem of_steps (h : scanner.Expects source result) (hsteps : Steps source scanner next) :
    scanner.offset < next.offset ∧ next.Expects source result := by
  cases h.proceeds with
  | goesOn hcomes hlt hnext =>
    have heq := hcomes.1.symm.trans hsteps
    cases heq
    exact ⟨hlt, hnext⟩
  | ends hcomes => exact absurd (hcomes.1.symm.trans hsteps) (ended_ne_next result next)

theorem of_reaches (h : scanner.Expects source result) (hreaches : Reaches source scanner next) :
    next.Expects source result := by
  induction hreaches with
  | refl => exact h
  | tail _ hsteps ih => exact (ih.of_steps hsteps).2

theorem offset_lt (h : scanner.Expects source result)
    (hsteps : Relation.TransGen (Steps source) scanner next) : scanner.offset < next.offset := by
  induction hsteps with
  | single hstep => exact (h.of_steps hstep).1
  | tail hsteps hstep ih => exact ih.trans ((h.of_reaches hsteps.to_reflTransGen).of_steps hstep).1

theorem sound (h : scanner.Expects source result) :
    (∀ act ∈ (scanner.step source).acts, act.Sound) ∧
      (scanner.step source).result ≠ .error .broken := by
  cases h.proceeds with
  | goesOn hcomes => exact ⟨hcomes.2, by simp [hcomes.1]⟩
  | ends hcomes => exact ⟨hcomes.2, hcomes.1 ▸ ended_ne_broken result⟩

/-- The scan ends: every step takes it further on, and it never comes past the end of the text. -/
theorem exists_ended {scanner : Scanner} (h : scanner.Expects source result) :
    ∃ last, Reaches source scanner last ∧ (last.step source).result = ended result := by
  cases h.proceeds with
  | goesOn hcomes hlt hnext =>
    have hle := hnext.offset_le
    obtain ⟨last, hreaches, hlast⟩ := hnext.exists_ended
    exact ⟨last, .head hcomes.1 hreaches, hlast⟩
  | ends hcomes => exact ⟨scanner, .refl, hcomes.1⟩
termination_by source.utf8ByteSize - scanner.offset
decreasing_by omega

end Expects

theorem expects_start (parser : Parser) (source : String) :
    (Scanner.round 0 []).Expects source (parser.parse source).1 :=
  .round (restAt_zero source) (fun _ => rfl) (parse_eq_finish parser source).symm

end Scanner

/-- The template is cut at sound offsets only. Whatever the scan of it comes to, the next step takes
no slice out of range or inside a character and keeps each cursor in its body, every step goes
further into the text, and the scan ends with what the parser gives. A template that is refused is
refused at the start of a character or at its end. -/
theorem scan_sound (parser : Parser) (source : String) :
    (∀ scanner, Scanner.Reaches source (.round 0 []) scanner →
      (∀ act ∈ (scanner.step source).acts, act.Sound) ∧
      (scanner.step source).result ≠ .error .broken ∧
      ∀ next, Relation.TransGen (Scanner.Steps source) scanner next →
        scanner.offset < next.offset) ∧
    (∃ last, Scanner.Reaches source (.round 0 []) last ∧
      (last.step source).result = Scanner.ended (parser.parse source).1) ∧
    ∀ e, (parser.parse source).1 = .error e → (String.Pos.Raw.mk e.offset).IsValid source := by
  have hstart := Scanner.expects_start parser source
  refine ⟨?_, hstart.exists_ended, ?_⟩
  · intro scanner hreaches
    have hscanner := hstart.of_reaches hreaches
    exact ⟨hscanner.sound.1, hscanner.sound.2, fun next hsteps => hscanner.offset_lt hsteps⟩
  · intro e h
    obtain ⟨read, left, hsource, -, he⟩ := Parser.parse_eq_error_iff.mp h
    have hleft : RestAt source e.offset left := by
      refine ⟨read, hsource, ?_⟩
      rw [he, String.utf8ByteSize_ofList]
    exact hleft.isValid

theorem scan_sound_refused :
    Scanner.Steps "é$\x7bü.\x7d" (.round 0 []) (.name ⟨4, 4, 7⟩ [.text "é"]) ∧
      (∀ act ∈ ((Scanner.name ⟨4, 4, 7⟩ [.text "é"]).step "é$\x7bü.\x7d").acts, act.Sound) ∧
      (({} : Parser).parse "é$\x7bü.\x7d").1 = .error ⟨"é$\x7bü.\x7d", .expectedKey, 7⟩ ∧
      (String.Pos.Raw.mk 7).IsValid "é$\x7bü.\x7d" := by
  have hsteps : Scanner.Steps "é$\x7bü.\x7d" (.round 0 []) (.name ⟨4, 4, 7⟩ [.text "é"]) := by
    cbv
  have herror : (({} : Parser).parse "é$\x7bü.\x7d").1 =
      .error ⟨"é$\x7bü.\x7d", .expectedKey, 7⟩ := by cbv
  obtain ⟨hscan, -, hvalid⟩ := scan_sound {} "é$\x7bü.\x7d"
  exact ⟨hsteps, (hscan _ (.single hsteps)).1, herror, hvalid _ herror⟩

end Splice
