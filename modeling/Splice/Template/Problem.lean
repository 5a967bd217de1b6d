/-!
# Malformed templates

What can be wrong with a template, and where: the offset counts the UTF-8 bytes in front of the
place where reading stopped.
-/

namespace Splice

inductive Problem where
  | unterminated
  | expectedName
  | expectedIndex
  | expectedKey
  | expectedClose
  | unexpected (found : Char)
  deriving DecidableEq

def Problem.detail : Problem → String
  | unterminated => "unterminated expression, expected '\x7d'"
  | expectedName => "expected an object name"
  | expectedIndex => "expected an index"
  | expectedKey => "expected a key, 'size' or 'random'"
  | expectedClose => "expected ')'"
  | unexpected found => "unexpected character '" ++ found.toString ++ "'"

namespace Problem

theorem toList_detail_unexpected (found : Char) :
    (detail (unexpected found)).toList = "unexpected character '".toList ++ [found, '\''] := by
  -- Rewriting with the equations of the texts would evaluate them character by character.
  have hdetail : detail (unexpected found) = "unexpected character '" ++ found.toString ++ "'" :=
    rfl
  rw [hdetail, String.toList_append, String.toList_append, Char.toString, String.toList_singleton,
    List.append_assoc]
  rfl

theorem length_toList_detail (problem : Problem) :
    problem.detail.toList.length =
      match problem with
      | unterminated => 37
      | expectedName => 23
      | expectedIndex => 17
      | expectedKey => 34
      | expectedClose => 12
      | unexpected _ => 24 := by
  cases problem with
  | unexpected found =>
    rw [toList_detail_unexpected]
    rfl
  | _ => rfl

/-- Every problem has a text of its own: the texts differ in their length, but for those that name
the character found. -/
theorem detail_injective : Function.Injective detail := by
  intro problem other h
  have hlist := congrArg String.toList h
  have hlength := congrArg List.length hlist
  rw [length_toList_detail, length_toList_detail] at hlength
  cases problem with
  | unexpected found =>
    cases other with
    | unexpected other =>
      rw [toList_detail_unexpected, toList_detail_unexpected] at hlist
      cases List.append_cancel_left hlist
      rfl
    | _ => cases hlength
  | _ => cases other <;> simp at hlength ⊢

theorem detail_eq_unterminated_iff {problem : Problem} :
    problem.detail = "unterminated expression, expected '\x7d'" ↔ problem = unterminated :=
  ⟨fun h => detail_injective h, fun h => h ▸ rfl⟩

end Problem

structure ParseError where
  template : String
  problem : Problem
  offset : Nat
  deriving DecidableEq

def ParseError.message (e : ParseError) : String :=
  "Invalid expression '" ++ e.template ++ "': " ++ e.problem.detail ++ " at offset " ++
    e.offset.repr

/-- A problem together with the text left to read where it was met. -/
structure Fault where
  problem : Problem
  rest : List Char

/-- The fault as seen in a longer text: `more` follows what was being read. -/
def Fault.before (fault : Fault) (more : List Char) : Fault :=
  { fault with rest := fault.rest ++ more }

/-- The place of a fault in the template whose end its text is. -/
def Fault.locate (fault : Fault) (template : String) : ParseError :=
  ⟨template, fault.problem, template.utf8ByteSize - (String.ofList fault.rest).utf8ByteSize⟩

end Splice
