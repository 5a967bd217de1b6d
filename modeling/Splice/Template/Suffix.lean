import Splice.Part
import Splice.Template.Problem

/-!
# Tokens and suffixes

An expression body is a token followed by suffixes: `(token)` for an index, `.token` for a key, with
`size` and `random` set apart among the keys. A token is a non-empty run of characters that have
no role in the notation.
-/

namespace Splice

/-- Characters that end a token. -/
def isReserved (c : Char) : Bool :=
  ['.', '$', '{', '}', '(', ')'].contains c

/-- Reads the longest token in front; `problem` is what an empty one means. -/
def readToken (problem : Problem) (cs : List Char) : Except Fault (List Char × List Char) :=
  if cs.takeWhile (!isReserved ·) = [] then .error ⟨problem, cs⟩
  else .ok (cs.takeWhile (!isReserved ·), cs.dropWhile (!isReserved ·))

theorem append_of_readToken {problem : Problem} {cs token rest : List Char}
    (h : readToken problem cs = .ok (token, rest)) : cs = token ++ rest := by
  unfold readToken at h
  split at h
  · cases h
  · cases h
    exact List.takeWhile_append_dropWhile.symm

inductive Suffix where
  | index (token : String)
  | key (name : String)
  | size
  | random
  deriving DecidableEq

namespace Suffix

/-- The suffix a token after a dot stands for. Only a whole token is a keyword. -/
def ofKeyToken (token : String) : Suffix :=
  if token = "random" then random else if token = "size" then size else key token

/-- The suffix as written. -/
def text : Suffix → String
  | index token => "(" ++ token ++ ")"
  | key name => "." ++ name
  | size => ".size"
  | random => ".random"

def accessor : Suffix → Accessor
  | index token => .index (IndexSpec.ofToken token)
  | key name => .key name
  | size => .size
  | random => .random

/-- Reads the suffix that starts with `c`. -/
def read (c : Char) (cs : List Char) : Except Fault (Suffix × List Char) :=
  if c = '(' then
    match readToken .expectedIndex cs with
    | .error fault => .error fault
    | .ok (token, ')' :: rest) => .ok (.index (String.ofList token), rest)
    | .ok (_, rest) => .error ⟨.expectedClose, rest⟩
  else if c = '.' then
    match readToken .expectedKey cs with
    | .error fault => .error fault
    | .ok (token, rest) => .ok (ofKeyToken (String.ofList token), rest)
  else .error ⟨.unexpected c, c :: cs⟩

theorem text_ofKeyToken (token : String) : (ofKeyToken token).text = "." ++ token := by
  unfold ofKeyToken
  split
  · subst token; rfl
  · split
    · subst token; rfl
    · rfl

theorem append_of_read {c : Char} {cs rest : List Char} {suffix : Suffix}
    (h : read c cs = .ok (suffix, rest)) : c :: cs = suffix.text.toList ++ rest := by
  unfold read at h
  split at h
  · rename_i hc
    split at h
    · cases h
    · rename_i ht
      cases h
      simp [hc, text, append_of_readToken ht]
    · cases h
  · split at h
    · rename_i hc
      split at h
      · cases h
      · rename_i ht
        cases h
        simp [hc, text_ofKeyToken, append_of_readToken ht]
    · cases h

theorem text_ne_nil (suffix : Suffix) : suffix.text.toList ≠ [] := by
  cases suffix <;> simp [text]

theorem length_lt_of_read {c : Char} {cs rest : List Char} {suffix : Suffix}
    (h : read c cs = .ok (suffix, rest)) : rest.length < (c :: cs).length := by
  rw [append_of_read h, List.length_append]
  have := List.length_pos_iff.2 (text_ne_nil suffix)
  omega

end Suffix
end Splice
