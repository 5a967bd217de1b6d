/-!
# Splitting a text at its markers

An expression opens at the first dollar sign that an opening brace follows, and closes at the
first closing brace after that. Each split keeps the text on both sides, the marker left out.
-/

namespace Splice

def splitOpen? : List Char → Option (List Char × List Char)
  | [] => none
  | '$' :: '{' :: rest => some ([], rest)
  | c :: rest => (splitOpen? rest).map fun (before, after) => (c :: before, after)

def splitClose? : List Char → Option (List Char × List Char)
  | [] => none
  | c :: rest =>
    if c = '}' then some ([], rest)
    else (splitClose? rest).map fun (before, after) => (c :: before, after)

theorem append_of_splitOpen? {cs before after : List Char}
    (h : splitOpen? cs = some (before, after)) : cs = before ++ '$' :: '{' :: after := by
  fun_induction splitOpen? cs generalizing before with
  | case1 => simp at h
  | case2 rest => simp_all
  | case3 c rest _ ih =>
    obtain ⟨⟨b, a⟩, hs, hb⟩ := Option.map_eq_some_iff.1 h
    cases hb
    simp [← ih hs]

theorem append_of_splitClose? {cs before after : List Char}
    (h : splitClose? cs = some (before, after)) : cs = before ++ '}' :: after := by
  fun_induction splitClose? cs generalizing before with
  | case1 => simp at h
  | case2 rest => simp_all
  | case3 c rest _ ih =>
    obtain ⟨⟨b, a⟩, hs, hb⟩ := Option.map_eq_some_iff.1 h
    cases hb
    simp [← ih hs]

theorem length_lt_of_split {cs before rest body after : List Char}
    (hopen : splitOpen? cs = some (before, rest)) (hclose : splitClose? rest = some (body, after)) :
    after.length < cs.length := by
  rw [append_of_splitOpen? hopen, append_of_splitClose? hclose]
  simp
  omega

end Splice
