import Mathlib
import Splice.Template.Parser

/-!
# Offsets in a text

A text can be read by byte offsets instead of characters. A slice between two offsets is then sound
only if they are in order, within the text, and between characters. A scan is a reading that takes
slices and sets cursors, and keeps a record of both; a slice that is not sound breaks it off. Here
are the slices that are sound because of what is known to stand at an offset, and where the
characters that delimit something are found.
-/

namespace Splice

open String (utf8Len)

/-! ## Slices -/

/-- There is a slice of the text between the offsets: they are in order, within the text, and
between characters. -/
structure Fits (text : String) (start stop : Nat) : Prop where
  start_le_stop : start ≤ stop
  stop_le_size : stop ≤ text.utf8ByteSize
  start_isValid : (String.Pos.Raw.mk start).IsValid text
  stop_isValid : (String.Pos.Raw.mk stop).IsValid text

instance (text : String) (start stop : Nat) : Decidable (Fits text start stop) :=
  decidable_of_iff (start ≤ stop ∧ stop ≤ text.utf8ByteSize ∧
      (String.Pos.Raw.mk start).IsValid text ∧ (String.Pos.Raw.mk stop).IsValid text)
    ⟨fun ⟨h, h', hstart, hstop⟩ => ⟨h, h', hstart, hstop⟩, fun ⟨h, h', hstart, hstop⟩ =>
      ⟨h, h', hstart, hstop⟩⟩

/-- From the offset on the text reads so. -/
def RestAt (text : String) (offset : Nat) (rest : List Char) : Prop :=
  ∃ front, text.toList = front ++ rest ∧ utf8Len front = offset

theorem restAt_zero (text : String) : RestAt text 0 text.toList := ⟨[], rfl, rfl⟩

namespace RestAt

variable {text : String} {offset : Nat} {cs rest : List Char}

theorem add_utf8Len (h : RestAt text offset (cs ++ rest)) :
    RestAt text (offset + utf8Len cs) rest := by
  obtain ⟨front, htext, rfl⟩ := h
  exact ⟨front ++ cs, by rw [htext, List.append_assoc], String.utf8Len_append front cs⟩

theorem size_eq (h : RestAt text offset rest) : text.utf8ByteSize = offset + utf8Len rest := by
  obtain ⟨front, htext, rfl⟩ := h
  rw [← String.utf8Len_toList, htext, String.utf8Len_append]

theorem isValid (h : RestAt text offset rest) : (String.Pos.Raw.mk offset).IsValid text := by
  obtain ⟨front, htext, rfl⟩ := h
  refine String.Pos.Raw.isValid_iff_exists_append.mpr
    ⟨String.ofList front, String.ofList rest, ?_, ?_⟩
  · exact String.toList_inj.mp (by simp [htext])
  · rw [String.rawEndPos, String.utf8ByteSize_ofList]

theorem fits (h : RestAt text offset (cs ++ rest)) : Fits text offset (offset + utf8Len cs) where
  start_le_stop := Nat.le_add_right _ _
  stop_le_size := by rw [h.add_utf8Len.size_eq]; exact Nat.le_add_right _ _
  start_isValid := h.isValid
  stop_isValid := h.add_utf8Len.isValid

theorem extract_eq (h : RestAt text offset (cs ++ rest)) :
    String.Pos.Raw.extract text ⟨offset⟩ ⟨offset + utf8Len cs⟩ = String.ofList cs := by
  obtain ⟨front, htext, rfl⟩ := h
  have h := String.extract_of_valid front cs rest
  rwa [List.append_assoc, ← htext, String.ofList_toList] at h

/-- A fault is located where its text begins. -/
theorem locate_eq (h : RestAt text offset rest) (problem : Problem) :
    Fault.locate ⟨problem, rest⟩ text = ⟨text, problem, offset⟩ := by
  rw [Fault.locate, String.utf8ByteSize_ofList, h.size_eq, Nat.add_sub_cancel_right]

theorem eq_toList_of_zero (h : RestAt text 0 rest) : rest = text.toList := by
  obtain ⟨front, htext, hfront⟩ := h
  rw [htext, String.utf8Len_eq_zero.mp hfront, List.nil_append]

end RestAt

/-! ## Scans -/

/-- A place in an expression body: the offsets where the body starts, where it is read, and where
it stops. -/
structure Cursor where
  start : Nat
  pos : Nat
  stop : Nat

/-- What a scan does: it takes a slice of a text, or sets a cursor. -/
inductive Act where
  | slice (text : String) (start stop : Nat)
  | cursor (cursor : Cursor)

/-- The slice fits the text, the cursor stands in its body. -/
def Act.Sound : Act → Prop
  | slice text start stop => Fits text start stop
  | cursor c => c.start ≤ c.pos ∧ c.pos ≤ c.stop

/-- Why a scan ends early: the template is refused, or a slice is not sound. -/
inductive Halt where
  | refused (error : ParseError)
  | broken

structure Scan (α : Type) where
  result : Except Halt α
  acts : List Act

namespace Scan

variable {α β : Type}

def bind (p : Scan α) (f : α → Scan β) : Scan β :=
  match p.result with
  | .ok a => ⟨(f a).result, p.acts ++ (f a).acts⟩
  | .error halt => ⟨.error halt, p.acts⟩

instance : Monad Scan where
  pure a := ⟨.ok a, []⟩
  bind := bind

def slice (text : String) (start stop : Nat) : Scan String :=
  ⟨if Fits text start stop then .ok (String.Pos.Raw.extract text ⟨start⟩ ⟨stop⟩)
    else .error .broken, [.slice text start stop]⟩

def place (cursor : Cursor) : Scan Cursor := ⟨.ok cursor, [.cursor cursor]⟩

def refuse (source : String) (problem : Problem) (offset : Nat) : Scan α :=
  ⟨.error (.refused ⟨source, problem, offset⟩), []⟩

/-- The scan has the result, and all that it does is sound. -/
def Comes (p : Scan α) (result : Except Halt α) : Prop :=
  p.result = result ∧ ∀ act ∈ p.acts, act.Sound

theorem comes_pure (a : α) : (pure a : Scan α).Comes (.ok a) := ⟨rfl, by rintro act ⟨⟩⟩

theorem comes_refuse (source : String) (problem : Problem) (offset : Nat) :
    (refuse source problem offset : Scan α).Comes (.error (.refused ⟨source, problem, offset⟩)) :=
  ⟨rfl, by rintro act ⟨⟩⟩

theorem comes_place {cursor : Cursor} (h : cursor.start ≤ cursor.pos ∧ cursor.pos ≤ cursor.stop) :
    (place cursor).Comes (.ok cursor) :=
  ⟨rfl, List.forall_mem_singleton.mpr h⟩

theorem comes_slice {text : String} {offset : Nat} {cs rest : List Char}
    (h : RestAt text offset (cs ++ rest)) :
    (slice text offset (offset + utf8Len cs)).Comes (.ok (String.ofList cs)) := by
  refine ⟨?_, List.forall_mem_singleton.mpr h.fits⟩
  rw [slice, if_pos h.fits, h.extract_eq]

theorem comes_slice_to_end {text : String} {offset : Nat} {rest : List Char}
    (h : RestAt text offset rest) :
    (slice text offset text.utf8ByteSize).Comes (.ok (String.ofList rest)) := by
  have hall : RestAt text offset (rest ++ []) := by rwa [List.append_nil]
  rw [h.size_eq]
  exact comes_slice hall

theorem Comes.bind {p : Scan α} {a : α} {f : α → Scan β} {result : Except Halt β}
    (hp : p.Comes (.ok a)) (hf : (f a).Comes result) : (p >>= f).Comes result := by
  have hbind : p >>= f = ⟨(f a).result, p.acts ++ (f a).acts⟩ := by
    change p.bind f = _
    rw [Scan.bind, hp.1]
  rw [hbind]
  exact ⟨hf.1, List.forall_mem_append.mpr ⟨hp.2, hf.2⟩⟩

theorem Comes.bind_error {p : Scan α} {halt : Halt} {f : α → Scan β}
    (hp : p.Comes (.error halt)) : (p >>= f).Comes (.error halt) := by
  have hbind : p >>= f = ⟨.error halt, p.acts⟩ := by
    change p.bind f = _
    rw [Scan.bind, hp.1]
  rw [hbind]
  exact ⟨rfl, hp.2⟩

end Scan

/-! ## Finding a delimiter -/

/-- The first offset at which what follows is as wanted. -/
def find? (wanted : List Char → Bool) : List Char → Option Nat
  | [] => none
  | c :: cs => if wanted (c :: cs) then some 0 else (find? wanted cs).map (c.utf8Size + ·)

/-- An opening marker follows. -/
def opens (cs : List Char) : Bool := ['$', '{'].isPrefixOf cs

/-- A character follows that satisfies the predicate. -/
def startsWith (p : Char → Bool) (cs : List Char) : Bool := cs.head?.any p

theorem find?_opens (cs : List Char) :
    find? opens cs = (splitOpen? cs).map fun split => utf8Len split.1 := by
  fun_induction splitOpen? cs with
  | case1 => rfl
  | case2 rest => simp [find?, opens]
  | case3 c rest hc ih =>
    have hopens : opens (c :: rest) = false := by
      rw [opens, Bool.eq_false_iff, ne_eq, List.isPrefixOf_iff_prefix]
      rintro ⟨more, hmore⟩
      simp only [List.cons_append, List.nil_append, List.cons.injEq] at hmore
      exact hc more hmore.1.symm hmore.2.symm
    simp [find?, hopens, ih, Option.map_map, Function.comp_def, Nat.add_comm]

theorem find?_startsWith_close (cs : List Char) :
    find? (startsWith (· == '}')) cs = (splitClose? cs).map fun split => utf8Len split.1 := by
  induction cs with
  | nil => rfl
  | cons c cs ih =>
    by_cases hc : c = '}'
    · simp [find?, startsWith, splitClose?, hc]
    · simp [find?, startsWith, splitClose?, hc, ih, Option.map_map, Function.comp_def, Nat.add_comm]

theorem find?_startsWith_getD (p : Char → Bool) (cs : List Char) :
    (find? (startsWith p) cs).getD (utf8Len cs) = utf8Len (cs.takeWhile (!p ·)) := by
  induction cs with
  | nil => rfl
  | cons c cs ih =>
    cases hc : p c with
    | true => simp [find?, startsWith, hc]
    | false =>
      rw [List.takeWhile_cons_of_pos (by simp [hc]), String.utf8Len_cons, String.utf8Len_cons, ← ih]
      cases hfind : find? (startsWith p) cs <;>
        simp [find?, startsWith, hc, hfind, Nat.add_comm]

end Splice
