/-!
# Entries sorted by key

A finite map from names to values is a list of pairs in ascending key order, each key once. Keys
are ordered by code point. Every operation here keeps that order, so it can be built into a table,
and the laws on looking up what was inserted hold of any list of pairs. A type that is nested in
itself through its maps has no room for the order in its constructors; its maps are such lists, of
which a table can be made.
-/

namespace Splice
namespace Entries

variable {α : Type}

def Sorted (entries : List (String × α)) : Prop :=
  entries.Pairwise fun a b => a.1 < b.1

/-- Puts a value under a key, in the place of an earlier value if there is one. -/
def insert (key : String) (value : α) : List (String × α) → List (String × α)
  | [] => [(key, value)]
  | (k, v) :: rest =>
    if key < k then (key, value) :: (k, v) :: rest
    else if key = k then (key, value) :: rest
    else (k, v) :: insert key value rest

def erase (key : String) (entries : List (String × α)) : List (String × α) :=
  entries.filter fun entry => entry.1 != key

/-- Not after, in key order. -/
def notAfter (a b : String × α) : Bool := !decide (b.1 < a.1)

/-- Of neighbours with one key the last is kept. -/
def keepLast : List (String × α) → List (String × α)
  | [] => []
  | [entry] => [entry]
  | entry :: next :: rest =>
    if entry.1 = next.1 then keepLast (next :: rest) else entry :: keepLast (next :: rest)

/-- The entries of a list of pairs. Of pairs with one key the last counts: sorting leaves them in
their order. -/
def ofList (pairs : List (String × α)) : List (String × α) :=
  keepLast (pairs.mergeSort notAfter)

theorem lookup_cons_of_ne {key other : String} (h : other ≠ key) (value : α)
    (entries : List (String × α)) :
    ((key, value) :: entries).lookup other = entries.lookup other := by
  simp only [List.lookup_cons, beq_eq_false_iff_ne.2 h]

@[simp] theorem lookup_insert_self (key : String) (value : α) (entries : List (String × α)) :
    (insert key value entries).lookup key = some value := by
  fun_induction insert key value entries with
  | case1 => simp
  | case2 k v rest _ => simp
  | case3 v rest _ => simp
  | case4 k v rest _ h ih => rw [lookup_cons_of_ne h, ih]

theorem lookup_insert_of_ne {key other : String} (h : other ≠ key) (value : α)
    (entries : List (String × α)) :
    (insert key value entries).lookup other = entries.lookup other := by
  fun_induction insert key value entries with
  | case1 => exact lookup_cons_of_ne h _ _
  | case2 k v rest _ => exact lookup_cons_of_ne h _ _
  | case3 v rest _ => rw [lookup_cons_of_ne h, lookup_cons_of_ne h]
  | case4 k v rest _ _ ih => simp only [List.lookup_cons, ih]

@[simp] theorem lookup_erase_self (key : String) (entries : List (String × α)) :
    (erase key entries).lookup key = none := by
  simp only [erase, List.lookup_eq_none_iff, List.mem_filter]
  grind

theorem lookup_erase_of_ne {key other : String} (h : other ≠ key)
    (entries : List (String × α)) :
    (erase key entries).lookup other = entries.lookup other := by
  induction entries with
  | nil => rfl
  | cons entry rest ih =>
    obtain ⟨k, v⟩ := entry
    by_cases hk : k = key
    · subst hk
      rw [lookup_cons_of_ne h, ← ih]
      simp [erase]
    · have : erase key ((k, v) :: rest) = (k, v) :: erase key rest := by simp [erase, hk]
      simp only [this, List.lookup_cons, ih]

theorem mem_of_mem_insert {key : String} {value : α} {entries : List (String × α)}
    {entry : String × α} (h : entry ∈ insert key value entries) :
    entry = (key, value) ∨ entry ∈ entries := by
  fun_induction insert key value entries with
  | case1 => simpa using h
  | case2 k v rest _ => simpa using h
  | case3 v rest _ => grind
  | case4 k v rest _ _ ih => grind

theorem sorted_insert {key : String} {value : α} {entries : List (String × α)}
    (h : Sorted entries) : Sorted (insert key value entries) := by
  fun_induction insert key value entries with
  | case1 => simp [Sorted]
  | case2 k v rest hk =>
    refine List.Pairwise.cons (fun entry hentry => ?_) h
    rcases List.mem_cons.1 hentry with rfl | hmem
    · exact hk
    · exact String.lt_trans hk (List.rel_of_pairwise_cons h hmem)
  | case3 v rest _ =>
    exact List.Pairwise.cons (fun entry hentry => List.rel_of_pairwise_cons h hentry) h.tail
  | case4 k v rest hlt hne ih =>
    refine List.Pairwise.cons (fun entry hentry => ?_) (ih h.tail)
    rcases mem_of_mem_insert hentry with rfl | hmem
    · exact Std.lt_of_le_of_ne (String.not_lt.1 hlt) (Ne.symm hne)
    · exact List.rel_of_pairwise_cons h hmem

theorem sorted_erase {key : String} {entries : List (String × α)} (h : Sorted entries) :
    Sorted (erase key entries) :=
  h.filter _

theorem sorted_map {β : Type} (f : α → β) {entries : List (String × α)} (h : Sorted entries) :
    Sorted (entries.map fun (key, value) => (key, f value)) :=
  List.pairwise_map.mpr h

theorem lookup_of_mem {entries : List (String × α)} (h : Sorted entries) {key : String} {value : α}
    (hmem : (key, value) ∈ entries) : entries.lookup key = some value := by
  induction entries with
  | nil => cases hmem
  | cons entry rest ih =>
    rcases List.mem_cons.1 hmem with rfl | hrest
    · exact List.lookup_cons_self
    · have hlt : entry.1 < key := List.rel_of_pairwise_cons h hrest
      have hne : key ≠ entry.1 := fun heq => String.lt_irrefl key (heq.symm ▸ hlt)
      rw [lookup_cons_of_ne hne, ih h.tail hrest]

theorem mem_keys_iff {key : String} {entries : List (String × α)} :
    key ∈ entries.map Prod.fst ↔ (entries.lookup key).isSome := by
  simp [List.lookup_isSome_iff]

theorem lookup_map {β : Type} (f : α → β) (entries : List (String × α)) (name : String) :
    (entries.map fun (key, value) => (key, f value)).lookup name =
      (entries.lookup name).map f := by
  induction entries with
  | nil => rfl
  | cons entry rest ih =>
    obtain ⟨k, v⟩ := entry
    rw [List.map_cons, List.lookup_cons, List.lookup_cons, ih]
    cases name == k <;> rfl

/-- Two functions on the values, one after the other, are one. -/
theorem map_map_of_eq {β γ : Type} {f : α → β} {g : β → γ} {h : α → γ}
    {entries : List (String × α)} (heq : ∀ entry ∈ entries, g (f entry.2) = h entry.2) :
    (entries.map fun (key, value) => (key, f value)).map (fun (key, value) => (key, g value)) =
      entries.map fun (key, value) => (key, h value) := by
  rw [List.map_map]
  exact List.map_congr_left fun entry hentry => congrArg (Prod.mk entry.1) (heq entry hentry)

theorem notAfter_iff {a b : String × α} : notAfter a b ↔ a.1 ≤ b.1 := by
  simp only [notAfter, Bool.not_eq_true', decide_eq_false_iff_not, String.not_lt]

theorem notAfter_trans (a b c : String × α) (hab : notAfter a b) (hbc : notAfter b c) :
    notAfter a c :=
  notAfter_iff.2 (String.le_trans (notAfter_iff.1 hab) (notAfter_iff.1 hbc))

theorem notAfter_total (a b : String × α) : notAfter a b || notAfter b a := by
  simp only [Bool.or_eq_true, notAfter_iff]
  exact String.le_total _ _

theorem mem_of_mem_keepLast {entries : List (String × α)} {entry : String × α}
    (h : entry ∈ keepLast entries) : entry ∈ entries := by
  fun_induction keepLast entries with
  | case1 => exact h
  | case2 first => exact h
  | case3 first next rest _ ih => exact List.mem_cons_of_mem _ (ih h)
  | case4 first next rest _ ih =>
    rcases List.mem_cons.1 h with rfl | hrest
    · exact List.mem_cons_self
    · exact List.mem_cons_of_mem _ (ih hrest)

/-- In a sorted list a key that is not repeated at once is below all that follow. -/
theorem lt_of_mem_of_ne {first next : String × α} {rest : List (String × α)}
    (h : (first :: next :: rest).Pairwise fun a b => notAfter a b) (hne : first.1 ≠ next.1)
    {entry : String × α} (hentry : entry ∈ next :: rest) : first.1 < entry.1 := by
  have hnext := List.rel_of_pairwise_cons h (List.mem_cons_self (a := next) (l := rest))
  have hlt : first.1 < next.1 := Std.lt_of_le_of_ne (notAfter_iff.1 hnext) hne
  rcases List.mem_cons.1 hentry with rfl | hrest
  · exact hlt
  · exact Std.lt_of_lt_of_le hlt (notAfter_iff.1 (List.rel_of_pairwise_cons h.tail hrest))

theorem mem_keys_keepLast {entries : List (String × α)} {key : String} :
    key ∈ (keepLast entries).map (·.1) ↔ key ∈ entries.map (·.1) := by
  fun_induction keepLast entries with
  | case1 => exact Iff.rfl
  | case2 first => exact Iff.rfl
  | case3 first next rest heq ih =>
    rw [ih, List.map_cons, List.map_cons, List.map_cons]
    simp [heq]
  | case4 first next rest _ ih =>
    rw [List.map_cons, List.mem_cons, ih, List.map_cons (l := next :: rest), List.mem_cons]

theorem sorted_keepLast {entries : List (String × α)}
    (h : entries.Pairwise fun a b => notAfter a b) : Sorted (keepLast entries) := by
  fun_induction keepLast entries with
  | case1 => exact List.Pairwise.nil
  | case2 first => exact List.pairwise_singleton _ _
  | case3 first next rest _ ih => exact ih h.tail
  | case4 first next rest hne ih =>
    exact List.Pairwise.cons
      (fun entry hentry => lt_of_mem_of_ne h hne (mem_of_mem_keepLast hentry)) (ih h.tail)

theorem sorted_ofList (pairs : List (String × α)) : Sorted (ofList pairs) :=
  sorted_keepLast (List.pairwise_mergeSort notAfter_trans notAfter_total pairs)

theorem mem_keys_ofList {pairs : List (String × α)} {key : String} :
    key ∈ (ofList pairs).map (·.1) ↔ key ∈ pairs.map (·.1) :=
  mem_keys_keepLast.trans ((List.mergeSort_perm pairs notAfter).map _).mem_iff

theorem lookup_keepLast (key : String) {entries : List (String × α)}
    (h : entries.Pairwise fun a b => notAfter a b) :
    (keepLast entries).lookup key =
      (entries.filter fun entry => entry.1 == key).getLast?.map (·.2) := by
  fun_induction keepLast entries with
  | case1 => rfl
  | case2 first =>
    obtain ⟨k, v⟩ := first
    by_cases hk : key = k
    · simp [hk]
    · rw [lookup_cons_of_ne hk]
      simp [Ne.symm hk]
  | case3 first next rest heq ih =>
    rw [ih h.tail]
    by_cases hk : next.1 = key
    · simp [heq, hk]
    · simp [heq, hk]
  | case4 first next rest hne ih =>
    obtain ⟨k, v⟩ := first
    by_cases hk : key = k
    · subst hk
      have hrest : (next :: rest).filter (fun entry => entry.1 == key) = [] := by
        refine List.filter_eq_nil_iff.2 fun entry hentry heq => ?_
        have hlt := lt_of_mem_of_ne h hne hentry
        rw [beq_iff_eq.1 heq] at hlt
        exact String.lt_irrefl key hlt
      have hfilter : ((key, v) :: next :: rest).filter (fun entry => entry.1 == key) =
          (key, v) :: (next :: rest).filter fun entry => entry.1 == key :=
        List.filter_cons_of_pos (by simp)
      rw [hfilter, hrest]
      simp
    · have hfilter : ((k, v) :: next :: rest).filter (fun entry => entry.1 == key) =
          (next :: rest).filter fun entry => entry.1 == key :=
        List.filter_cons_of_neg (by simpa using Ne.symm hk)
      rw [lookup_cons_of_ne hk, ih h.tail, hfilter]

/-- Sorting keeps the order of the pairs with one key. -/
theorem filter_mergeSort (key : String) (pairs : List (String × α)) :
    (pairs.mergeSort notAfter).filter (fun pair => pair.1 == key) =
      pairs.filter fun pair => pair.1 == key := by
  have hsame : (pairs.filter fun pair => pair.1 == key).Pairwise fun a b => notAfter a b := by
    refine List.Pairwise.imp_of_mem (fun {a b} ha hb _ => ?_)
      (List.pairwise_of_forall fun _ _ => trivial)
    have ha : a.1 = key := beq_iff_eq.1 (List.mem_filter.1 ha).2
    have hb : b.1 = key := beq_iff_eq.1 (List.mem_filter.1 hb).2
    exact notAfter_iff.2 (ha.trans hb.symm ▸ String.le_refl a.1)
  have hsub := (List.sublist_mergeSort notAfter_trans notAfter_total hsame
    List.filter_sublist).filter fun pair => pair.1 == key
  rw [List.filter_filter] at hsub
  simp only [Bool.and_self] at hsub
  exact (hsub.eq_of_length (((List.mergeSort_perm pairs notAfter).filter _).length_eq).symm).symm

theorem lookup_ofList (key : String) (pairs : List (String × α)) :
    (ofList pairs).lookup key = (pairs.filter fun pair => pair.1 == key).getLast?.map (·.2) := by
  unfold ofList
  rw [lookup_keepLast key (List.pairwise_mergeSort notAfter_trans notAfter_total pairs),
    filter_mergeSort]

end Entries

/-- A finite map from names to values. -/
structure Table (α : Type) where
  entries : List (String × α)
  sorted : Entries.Sorted entries

namespace Table

variable {α : Type}

instance : EmptyCollection (Table α) := ⟨⟨[], List.Pairwise.nil⟩⟩

def get? (table : Table α) (key : String) : Option α := table.entries.lookup key

def insert (key : String) (value : α) (table : Table α) : Table α :=
  ⟨Entries.insert key value table.entries, Entries.sorted_insert table.sorted⟩

def erase (key : String) (table : Table α) : Table α :=
  ⟨Entries.erase key table.entries, Entries.sorted_erase table.sorted⟩

def size (table : Table α) : Nat := table.entries.length

def isEmpty (table : Table α) : Bool := table.entries.isEmpty

/-- The table of a list of pairs. Of pairs with one key the last counts. -/
def ofList (pairs : List (String × α)) : Table α :=
  ⟨Entries.ofList pairs, Entries.sorted_ofList pairs⟩

/-- Entries over a table, which shows only where a key is not among them. -/
def overlay (entries : List (String × α)) (below : Table α) : Table α :=
  entries.foldr (fun entry => insert entry.1 entry.2) below

/-- The table of entries as they are looked up. -/
def ofEntries (entries : List (String × α)) : Table α := overlay entries ∅

@[simp] theorem entries_insert (key : String) (value : α) (table : Table α) :
    (table.insert key value).entries = Entries.insert key value table.entries := rfl

@[simp] theorem get?_empty (key : String) : (∅ : Table α).get? key = none := rfl

@[simp] theorem get?_insert_self (key : String) (value : α) (table : Table α) :
    (table.insert key value).get? key = some value :=
  Entries.lookup_insert_self key value table.entries

theorem get?_insert_of_ne {key other : String} (h : other ≠ key) (value : α) (table : Table α) :
    (table.insert key value).get? other = table.get? other :=
  Entries.lookup_insert_of_ne h value table.entries

@[simp] theorem get?_erase_self (key : String) (table : Table α) :
    (table.erase key).get? key = none :=
  Entries.lookup_erase_self key table.entries

theorem get?_erase_of_ne {key other : String} (h : other ≠ key) (table : Table α) :
    (table.erase key).get? other = table.get? other :=
  Entries.lookup_erase_of_ne h table.entries

/-- The value of a key is that of the last pair with it. -/
theorem get?_ofList (pairs : List (String × α)) (key : String) :
    (ofList pairs).get? key = (pairs.filter fun pair => pair.1 == key).getLast?.map (·.2) :=
  Entries.lookup_ofList key pairs

theorem get?_overlay (entries : List (String × α)) (below : Table α) (key : String) :
    (overlay entries below).get? key = (entries.lookup key).or (below.get? key) := by
  induction entries with
  | nil => rfl
  | cons entry entries ih =>
    obtain ⟨first, value⟩ := entry
    rw [overlay, List.foldr_cons]
    by_cases h : key = first
    · rw [h, get?_insert_self, List.lookup_cons_self, Option.some_or]
    · rw [get?_insert_of_ne h, Entries.lookup_cons_of_ne h]
      exact ih

@[simp] theorem get?_ofEntries (entries : List (String × α)) (key : String) :
    (ofEntries entries).get? key = entries.lookup key := by
  rw [ofEntries, get?_overlay, get?_empty, Option.or_none]

/-- Entries that are in order already are those of their table. -/
theorem entries_ofEntries {entries : List (String × α)} (h : Entries.Sorted entries) :
    (ofEntries entries).entries = entries := by
  induction entries with
  | nil => rfl
  | cons entry entries ih =>
    have hrest : (overlay entries (∅ : Table α)).entries = entries := ih h.tail
    rw [ofEntries, overlay, List.foldr_cons, entries_insert, ← overlay, hrest]
    cases entries with
    | nil => rfl
    | cons next rest =>
      have hlt : entry.1 < next.1 := List.rel_of_pairwise_cons h List.mem_cons_self
      rw [Entries.insert, if_pos hlt]

end Table
end Splice
