/-
LabelSelector.LabelMap — the labels that a selector is asked about.

A label map takes finitely many keys to one value each. It is held as the pairs it was built from,
the newest first, so that a later pair for a key hides an earlier one (`get?_insert`).
-/
namespace LabelSelector

/-- A finite map from keys to values. -/
structure LabelMap where
  /-- The pairs put in, newest first; of those with one key the first counts. -/
  newestFirst : List (String × String)
  deriving Repr

namespace LabelMap

/-- The map without labels. -/
def empty : LabelMap :=
  ⟨[]⟩

/-- The map in which a key has a value, whatever it had before. -/
def insert (labels : LabelMap) (key value : String) : LabelMap :=
  ⟨(key, value) :: labels.newestFirst⟩

/-- The map of the pairs in a list, of which the last with a key counts. -/
def ofList (pairs : List (String × String)) : LabelMap :=
  pairs.foldl (fun labels pair => labels.insert pair.1 pair.2) empty

/-- The value of a key, if it has one. -/
def get? (labels : LabelMap) (key : String) : Option String :=
  labels.newestFirst.lookup key

/-- Whether a key has a value. -/
def has (labels : LabelMap) (key : String) : Bool :=
  (labels.get? key).isSome

/-! ## Looking up -/

@[simp] theorem get?_empty (key : String) : empty.get? key = none :=
  rfl

/-- A key has the value put in last. -/
theorem get?_insert (labels : LabelMap) (key value other : String) :
    (labels.insert key value).get? other =
      if other = key then some value else labels.get? other := by
  by_cases h : other = key
  · simp [get?, insert, h]
  · have : (other == key) = false := by simpa using h
    simp [get?, insert, List.lookup_cons, this, h]

@[simp] theorem get?_insert_self (labels : LabelMap) (key value : String) :
    (labels.insert key value).get? key = some value := by
  simp [get?_insert]

/-! ## Maps made from lists -/

variable {pairs : List (String × String)} {key value : String}

/-- No key is paired with two different values. -/
def Consistent (pairs : List (String × String)) : Prop :=
  ∀ key a b, (key, a) ∈ pairs → (key, b) ∈ pairs → a = b

theorem newestFirst_foldl_insert (pairs : List (String × String)) (labels : LabelMap) :
    (pairs.foldl (fun labels pair => labels.insert pair.1 pair.2) labels).newestFirst =
      pairs.reverse ++ labels.newestFirst := by
  induction pairs generalizing labels with
  | nil => rfl
  | cons pair rest ih =>
    rw [List.foldl_cons, ih, insert, List.reverse_cons, List.append_assoc, List.singleton_append]

/-- Of the pairs for a key the last one is found. -/
theorem get?_ofList (pairs : List (String × String)) (key : String) :
    (ofList pairs).get? key = pairs.reverse.lookup key := by
  rw [get?, ofList, newestFirst_foldl_insert, empty, List.append_nil]

/-- Where no two pairs for a key differ, every pair is found. -/
theorem get?_ofList_of_mem (consistent : Consistent pairs) (hmem : (key, value) ∈ pairs) :
    (ofList pairs).get? key = some value := by
  rw [get?_ofList]
  cases hfound : pairs.reverse.lookup key with
  | none =>
    have := List.lookup_eq_none_iff.1 hfound (key, value) (List.mem_reverse.2 hmem)
    simp at this
  | some found =>
    obtain ⟨before, after, hpairs, _⟩ := List.lookup_eq_some_iff.1 hfound
    have hfound' : (key, found) ∈ pairs.reverse := by simp [hpairs]
    rw [consistent key found value (List.mem_reverse.1 hfound') hmem]

theorem get?_ofList_eq_some_iff (consistent : Consistent pairs) :
    (ofList pairs).get? key = some value ↔ (key, value) ∈ pairs := by
  refine ⟨fun h => ?_, get?_ofList_of_mem consistent⟩
  rw [get?_ofList] at h
  obtain ⟨before, after, hpairs, _⟩ := List.lookup_eq_some_iff.1 h
  rw [← List.mem_reverse, hpairs]
  simp

end LabelMap

end LabelSelector
