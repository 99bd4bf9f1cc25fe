/-
LabelSelector.ValueSet — the values a requirement names, as a set.

A set is its list of members in strictly ascending order. The order is in the type, so two sets
with the same members are equal (`ext`), and comparing, listing and printing sets need no choice.
Texts are ordered by their code points, which is the order of their UTF-8 bytes.
-/
namespace LabelSelector

/-- A finite set of texts. -/
structure ValueSet where
  /-- The members in ascending order. -/
  toList : List String
  sorted : toList.Pairwise (· < ·)
  deriving DecidableEq

namespace ValueSet

instance : Membership String ValueSet :=
  ⟨fun set value => value ∈ set.toList⟩

/-- Membership is membership in the list of members. -/
theorem mem_def {set : ValueSet} {value : String} : value ∈ set ↔ value ∈ set.toList :=
  Iff.rfl

instance (value : String) (set : ValueSet) : Decidable (value ∈ set) :=
  inferInstanceAs (Decidable (value ∈ set.toList))

instance : Repr ValueSet :=
  ⟨fun set => reprPrec set.toList⟩

/-- Whether a value is a member. -/
def contains (set : ValueSet) (value : String) : Bool :=
  set.toList.contains value

/-- The number of members. -/
def size (set : ValueSet) : Nat :=
  set.toList.length

/-- The set without members. -/
def empty : ValueSet :=
  { toList := [], sorted := .nil }

/-- Whether a set is without members. -/
def isEmpty (set : ValueSet) : Bool :=
  set.toList.isEmpty

/-- The set of one value. -/
def singleton (value : String) : ValueSet :=
  { toList := [value], sorted := List.pairwise_singleton _ _ }

/-! ## Insertion -/

/-- Puts a value into its place in an ascending list, unless it is there already. -/
def insertInto (value : String) : List String → List String
  | [] => [value]
  | first :: rest =>
    if value < first then value :: first :: rest
    else if value = first then first :: rest
    else first :: insertInto value rest

/-- Insertion adds the value and nothing else. -/
theorem mem_insertInto {value other : String} {list : List String} :
    other ∈ insertInto value list ↔ other = value ∨ other ∈ list := by
  induction list with
  | nil => simp [insertInto]
  | cons first rest ih =>
    simp only [insertInto]
    split
    · simp
    · split
      · rename_i h
        subst h
        simp
      · simp only [List.mem_cons, ih]
        exact or_left_comm

/-- Insertion keeps a list strictly ascending. -/
theorem insertInto_sorted {value : String} {list : List String} (h : list.Pairwise (· < ·)) :
    (insertInto value list).Pairwise (· < ·) := by
  induction list with
  | nil => simp [insertInto]
  | cons first rest ih =>
    simp only [List.pairwise_cons] at h
    simp only [insertInto]
    split
    · rename_i before
      simp only [List.pairwise_cons, List.mem_cons]
      refine ⟨?_, h⟩
      rintro other (rfl | member)
      · exact before
      · exact String.lt_trans before (h.1 other member)
    · split
      · exact List.pairwise_cons.2 h
      · rename_i notBefore distinct
        simp only [List.pairwise_cons, mem_insertInto]
        refine ⟨?_, ih h.2⟩
        rintro other (rfl | member)
        · have after : first ≤ other := String.not_lt.1 notBefore
          exact String.not_le.1 fun le => distinct (String.le_antisymm le after)
        · exact h.1 other member

/-- A set with one more member. -/
def insert (set : ValueSet) (value : String) : ValueSet :=
  { toList := insertInto value set.toList, sorted := insertInto_sorted set.sorted }

/-- The set of the values in a list, in any order and with any repetition. -/
def ofList (values : List String) : ValueSet :=
  values.foldl insert empty

/-! ## Members -/

@[simp] theorem mem_empty {value : String} : value ∈ empty ↔ False := by
  simp [mem_def, empty]

@[simp] theorem mem_singleton {value other : String} :
    other ∈ singleton value ↔ other = value := by
  simp [mem_def, singleton]

@[simp] theorem singleton_inj {value other : String} :
    singleton value = singleton other ↔ value = other := by
  simp [singleton]

@[simp] theorem mem_insert {set : ValueSet} {value other : String} :
    other ∈ set.insert value ↔ other = value ∨ other ∈ set := by
  simp [mem_def, insert, mem_insertInto]

/-- Members of a set built up from another are the members of both. -/
theorem mem_foldl_insert {values : List String} {set : ValueSet} {value : String} :
    value ∈ values.foldl insert set ↔ value ∈ values ∨ value ∈ set := by
  induction values generalizing set with
  | nil => simp
  | cons first rest ih => simp [ih, or_assoc, or_left_comm]

@[simp] theorem mem_ofList {values : List String} {value : String} :
    value ∈ ofList values ↔ value ∈ values := by
  simp [ofList, mem_foldl_insert]

/-- The empty set is the one without members. -/
theorem isEmpty_iff {set : ValueSet} : set.isEmpty = true ↔ ∀ value, value ∉ set := by
  simp [isEmpty, mem_def, List.eq_nil_iff_forall_not_mem]

theorem isEmpty_eq_false_of_mem {set : ValueSet} {value : String} (h : value ∈ set) :
    set.isEmpty = false :=
  Bool.eq_false_iff.2 fun hempty => isEmpty_iff.1 hempty value h

theorem isEmpty_insert (set : ValueSet) (value : String) : (set.insert value).isEmpty = false :=
  isEmpty_eq_false_of_mem (mem_insert.2 (.inl rfl))

@[simp] theorem contains_iff {set : ValueSet} {value : String} :
    set.contains value = true ↔ value ∈ set := by
  simp [contains, mem_def]

/-! ## Extensionality -/

/-- A set lists no member twice. -/
theorem nodup_toList (set : ValueSet) : set.toList.Nodup :=
  set.sorted.imp fun before => String.ne_of_lt before

/-- Sets with the same members are equal. -/
@[ext] theorem ext {a b : ValueSet} (h : ∀ value, value ∈ a ↔ value ∈ b) : a = b := by
  have lists : a.toList.Perm b.toList :=
    (List.perm_ext_iff_of_nodup a.nodup_toList b.nodup_toList).2 h
  have same : a.toList = b.toList :=
    lists.eq_of_pairwise (fun _ _ _ _ before after => absurd after (String.lt_asymm before))
      a.sorted b.sorted
  cases a
  cases b
  cases same
  rfl

/-- The set of a set's members is the set. -/
@[simp] theorem ofList_toList (set : ValueSet) : ofList set.toList = set :=
  ext fun _ => mem_ofList

/-! ## Order -/

/-- Sets are ordered as their lists of members are, lexicographically. -/
instance : Ord ValueSet :=
  ⟨compareOn toList⟩

instance : Std.TransOrd ValueSet :=
  inferInstanceAs (Std.TransCmp (compareOn toList))

/-- Sets that compare equal are equal. -/
theorem eq_of_compare {a b : ValueSet} (h : compare a b = .eq) : a = b := by
  obtain ⟨as, _⟩ := a
  obtain ⟨bs, _⟩ := b
  have : as = bs := Std.LawfulEqOrd.eq_of_compare h
  subst this
  rfl

instance : Std.LawfulEqOrd ValueSet where
  eq_of_compare := eq_of_compare

end ValueSet

end LabelSelector
