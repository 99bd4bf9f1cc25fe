/-
LabelSelector.Requirement.Order — the order in which a selector keeps its requirements.

Requirements are ordered by key, then by operator, then by values. The order is total, and
requirements that it does not tell apart are equal (`eq_of_compare`), so a list of requirements has
one sorted form only, whatever order it is given in (`eq_of_perm_of_sorted`).
-/
import LabelSelector.Requirement

namespace LabelSelector

namespace Requirement

instance : Ord Requirement :=
  ⟨compareLex (compareOn key) (compareLex (compareOn operator) (compareOn values))⟩

instance : Std.TransOrd Requirement :=
  inferInstanceAs (Std.TransCmp
    (compareLex (compareOn key) (compareLex (compareOn operator) (compareOn values))))

/-- Requirements that compare equal are equal. -/
theorem eq_of_compare {a b : Requirement} (h : compare a b = .eq) : a = b := by
  change compareLex (compareOn key) (compareLex (compareOn operator) (compareOn values)) a b = .eq
    at h
  simp only [compareLex, Ordering.then_eq_eq] at h
  obtain ⟨hk, ho, hv⟩ := h
  exact ext (Std.LawfulEqOrd.eq_of_compare hk) (Operator.eq_of_compare ho)
    (ValueSet.eq_of_compare hv)

instance : Std.LawfulEqOrd Requirement where
  eq_of_compare := eq_of_compare

/-- A requirement may stand before another that is not less. -/
def le (a b : Requirement) : Bool :=
  (compare a b).isLE

/-- The order is transitive. -/
theorem le_trans {a b c : Requirement} (hab : a.le b = true) (hbc : b.le c = true) :
    a.le c = true :=
  Std.TransCmp.isLE_trans hab hbc

/-- Of two requirements one may stand before the other. -/
theorem le_total (a b : Requirement) : (a.le b || b.le a) = true := by
  have swapped : compare b a = (compare a b).swap := Std.OrientedCmp.eq_swap
  unfold le
  rw [swapped]
  cases compare a b <;> rfl

/-- Requirements that may stand in either order are equal. -/
theorem le_antisymm {a b : Requirement} (hab : a.le b = true) (hba : b.le a = true) : a = b :=
  eq_of_compare (Std.OrientedCmp.isLE_antisymm hab hba)

/-! ## Sorting -/

/-- Some requirements in ascending order, duplicates kept. -/
def sort (requirements : List Requirement) : List Requirement :=
  requirements.mergeSort le

/-- Every requirement of a list may stand before those that follow it. -/
def Sorted (requirements : List Requirement) : Prop :=
  requirements.Pairwise fun a b => a.le b = true

/-- Sorting sorts. -/
theorem sort_sorted (requirements : List Requirement) : Sorted (sort requirements) := by
  apply List.pairwise_mergeSort
  · intro a b c hab hbc
    exact le_trans hab hbc
  · intro a b
    exact le_total a b

/-- Sorting neither adds nor drops a requirement. -/
theorem sort_perm (requirements : List Requirement) : (sort requirements).Perm requirements :=
  List.mergeSort_perm _ _

@[simp] theorem mem_sort {requirement : Requirement} {requirements : List Requirement} :
    requirement ∈ sort requirements ↔ requirement ∈ requirements :=
  (sort_perm requirements).mem_iff

/-- Sorting leaves a sorted list as it is. -/
theorem sort_of_sorted {requirements : List Requirement} (h : Sorted requirements) :
    sort requirements = requirements :=
  List.mergeSort_of_pairwise h

/-- Sorted lists of the same requirements are equal. -/
theorem eq_of_perm_of_sorted {a b : List Requirement} (ha : Sorted a) (hb : Sorted b)
    (h : a.Perm b) : a = b :=
  List.Perm.eq_of_pairwise (fun _ _ _ _ hab hba => le_antisymm hab hba) ha hb h

end Requirement

end LabelSelector
