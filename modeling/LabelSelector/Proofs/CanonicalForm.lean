/-
LabelSelector.Proofs.CanonicalForm — a selector is the multiset of its requirements.

The order in which a selector keeps its requirements is spelled out in `Precedes`: by key, on one
key by the place of the operator, with one operator by the ascending lists of values. The
comparison of requirements is this order (`le_iff_precedes`), and it leaves no two different
requirements tied. So sorting forgets the order of a list and nothing else (`sort_eq_sort_iff`),
and with it everything about selectors made from lists or added to comes down to permutations:
two are equal when their lists are permutations of each other, and adding one list after another
is adding both at once.
-/
import LabelSelector.Selector
import Mathlib.Data.String.Basic

namespace LabelSelector

/-! ## 1. The order of requirements -/

/-- Lists of texts are compared as dictionaries do. -/
theorem compare_texts_eq_lt {a b : List String} : compare a b = .lt ↔ a < b := by
  induction a generalizing b with
  | nil =>
    cases b with
    | nil => simp
    | cons y ys => simp
  | cons x xs ih =>
    cases b with
    | nil => simp
    | cons y ys =>
      rw [List.compare_eq_compareLex, List.compareLex_cons_cons, Ordering.then_eq_lt,
        List.cons_lt_cons_iff, compare_lt_iff_lt, Std.LawfulEqOrd.compare_eq_iff_eq,
        ← List.compare_eq_compareLex, ih]

namespace Requirement

/-- A requirement stands before another or is the same: its key is less, or on the same key its
operator is declared earlier, or with the same operator its list of values is not greater. -/
def Precedes (a b : Requirement) : Prop :=
  a.key < b.key ∨ a.key = b.key ∧
    (a.operator.rank < b.operator.rank ∨ a.operator = b.operator ∧
      (a.values.toList < b.values.toList ∨ a.values = b.values))

theorem le_iff_precedes {a b : Requirement} : a.le b = true ↔ Precedes a b := by
  have hkey : compareOn key a b = .lt ↔ a.key < b.key := compare_lt_iff_lt
  have hkeys : compareOn key a b = .eq ↔ a.key = b.key := Std.LawfulEqOrd.compare_eq_iff_eq
  have hrank : compareOn operator a b = .lt ↔ a.operator.rank < b.operator.rank :=
    Nat.compare_eq_lt
  have hops : compareOn operator a b = .eq ↔ a.operator = b.operator :=
    Std.LawfulEqOrd.compare_eq_iff_eq
  have hvalues : (compareOn values a b).isLE = true ↔
      a.values.toList < b.values.toList ∨ a.values = b.values := by
    rw [Ordering.isLE_iff_eq_lt_or_eq_eq]
    exact or_congr compare_texts_eq_lt Std.LawfulEqOrd.compare_eq_iff_eq
  change (compareLex (compareOn key) (compareLex (compareOn operator) (compareOn values)) a
    b).isLE = true ↔ _
  rw [compareLex, Ordering.isLE_then_iff_or, compareLex, Ordering.isLE_then_iff_or, hkey, hkeys,
    hrank, hops, hvalues, Precedes]

theorem sorted_iff_pairwise_precedes {requirements : List Requirement} :
    Sorted requirements ↔ requirements.Pairwise Precedes := by
  simp only [Sorted, le_iff_precedes]

/-- Sorting forgets the order of a list, and nothing else. -/
theorem sort_eq_sort_iff {a b : List Requirement} : sort a = sort b ↔ a.Perm b := by
  constructor
  · intro h
    exact (sort_perm a).symm.trans (h ▸ sort_perm b)
  · intro h
    apply eq_of_perm_of_sorted (sort_sorted a) (sort_sorted b)
    exact (sort_perm a).trans (h.trans (sort_perm b).symm)

end Requirement

/-! ## 2. Selectors -/

namespace Selector

variable {a b : List Requirement}

theorem ofRequirements_inj : ofRequirements a = ofRequirements b ↔ a.Perm b := by
  rw [ofRequirements, ofRequirements, all.injEq, Requirement.sort_eq_sort_iff]

/-- A selector does not depend on the order in which its requirements are given. -/
theorem ofRequirements_congr (h : a.Perm b) : ofRequirements a = ofRequirements b :=
  ofRequirements_inj.2 h

/-- Adding to a selector is making one of all the requirements together. -/
theorem add_ofRequirements (a b : List Requirement) :
    (ofRequirements a).add b = ofRequirements (a ++ b) :=
  ofRequirements_congr ((Requirement.sort_perm a).append_right b)

theorem ofRequirements_add (a b : List Requirement) :
    (ofRequirements a).add (ofRequirements b).requirements = ofRequirements (a ++ b) := by
  rw [add_ofRequirements]
  exact ofRequirements_congr ((Requirement.sort_perm b).append_left a)

/-- A selector other than `nothing` is made of its own requirements. -/
theorem ofRequirements_requirements {selector : Selector} (h : selector ≠ .nothing) :
    ofRequirements selector.requirements = selector := by
  cases selector with
  | all kept sorted =>
    rw [ofRequirements, all.injEq]
    exact Requirement.sort_of_sorted sorted
  | nothing => exact absurd rfl h

/-- What is added in two steps can be added in one. -/
theorem add_add (selector : Selector) (a b : List Requirement) :
    (selector.add a).add b = selector.add (a ++ b) := by
  cases selector with
  | all kept sorted =>
    show (ofRequirements (kept ++ a)).add b = ofRequirements (kept ++ (a ++ b))
    rw [add_ofRequirements, List.append_assoc]
  | nothing => rfl

/-- What is added may come in any order. -/
theorem add_congr (selector : Selector) (h : a.Perm b) : selector.add a = selector.add b := by
  cases selector with
  | all kept sorted => exact ofRequirements_congr (h.append_left kept)
  | nothing => rfl

/-- A selector is the multiset of its requirements: selectors made from two lists are equal when
the lists are permutations of each other, the requirements kept are those given, in ascending
order, and adding is putting lists together, in any order and any number of steps. -/
theorem ofRequirements_eq_iff_perm (a b : List Requirement) :
    (ofRequirements a = ofRequirements b ↔ b.Perm a) ∧
      ((ofRequirements a).requirements.Perm a ∧
        (ofRequirements a).requirements.Pairwise Requirement.Precedes) ∧
      (∀ selector : Selector, (selector.add a).add b = (selector.add b).add a ∧
        (selector.add a).add b = selector.add (a ++ b)) ∧
      (ofRequirements a).add b = ofRequirements (a ++ b) := by
  refine ⟨?_, ⟨Requirement.sort_perm a, ?_⟩, ?_, add_ofRequirements a b⟩
  · rw [ofRequirements_inj, List.perm_comm]
  · exact Requirement.sorted_iff_pairwise_precedes.1 (Requirement.sort_sorted a)
  · intro selector
    refine ⟨?_, add_add selector a b⟩
    rw [add_add, add_add]
    exact add_congr selector List.perm_append_comm

end Selector

end LabelSelector
