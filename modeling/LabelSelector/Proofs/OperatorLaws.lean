/-
LabelSelector.Proofs.OperatorLaws — how the operators are related to each other.

What a label map says to a key, an operator and values (`judge`) is worked out once for each way in
which an operator looks at its key: membership, exclusion, presence and absence. An equality is
membership in a set of one value, and its opposite is exclusion from one (`judge_equality`,
`judge_notEquals`), so there is nothing further to say about those.

The relations follow from two cases. A key that is not there is in no set, and so it is excluded
from every set; a key that is there is in a set or excluded from it, and its value may be the empty
text, which is a value like any other.
-/
import LabelSelector.Proofs.Grammar
import LabelSelector.Requirement.Satisfaction

namespace LabelSelector

open Text

/-! ## 1. Sets of values -/

namespace ValueSet

variable {a b : ValueSet} {value : String}

/-- The values that are in one of two sets. -/
def union (a b : ValueSet) : ValueSet :=
  ofList (a.toList ++ b.toList)

instance : Union ValueSet :=
  ⟨union⟩

@[simp] theorem mem_union : value ∈ a ∪ b ↔ value ∈ a ∨ value ∈ b := by
  show value ∈ ofList (a.toList ++ b.toList) ↔ _
  rw [mem_ofList, List.mem_append, ← mem_def, ← mem_def]

theorem contains_union : (a ∪ b).contains value = (a.contains value || b.contains value) := by
  rw [Bool.eq_iff_iff, Bool.or_eq_true, contains_iff, contains_iff, contains_iff, mem_union]

/-- A set of one or more texts, each of which can be a value. -/
structure Choice (set : ValueSet) : Prop where
  nonempty : ∃ value, value ∈ set
  valid : ∀ value ∈ set, isIdentifier value = true

theorem Choice.singleton (hv : isIdentifier value = true) : Choice (.singleton value) := by
  refine ⟨⟨value, mem_singleton.2 rfl⟩, fun other hmem => ?_⟩
  rw [mem_singleton.1 hmem, hv]

theorem Choice.isEmpty_eq_false (h : Choice a) : a.isEmpty = false := by
  obtain ⟨value, hmem⟩ := h.nonempty
  exact isEmpty_eq_false_of_mem hmem

theorem Choice.union (ha : Choice a) (hb : Choice b) : Choice (a ∪ b) := by
  obtain ⟨value, hmem⟩ := ha.nonempty
  refine ⟨⟨value, mem_union.2 (.inl hmem)⟩, fun other hother => ?_⟩
  rcases mem_union.1 hother with hother | hother
  · exact ha.valid other hother
  · exact hb.valid other hother

end ValueSet

/-! ## 2. What a label map says -/

namespace LabelMap

open Requirement Grammar

variable {labels : LabelMap} {key value : String} {operator : Operator}
  {values more : ValueSet}

/-- Whether a label map satisfies the requirement of a key, an operator and values, or what is wrong
with them. -/
def judge (labels : LabelMap) (key : String) (operator : Operator) (values : ValueSet) :
    Except Fault Bool :=
  (build key operator values).map fun requirement => requirement.satisfiedBy labels

theorem judge_of_sound (h : fault? key operator values = none) :
    labels.judge key operator values =
      .ok ((⟨key, operator, values, h⟩ : Requirement).satisfiedBy labels) := by
  have hbuild : build key operator values = .ok ⟨key, operator, values, h⟩ :=
    build_eq_ok_iff.2 ⟨rfl, rfl, rfl⟩
  rw [judge, hbuild]
  rfl

/-- Membership holds of a key that is there with one of the values. -/
theorem judge_isIn (hk : key ≠ "" ∧ isIdentifier key = true) (hv : values.Choice) :
    labels.judge key .isIn values = .ok ((labels.get? key).any values.contains) :=
  judge_of_sound (fault?_eq_none hk hv.valid (fault?_of_membership .isIn hv.isEmpty_eq_false))

/-- Exclusion holds of a key that is not there or has none of the values. -/
theorem judge_notIn (hk : key ≠ "" ∧ isIdentifier key = true) (hv : values.Choice) :
    labels.judge key .notIn values =
      .ok ((labels.get? key).all fun value => !values.contains value) :=
  judge_of_sound (fault?_eq_none hk hv.valid (fault?_of_membership .notIn hv.isEmpty_eq_false))

theorem judge_present (hk : key ≠ "" ∧ isIdentifier key = true) :
    labels.judge key .present .empty = .ok (labels.has key) :=
  judge_of_sound (fault?_eq_none hk (by simp) rfl)

theorem judge_absent (hk : key ≠ "" ∧ isIdentifier key = true) :
    labels.judge key .absent .empty = .ok (!labels.has key) :=
  judge_of_sound (fault?_eq_none hk (by simp) rfl)

/-- Equality is membership in a set of one value, with either sign. -/
theorem judge_equality (hk : key ≠ "" ∧ isIdentifier key = true)
    (hv : isIdentifier value = true) (ho : operator = .equals ∨ operator = .doubleEquals) :
    labels.judge key operator (.singleton value) =
      labels.judge key .isIn (.singleton value) := by
  have hchoice := ValueSet.Choice.singleton hv
  rw [judge_isIn hk hchoice]
  rcases ho with rfl | rfl
  · exact judge_of_sound (fault?_eq_none hk hchoice.valid
      (fault?_singleton_of_equality value .equals))
  · exact judge_of_sound (fault?_eq_none hk hchoice.valid
      (fault?_singleton_of_equality value .doubleEquals))

/-- The opposite of equality is exclusion from a set of one value. -/
theorem judge_notEquals (hk : key ≠ "" ∧ isIdentifier key = true)
    (hv : isIdentifier value = true) : labels.judge key .notEquals (.singleton value) =
      labels.judge key .notIn (.singleton value) := by
  have hchoice := ValueSet.Choice.singleton hv
  rw [judge_notIn hk hchoice]
  exact judge_of_sound (fault?_eq_none hk hchoice.valid
    (fault?_singleton_of_equality value .notEquals))

/-! ## 3. Membership and exclusion -/

theorem judge_isIn_iff (hk : key ≠ "" ∧ isIdentifier key = true) (hv : values.Choice) :
    labels.judge key .isIn values = .ok true ↔
      ∃ value, labels.get? key = some value ∧ value ∈ values := by
  simp [judge_isIn hk hv, Option.any_eq_true]

theorem judge_notIn_iff (hk : key ≠ "" ∧ isIdentifier key = true) (hv : values.Choice) :
    labels.judge key .notIn values = .ok true ↔
      ∀ value, labels.get? key = some value → value ∉ values := by
  simp [judge_notIn hk hv, Option.all_eq_true, ← ValueSet.contains_iff]

/-- Of membership and exclusion one holds and the other does not. -/
theorem exists_judge_opposite (labels : LabelMap) (hk : key ≠ "" ∧ isIdentifier key = true)
    (hv : values.Choice) : ∃ answer, labels.judge key .isIn values = .ok answer ∧
      labels.judge key .notIn values = .ok (!answer) := by
  refine ⟨_, judge_isIn hk hv, ?_⟩
  rw [judge_notIn hk hv]
  cases labels.get? key with
  | none => rfl
  | some actual => rfl

theorem judge_notIn_eq_false_iff (hk : key ≠ "" ∧ isIdentifier key = true)
    (hv : values.Choice) : labels.judge key .notIn values = .ok false ↔
      labels.judge key .isIn values = .ok true := by
  obtain ⟨answer, hin, hout⟩ := exists_judge_opposite labels hk hv
  rw [hin, hout]
  cases answer <;> simp

/-- Membership is equality with one of the values. -/
theorem judge_isIn_iff_exists (hk : key ≠ "" ∧ isIdentifier key = true) (hv : values.Choice) :
    labels.judge key .isIn values = .ok true ↔
      ∃ value ∈ values, labels.judge key .equals (.singleton value) = .ok true := by
  have hequals : ∀ value ∈ values, (labels.judge key .equals (.singleton value) = .ok true ↔
      labels.get? key = some value) := by
    intro value hmem
    have hvalid := hv.valid value hmem
    rw [judge_equality hk hvalid (.inl rfl), judge_isIn_iff hk (.singleton hvalid)]
    simp
  rw [judge_isIn_iff hk hv]
  constructor
  · intro ⟨value, hget, hmem⟩
    exact ⟨value, hmem, (hequals value hmem).2 hget⟩
  · intro ⟨value, hmem, hs⟩
    exact ⟨value, (hequals value hmem).1 hs, hmem⟩

/-- Exclusion is the opposite of equality with each of the values. -/
theorem judge_notIn_iff_forall (hk : key ≠ "" ∧ isIdentifier key = true) (hv : values.Choice) :
    labels.judge key .notIn values = .ok true ↔
      ∀ value ∈ values, labels.judge key .notEquals (.singleton value) = .ok true := by
  have hother : ∀ value ∈ values, (labels.judge key .notEquals (.singleton value) = .ok true ↔
      labels.get? key ≠ some value) := by
    intro value hmem
    have hvalid := hv.valid value hmem
    rw [judge_notEquals hk hvalid, judge_notIn_iff hk (.singleton hvalid)]
    simp only [ValueSet.mem_singleton]
    exact ⟨fun hno hget => hno value hget rfl, fun hne _ hget heq => hne (heq ▸ hget)⟩
  rw [judge_notIn_iff hk hv]
  constructor
  · intro hno value hmem
    exact (hother value hmem).2 fun hget => hno value hget hmem
  · intro hall value hget hmem
    exact (hother value hmem).1 (hall value hmem) hget

/-- Membership in two sets taken together is membership in one of them. -/
theorem judge_isIn_union (hk : key ≠ "" ∧ isIdentifier key = true) (hv : values.Choice)
    (hm : more.Choice) : ∃ one other, labels.judge key .isIn values = .ok one ∧
      labels.judge key .isIn more = .ok other ∧
      labels.judge key .isIn (values ∪ more) = .ok (one || other) := by
  refine ⟨_, _, judge_isIn hk hv, judge_isIn hk hm, ?_⟩
  rw [judge_isIn hk (hv.union hm)]
  cases labels.get? key with
  | none => rfl
  | some actual => simp [ValueSet.contains_union]

/-- Membership in a larger set holds of all that membership in the smaller one holds of. -/
theorem judge_isIn_of_subset (hk : key ≠ "" ∧ isIdentifier key = true) (hv : values.Choice)
    (hm : more.Choice) (hsub : ∀ value ∈ values, value ∈ more)
    (h : labels.judge key .isIn values = .ok true) : labels.judge key .isIn more = .ok true := by
  obtain ⟨value, hget, hmem⟩ := (judge_isIn_iff hk hv).1 h
  exact (judge_isIn_iff hk hm).2 ⟨value, hget, hsub value hmem⟩

/-- Exclusion from a larger set holds of nothing that exclusion from the smaller one does not hold
of. -/
theorem judge_notIn_of_subset (hk : key ≠ "" ∧ isIdentifier key = true) (hv : values.Choice)
    (hm : more.Choice) (hsub : ∀ value ∈ values, value ∈ more)
    (h : labels.judge key .notIn values = .ok false) :
    labels.judge key .notIn more = .ok false := by
  rw [judge_notIn_eq_false_iff hk hv] at h
  rw [judge_notIn_eq_false_iff hk hm]
  exact judge_isIn_of_subset hk hv hm hsub h

/-! ## 4. Presence and absence -/

theorem judge_present_of_isIn (hk : key ≠ "" ∧ isIdentifier key = true) (hv : values.Choice)
    (h : labels.judge key .isIn values = .ok true) :
    labels.judge key .present .empty = .ok true := by
  obtain ⟨value, hget, -⟩ := (judge_isIn_iff hk hv).1 h
  rw [judge_present hk, has, hget]
  rfl

theorem judge_notIn_of_absent (hk : key ≠ "" ∧ isIdentifier key = true) (hv : values.Choice)
    (h : labels.judge key .absent .empty = .ok true) :
    labels.judge key .notIn values = .ok true := by
  rw [judge_absent hk, has] at h
  rw [judge_notIn_iff hk hv]
  intro value hget
  rw [hget] at h
  cases h

/-! ## 5. The operators together -/

/-- Membership and exclusion are opposites, and so are presence and absence. An equality is
membership in a set of one value, with either sign, and its opposite is exclusion from it; a larger
set stands for equality with one of its values, and excludes by differing from each of them.
Membership needs presence, and absence is enough for exclusion. Sets taken together are asked one or
the other, so more values let membership lose nothing and exclusion gain nothing. -/
theorem operators_related (labels : LabelMap) (key : String)
    (hk : key ≠ "" ∧ isIdentifier key = true) :
    (∀ values : ValueSet, values.Choice → ∃ answer,
      labels.judge key .isIn values = .ok answer ∧
      labels.judge key .notIn values = .ok (!answer)) ∧
    (∀ value, isIdentifier value = true → ∃ answer,
      labels.judge key .isIn (.singleton value) = .ok answer ∧
      labels.judge key .equals (.singleton value) = .ok answer ∧
      labels.judge key .doubleEquals (.singleton value) = .ok answer) ∧
    (∀ value, isIdentifier value = true → ∃ answer,
      labels.judge key .notIn (.singleton value) = .ok answer ∧
      labels.judge key .notEquals (.singleton value) = .ok answer) ∧
    (∃ answer, labels.judge key .present .empty = .ok answer ∧
      labels.judge key .absent .empty = .ok (!answer)) ∧
    (∀ values : ValueSet, values.Choice →
      (labels.judge key .isIn values = .ok true ↔
        ∃ value ∈ values, labels.judge key .equals (.singleton value) = .ok true) ∧
      (labels.judge key .notIn values = .ok true ↔
        ∀ value ∈ values, labels.judge key .notEquals (.singleton value) = .ok true) ∧
      (labels.judge key .isIn values = .ok true → labels.judge key .present .empty = .ok true) ∧
      (labels.judge key .absent .empty = .ok true → labels.judge key .notIn values = .ok true)) ∧
    (∀ values more : ValueSet, values.Choice → more.Choice →
      (∃ one other, labels.judge key .isIn values = .ok one ∧
        labels.judge key .isIn more = .ok other ∧
        labels.judge key .isIn (values ∪ more) = .ok (one || other)) ∧
      ((∀ value ∈ values, value ∈ more) →
        (labels.judge key .isIn values = .ok true → labels.judge key .isIn more = .ok true) ∧
        (labels.judge key .notIn values = .ok false →
          labels.judge key .notIn more = .ok false))) := by
  refine ⟨fun _ hv => exists_judge_opposite labels hk hv, fun value hv => ?_, fun value hv => ?_,
    ⟨_, judge_present hk, judge_absent hk⟩,
    fun _ hv => ⟨judge_isIn_iff_exists hk hv, judge_notIn_iff_forall hk hv,
      judge_present_of_isIn hk hv, judge_notIn_of_absent hk hv⟩,
    fun _ _ hv hm => ⟨judge_isIn_union hk hv hm, fun hsub =>
      ⟨judge_isIn_of_subset hk hv hm hsub, judge_notIn_of_subset hk hv hm hsub⟩⟩⟩
  · have hanswer : labels.judge key .isIn (.singleton value) = _ := judge_isIn hk (.singleton hv)
    refine ⟨_, hanswer, ?_, ?_⟩
    · rw [judge_equality hk hv (.inl rfl), hanswer]
    · rw [judge_equality hk hv (.inr rfl), hanswer]
  · have hanswer : labels.judge key .notIn (.singleton value) = _ := judge_notIn hk (.singleton hv)
    refine ⟨_, hanswer, ?_⟩
    rw [judge_notEquals hk hv, hanswer]

/-- A key that is there with the empty value is in a set with the empty text, and is not excluded
from it; a key that is not there is excluded even from such a set. -/
theorem operators_related_empty_value :
    let values := ValueSet.ofList ["", "a"]
    (LabelMap.ofList [("k", "")]).judge "k" .isIn values = .ok true ∧
      (LabelMap.ofList [("k", "")]).judge "k" .notIn values = .ok false ∧
      LabelMap.empty.judge "k" .notIn values = .ok true := by
  intro values
  have hk : "k" ≠ "" ∧ isIdentifier "k" = true := by decide +kernel
  have hv : values.Choice := ⟨⟨"", by decide⟩, by decide +kernel⟩
  obtain ⟨hopposite, -, -, -, hset, -⟩ := operators_related (.ofList [("k", "")]) "k" hk
  have hisIn := (hset values hv).1.2 ⟨"", by decide, by decide +kernel⟩
  refine ⟨hisIn, ?_, ?_⟩
  · obtain ⟨answer, hin, hout⟩ := hopposite values hv
    rw [hisIn] at hin
    cases hin
    exact hout
  · obtain ⟨-, -, -, -, hset', -⟩ := operators_related .empty "k" hk
    exact (hset' values hv).2.2.2 (by decide +kernel)

end LabelMap

end LabelSelector
