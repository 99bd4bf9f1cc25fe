/-
LabelSelector.Proofs.Checks — when a requirement can be built, and what is wrong first when not.

What a key, an operator and values have to be is said once for all operators (`Fits`), and so is
what is wrong first where they are not (`FirstFault`): the key, then the least value that cannot be
spelled, then the number of values, then a bound that is no integer. Both speak of the values as a
finite set, in which order and repetition are gone, and of the least value in the order of bytes.

Parts that fit have no fault (`Fits.fault?_eq`), each first fault is the one found
(`FirstFault.fault?_eq`), and there is nothing third (`fits_or_firstFault`).
-/
import LabelSelector.Proofs.ByteOrder
import LabelSelector.Proofs.Grammar
import Mathlib.Data.Finset.Card
import Mathlib.Data.Finset.Dedup

namespace LabelSelector

open Text

/-! ## 1. Sets of values -/

namespace ValueSet

variable {set : ValueSet} {value : String}

/-- The members of a set, as a finite set. -/
def toFinset (set : ValueSet) : Finset String :=
  set.toList.toFinset

@[simp] theorem mem_toFinset : value ∈ set.toFinset ↔ value ∈ set := by
  simp [toFinset, mem_def]

@[simp] theorem toFinset_ofList (values : List String) :
    (ofList values).toFinset = values.toFinset := by
  ext value
  simp

/-- A set has as many members as it lists. -/
theorem card_toFinset (set : ValueSet) : set.toFinset.card = set.size :=
  List.toFinset_card_of_nodup set.nodup_toList

theorem toFinset_inj {a b : ValueSet} : a.toFinset = b.toFinset ↔ a = b := by
  refine ⟨fun h => ?_, congrArg toFinset⟩
  ext value
  rw [← mem_toFinset, h, mem_toFinset]

/-- What a search in a set finds is the least member that there is to find. -/
theorem bytes_le_of_find? {p : String → Bool} {other : String}
    (h : set.toList.find? p = some value) (hmem : other ∈ set) (hother : p other = true) :
    bytes value ≤ bytes other := by
  obtain ⟨_, before, after, hlist, hbefore⟩ := List.find?_eq_some_iff_append.1 h
  have hsorted := set.sorted
  rw [hlist] at hsorted
  rw [mem_def, hlist] at hmem
  rw [bytes_le_iff]
  rcases List.mem_append.1 hmem with hmem | hmem
  · have hnot := hbefore other hmem
    simp [hother] at hnot
  · rcases List.mem_cons.1 hmem with rfl | hmem
    · exact le_refl _
    · have hafter := (List.pairwise_append.1 hsorted).2.1
      exact le_of_lt ((List.pairwise_cons.1 hafter).1 other hmem)

theorem find?_eq_some_iff {p : String → Bool} :
    set.toList.find? p = some value ↔ (value ∈ set ∧ p value = true) ∧
      ∀ other ∈ set, p other = true → bytes value ≤ bytes other := by
  constructor
  · intro h
    exact ⟨⟨List.mem_of_find?_eq_some h, List.find?_some h⟩, fun _ => bytes_le_of_find? h⟩
  · intro ⟨⟨hmem, hvalue⟩, hleast⟩
    obtain ⟨found, hfound⟩ : ∃ found, set.toList.find? p = some found := by
      rw [← Option.isSome_iff_exists, List.find?_isSome]
      exact ⟨value, hmem, hvalue⟩
    have hle := bytes_le_of_find? hfound hmem hvalue
    have hge := hleast found (List.mem_of_find?_eq_some hfound) (List.find?_some hfound)
    rw [hfound, le_antisymm (bytes_le_iff.1 hle) (bytes_le_iff.1 hge)]

end ValueSet

/-! ## 2. The values of an operator -/

namespace Operator

/-- An operator takes this many values. -/
def Takes (operator : Operator) (count : Nat) : Prop :=
  match operator with
  | .isIn | .notIn => 1 ≤ count
  | .equals | .doubleEquals | .notEquals | .greaterThan | .lessThan => count = 1
  | .present | .absent => count = 0

instance (operator : Operator) (count : Nat) : Decidable (operator.Takes count) :=
  match operator with
  | .isIn | .notIn => inferInstanceAs (Decidable (1 ≤ count))
  | .equals | .doubleEquals | .notEquals | .greaterThan | .lessThan =>
    inferInstanceAs (Decidable (count = 1))
  | .present | .absent => inferInstanceAs (Decidable (count = 0))

/-- What is wrong with a number of values that an operator does not take. -/
def countFault : Operator → Fault
  | .isIn | .notIn => .noValues
  | .equals | .doubleEquals | .notEquals => .notOneValue
  | .present | .absent => .unwantedValues
  | .greaterThan | .lessThan => .notOneBound

/-- An operator compares integers. -/
def Compares (operator : Operator) : Prop :=
  operator = .greaterThan ∨ operator = .lessThan

instance (operator : Operator) : Decidable operator.Compares :=
  inferInstanceAs (Decidable (_ ∨ _))

variable {operator : Operator} {values : ValueSet} {bound : String}

theorem fault?_of_not_takes (h : ¬ operator.Takes values.size) :
    operator.fault? values = some operator.countFault := by
  obtain ⟨list, sorted⟩ := values
  rcases list with _ | ⟨first, _ | ⟨second, rest⟩⟩ <;> cases operator <;>
    simp_all [Takes, fault?, countFault, ValueSet.size, ValueSet.isEmpty]

theorem fault?_of_badBound (ho : operator.Compares) (hcount : operator.Takes values.size)
    (hmem : bound ∈ values) (hi : int64? bound = none) :
    operator.fault? values = some (.boundNotInteger bound) := by
  have hsize : values.size = 1 := by rcases ho with rfl | rfl <;> exact hcount
  obtain ⟨list, sorted⟩ := values
  obtain ⟨only, rfl⟩ := List.length_eq_one_iff.1 hsize
  obtain rfl : bound = only := List.mem_singleton.1 hmem
  rcases ho with rfl | rfl <;> simp [fault?, hi]

theorem fault?_of_takes (hcount : operator.Takes values.size)
    (hi : operator.Compares → ∀ bound ∈ values, (int64? bound).isSome = true) :
    operator.fault? values = none := by
  obtain ⟨list, sorted⟩ := values
  rcases list with _ | ⟨first, _ | ⟨second, rest⟩⟩ <;> cases operator <;>
    simp_all [Takes, Compares, fault?, ValueSet.size, ValueSet.isEmpty, ValueSet.mem_def]

end Operator

namespace Requirement

variable {key : String} {operator : Operator} {values : ValueSet} {fault : Fault}

/-! ## 3. What fits, and what is wrong first -/

/-- Everything that a key, an operator and a set of values have to be. -/
structure Fits (key : String) (operator : Operator) (values : Finset String) : Prop where
  key_valid : key ≠ "" ∧ isIdentifier key = true
  values_valid : ∀ value ∈ values, isIdentifier value = true
  takes : operator.Takes values.card
  integers : operator.Compares → ∀ bound ∈ values, (int64? bound).isSome = true

/-- What is wrong with a key, an operator and a set of values where nothing is that is looked at
before. -/
inductive FirstFault (key : String) (operator : Operator) (values : Finset String) : Fault → Prop
  | key (hk : ¬ (key ≠ "" ∧ isIdentifier key = true)) :
      FirstFault key operator values (.invalidIdentifier key)
  | value {value : String} (hk : key ≠ "" ∧ isIdentifier key = true) (hmem : value ∈ values)
      (hbad : isIdentifier value = false)
      (least : ∀ other ∈ values, isIdentifier other = false → bytes value ≤ bytes other) :
      FirstFault key operator values (.invalidIdentifier value)
  | count (hk : key ≠ "" ∧ isIdentifier key = true)
      (hv : ∀ value ∈ values, isIdentifier value = true) (hcount : ¬ operator.Takes values.card) :
      FirstFault key operator values operator.countFault
  | bound {bound : String} (hk : key ≠ "" ∧ isIdentifier key = true)
      (hv : ∀ value ∈ values, isIdentifier value = true) (hcount : operator.Takes values.card)
      (ho : operator.Compares) (hmem : bound ∈ values) (hi : int64? bound = none) :
      FirstFault key operator values (.boundNotInteger bound)

theorem fault?_of_key (hk : ¬ (key ≠ "" ∧ isIdentifier key = true)) :
    fault? key operator values = some (.invalidIdentifier key) := by
  have hcheck : (key.isEmpty || !isIdentifier key) = true := by
    by_cases hempty : key = "" <;> simp_all
  rw [fault?, if_pos hcheck]

theorem fault?_of_value {value : String} (hk : key ≠ "" ∧ isIdentifier key = true)
    (h : values.toList.find? (fun value => !isIdentifier value) = some value) :
    fault? key operator values = some (.invalidIdentifier value) := by
  have hcheck : ¬ (key.isEmpty || !isIdentifier key) = true := by simp [hk.1, hk.2]
  rw [fault?, if_neg hcheck, h]

/-- Parts that fit have no fault. -/
theorem Fits.fault?_eq (h : Fits key operator values.toFinset) :
    fault? key operator values = none := by
  have hcount := h.takes
  rw [ValueSet.card_toFinset] at hcount
  rw [Grammar.fault?_eq h.key_valid (by simpa using h.values_valid)]
  apply Operator.fault?_of_takes hcount
  simpa using h.integers

/-- What is wrong first is the fault found. -/
theorem FirstFault.fault?_eq (h : FirstFault key operator values.toFinset fault) :
    fault? key operator values = some fault := by
  cases h with
  | key hk => exact fault?_of_key hk
  | value hk hmem hbad least =>
    apply fault?_of_value hk
    rw [ValueSet.find?_eq_some_iff]
    simp only [ValueSet.mem_toFinset] at hmem least
    simpa [hmem, hbad] using least
  | count hk hv hcount =>
    rw [ValueSet.card_toFinset] at hcount
    rw [Grammar.fault?_eq hk (by simpa using hv), Operator.fault?_of_not_takes hcount]
  | bound hk hv hcount ho hmem hi =>
    rw [ValueSet.card_toFinset] at hcount
    rw [ValueSet.mem_toFinset] at hmem
    rw [Grammar.fault?_eq hk (by simpa using hv), Operator.fault?_of_badBound ho hcount hmem hi]

/-- Either all fits or something is wrong first. -/
theorem fits_or_firstFault (key : String) (operator : Operator) (values : ValueSet) :
    Fits key operator values.toFinset ∨ ∃ fault, FirstFault key operator values.toFinset fault := by
  by_cases hk : key ≠ "" ∧ isIdentifier key = true
  · cases hfind : values.toList.find? (fun value => !isIdentifier value) with
    | some value =>
      obtain ⟨⟨hmem, hbad⟩, least⟩ := ValueSet.find?_eq_some_iff.1 hfind
      right
      refine ⟨_, .value hk (ValueSet.mem_toFinset.2 hmem) (by simpa using hbad) ?_⟩
      simpa using least
    | none =>
      have hv : ∀ value ∈ values.toFinset, isIdentifier value = true := by
        intro value hmem
        have := List.find?_eq_none.1 hfind value (ValueSet.mem_toFinset.1 hmem)
        simpa using this
      by_cases hcount : operator.Takes values.toFinset.card
      · by_cases hbad : operator.Compares ∧ ∃ bound ∈ values.toFinset, int64? bound = none
        · obtain ⟨ho, bound, hmem, hi⟩ := hbad
          exact .inr ⟨_, .bound hk hv hcount ho hmem hi⟩
        · refine .inl ⟨hk, hv, hcount, fun ho bound hmem => ?_⟩
          rw [Option.isSome_iff_ne_none]
          intro hi
          exact hbad ⟨ho, bound, hmem, hi⟩
      · exact .inr ⟨_, .count hk hv hcount⟩
  · exact .inr ⟨_, .key hk⟩

/-! ## 4. Building by the set of values -/

theorem exists_build_iff_fits :
    (∃ requirement, build key operator values = .ok requirement) ↔
      Fits key operator values.toFinset := by
  constructor
  · intro ⟨requirement, hbuild⟩
    rcases fits_or_firstFault key operator values with hfits | ⟨fault, hfirst⟩
    · exact hfits
    · rw [build_eq_error_iff.2 hfirst.fault?_eq] at hbuild
      cases hbuild
  · intro h
    let requirement : Requirement := ⟨key, operator, values, h.fault?_eq⟩
    exact ⟨requirement, build_self requirement⟩

theorem build_error_iff_firstFault :
    build key operator values = .error fault ↔ FirstFault key operator values.toFinset fault := by
  rw [build_eq_error_iff]
  constructor
  · intro hfault
    rcases fits_or_firstFault key operator values with hfits | ⟨first, hfirst⟩
    · rw [hfits.fault?_eq] at hfault
      cases hfault
    · rw [hfirst.fault?_eq] at hfault
      cases hfault
      exact hfirst
  · exact FirstFault.fault?_eq

/-- Whether a requirement can be built depends on the set of the values alone. It can exactly when
the parts fit, and it has just these parts, its values in the order of bytes; when not, the fault is
what is wrong first. -/
theorem build_by_set (key : String) (operator : Operator) (values : List String) :
    ((∃ requirement, build key operator (.ofList values) = .ok requirement) ↔
      Fits key operator values.toFinset) ∧
    (∀ fault, build key operator (.ofList values) = .error fault ↔
      FirstFault key operator values.toFinset fault) ∧
    (∀ requirement, build key operator (.ofList values) = .ok requirement →
      requirement.key = key ∧ requirement.operator = operator ∧
        requirement.values.toList.toFinset = values.toFinset ∧
        requirement.values.toList.Pairwise fun a b => bytes a < bytes b) ∧
    ∀ others : List String, others.toFinset = values.toFinset →
      build key operator (.ofList others) = build key operator (.ofList values) := by
  refine ⟨?_, ?_, ?_, ?_⟩
  · rw [exists_build_iff_fits, ValueSet.toFinset_ofList]
  · intro fault
    rw [build_error_iff_firstFault, ValueSet.toFinset_ofList]
  · intro requirement hbuild
    obtain ⟨hkey, hoperator, hvalues⟩ := build_eq_ok_iff.1 hbuild
    refine ⟨hkey, hoperator, ?_, requirement.values.sorted.imp bytes_lt⟩
    rw [hvalues]
    exact ValueSet.toFinset_ofList values
  · intro others hsame
    have hset : ValueSet.ofList others = ValueSet.ofList values := by
      rw [← ValueSet.toFinset_inj, ValueSet.toFinset_ofList, ValueSet.toFinset_ofList, hsame]
    rw [hset]

/-- A value given twice is one value, and of two that cannot be spelled the lesser one is at fault,
wherever it stands and although there is one value too many. -/
theorem build_by_set_repeated :
    (∃ requirement, build "k" .equals (.ofList ["a", "a"]) = .ok requirement ∧
      requirement.values.toList.toFinset = {"a"}) ∧
    build "k" .equals (.ofList ["c d", "a,b", "c d"]) = .error (.invalidIdentifier "a,b") ∧
    build "k" .equals (.ofList ["a,b", "c d"]) = .error (.invalidIdentifier "a,b") := by
  have hfits : Fits "k" .equals ["a", "a"].toFinset :=
    ⟨by decide +kernel, by decide +kernel, by decide, by decide⟩
  obtain ⟨requirement, hbuild⟩ := (build_by_set "k" .equals ["a", "a"]).1.2 hfits
  have hparts := (build_by_set "k" .equals ["a", "a"]).2.2.1 requirement hbuild
  have hfault : build "k" .equals (.ofList ["c d", "a,b", "c d"]) =
      .error (.invalidIdentifier "a,b") := by decide +kernel
  have hsame := (build_by_set "k" .equals ["c d", "a,b", "c d"]).2.2.2 ["a,b", "c d"] (by decide)
  exact ⟨⟨requirement, hbuild, hparts.2.2.1⟩, hfault, hsame.trans hfault⟩

end Requirement

end LabelSelector
