/-
LabelSelector.Proofs.Satisfiability — which conditions are satisfied always, sometimes and never.

No requirement is satisfied by every label map: one that asks for a label fails where there are
none, and one that rules something out fails where just that stands (`exists_not_satisfiedBy`). So
a selector that asks for anything leaves some label map out. In the other direction almost every
requirement is satisfied by some label map, and a map with one label or none is enough to see it.
The exceptions are the comparisons with an end of the range (`AtLimit`), past which no value is an
integer that is read (`exists_satisfiedBy_iff`).
-/
import LabelSelector.Proofs.Comparisons
import LabelSelector.Proofs.RoundTrip

namespace LabelSelector

open Text

namespace Requirement

variable {requirement : Requirement} {key bound : String} {n : Int}

/-! ## 1. What a requirement names -/

/-- A requirement that is not about presence alone names a value. -/
theorem exists_mem_values (requirement : Requirement) (hpresent : requirement.operator ≠ .present)
    (habsent : requirement.operator ≠ .absent) : ∃ value, value ∈ requirement.values := by
  by_contra hno
  have hempty : requirement.values = .empty := by
    ext value
    simpa using fun hmem => hno ⟨value, hmem⟩
  have hsound := requirement.sound_parts.2.2
  rw [hempty] at hsound
  cases ho : requirement.operator <;>
    simp_all [Operator.fault?, ValueSet.empty, ValueSet.isEmpty, ValueSet.size]

/-- A comparison has one bound, and compares with the integer that it denotes. -/
theorem exists_comparesWith (ho : requirement.operator.Compares) :
    ∃ bound n, requirement.values = .singleton bound ∧ Denotes bound n ∧
      requirement.ComparesWith requirement.key requirement.operator n := by
  have hsound := requirement.sound_parts.2.2
  obtain ⟨bound, hvalues, hsome⟩ : ∃ bound, requirement.values = .singleton bound ∧
      (int64? bound).isSome = true := by
    rcases ho with ho | ho
    · rw [ho] at hsound
      exact eq_singleton_of_comparison .greater hsound
    · rw [ho] at hsound
      exact eq_singleton_of_comparison .less hsound
  obtain ⟨n, hn⟩ := isSome_int64?_iff.1 hsome
  exact ⟨bound, n, hvalues, hn, bound, hn, build_eq_ok_iff.2 ⟨rfl, rfl, hvalues⟩⟩

/-! ## 2. Label maps that do not satisfy a requirement -/

/-- Every requirement leaves out a label map: that without labels, or one with a single label. -/
theorem exists_not_satisfiedBy (requirement : Requirement) :
    ∃ labels, requirement.satisfiedBy labels = false := by
  cases ho : requirement.operator with
  | absent =>
    refine ⟨LabelMap.empty.insert requirement.key "", ?_⟩
    simp [satisfiedBy, ho, LabelMap.has]
  | notEquals | notIn =>
    obtain ⟨value, hmem⟩ := requirement.exists_mem_values (by simp [ho]) (by simp [ho])
    refine ⟨LabelMap.empty.insert requirement.key value, ?_⟩
    simp [satisfiedBy, ho, hasValue, hmem]
  | equals | doubleEquals | isIn | present | greaterThan | lessThan =>
    refine ⟨LabelMap.empty, ?_⟩
    simp [satisfiedBy, ho, LabelMap.has, compares]

/-! ## 3. Label maps that satisfy a requirement -/

/-- A comparison asks for an integer above the greatest one there is, or below the least one. -/
inductive AtLimit (requirement : Requirement) : Prop
  | greatest {bound : String} (ho : requirement.operator = .greaterThan)
      (hv : requirement.values = .singleton bound) (hb : Denotes bound (2 ^ 63 - 1))
  | least {bound : String} (ho : requirement.operator = .lessThan)
      (hv : requirement.values = .singleton bound) (hb : Denotes bound (-2 ^ 63))

theorem AtLimit.compares (h : requirement.AtLimit) : requirement.operator.Compares := by
  cases h with
  | greatest ho => exact .inl ho
  | least ho => exact .inr ho

theorem atLimit_iff_greatest (ho : requirement.operator = .greaterThan)
    (hv : requirement.values = .singleton bound) (hn : Denotes bound n) :
    requirement.AtLimit ↔ n = 2 ^ 63 - 1 := by
  constructor
  · intro limit
    cases limit with
    | greatest _ hv' hn' =>
      rw [hv, ValueSet.singleton_inj] at hv'
      exact hn.eq (hv' ▸ hn')
    | least ho' => simp [ho] at ho'
  · rintro rfl
    exact .greatest ho hv hn

theorem atLimit_iff_least (ho : requirement.operator = .lessThan)
    (hv : requirement.values = .singleton bound) (hn : Denotes bound n) :
    requirement.AtLimit ↔ n = -2 ^ 63 := by
  constructor
  · intro limit
    cases limit with
    | greatest ho' => simp [ho] at ho'
    | least _ hv' hn' =>
      rw [hv, ValueSet.singleton_inj] at hv'
      exact hn.eq (hv' ▸ hn')
  · rintro rfl
    exact .least ho hv hn

/-- There is an integer above all bounds but the greatest integer. -/
theorem ComparesWith.exists_above_iff (h : requirement.ComparesWith key .greaterThan n) :
    (∃ labels, requirement.satisfiedBy labels = true) ↔ n < 2 ^ 63 - 1 := by
  constructor
  · intro ⟨labels, hs⟩
    obtain ⟨m, ⟨value, -, hm⟩, hlt⟩ := h.greaterThan_iff.1 hs
    exact Int.lt_of_lt_of_le hlt hm.greatest
  · intro hlt
    have hgreatest : Denotes "9223372036854775807" (2 ^ 63 - 1) :=
      int64?_eq_some_iff.1 (by decide +kernel)
    refine ⟨LabelMap.empty.insert key "9223372036854775807", h.greaterThan_iff.2 ?_⟩
    exact ⟨_, ⟨_, LabelMap.get?_insert_self _ _ _, hgreatest⟩, hlt⟩

/-- There is an integer below all bounds but the least integer. -/
theorem ComparesWith.exists_below_iff (h : requirement.ComparesWith key .lessThan n) :
    (∃ labels, requirement.satisfiedBy labels = true) ↔ -2 ^ 63 < n := by
  constructor
  · intro ⟨labels, hs⟩
    obtain ⟨m, ⟨value, -, hm⟩, hlt⟩ := h.lessThan_iff.1 hs
    exact Int.lt_of_le_of_lt hm.least hlt
  · intro hlt
    have hleast : Denotes "-9223372036854775808" (-2 ^ 63) :=
      int64?_eq_some_iff.1 (by decide +kernel)
    refine ⟨LabelMap.empty.insert key "-9223372036854775808", h.lessThan_iff.2 ?_⟩
    exact ⟨_, ⟨_, LabelMap.get?_insert_self _ _ _, hleast⟩, hlt⟩

/-- A requirement that compares no integers is satisfied by a label map with a single label or
none. -/
theorem exists_satisfiedBy (ho : ¬ requirement.operator.Compares) :
    ∃ labels, requirement.satisfiedBy labels = true := by
  cases hop : requirement.operator with
  | absent | notEquals | notIn =>
    refine ⟨LabelMap.empty, ?_⟩
    simp [satisfiedBy, hop, LabelMap.has]
  | present =>
    refine ⟨LabelMap.empty.insert requirement.key "", ?_⟩
    simp [satisfiedBy, hop, LabelMap.has]
  | equals | doubleEquals | isIn =>
    obtain ⟨value, hmem⟩ := requirement.exists_mem_values (by simp [hop]) (by simp [hop])
    refine ⟨LabelMap.empty.insert requirement.key value, ?_⟩
    simp [satisfiedBy, hop, hasValue, hmem]
  | greaterThan => exact absurd (.inl hop) ho
  | lessThan => exact absurd (.inr hop) ho

/-- A requirement is satisfied by some label map unless it is a comparison with an end of the
range. -/
theorem exists_satisfiedBy_iff :
    (∃ labels, requirement.satisfiedBy labels = true) ↔ ¬ requirement.AtLimit := by
  by_cases ho : requirement.operator.Compares
  · obtain ⟨bound, n, hv, hn, hcompares⟩ := exists_comparesWith ho
    rcases ho with ho | ho
    · rw [ho] at hcompares
      rw [hcompares.exists_above_iff, atLimit_iff_greatest ho hv hn]
      have hle := hn.greatest
      omega
    · rw [ho] at hcompares
      rw [hcompares.exists_below_iff, atLimit_iff_least ho hv hn]
      have hge := hn.least
      omega
  · exact iff_of_true (exists_satisfiedBy ho) fun limit => ho limit.compares

end Requirement

/-! ## 4. Selectors -/

namespace Selector

open Requirement

variable {selector : Selector}

/-- A selector that asks for anything leaves a label map out. -/
theorem exists_not_selects (h : selector.isEmpty = false) :
    ∃ labels, selector.selects labels = false := by
  cases selector with
  | nothing => exact ⟨LabelMap.empty, rfl⟩
  | all requirements sorted =>
    cases requirements with
    | nil => cases h
    | cons first rest =>
      obtain ⟨labels, hno⟩ := first.exists_not_satisfiedBy
      refine ⟨labels, ?_⟩
      simp [selects, hno]

theorem selects_of_isEmpty (h : selector.isEmpty = true) (labels : LabelMap) :
    selector.selects labels = true := by
  cases selector with
  | nothing => cases h
  | all requirements sorted =>
    obtain rfl : requirements = [] := List.isEmpty_iff.1 h
    rfl

/-- A selector is empty exactly when it selects every label map. Of the requirements none holds of
all label maps, and the only ones that hold of none are the comparisons with an end of the range.
To select nothing at all is not to be empty. -/
theorem isEmpty_iff_trivial :
    (∀ selector : Selector, selector.isEmpty = true ↔
      ∀ labels, selector.selects labels = true) ∧
    (∀ requirement : Requirement, ∃ labels, requirement.satisfiedBy labels = false) ∧
    (∀ requirement : Requirement, (∃ labels, requirement.satisfiedBy labels = true) ↔
      ¬ requirement.AtLimit) ∧
    nothing.isEmpty = false ∧ ∀ labels, nothing.selects labels = false := by
  refine ⟨fun selector => ⟨selects_of_isEmpty, fun hall => ?_⟩, exists_not_satisfiedBy,
    fun _ => exists_satisfiedBy_iff, rfl, selects_nothing⟩
  by_contra hne
  obtain ⟨labels, hno⟩ := exists_not_selects (Bool.eq_false_iff.2 hne)
  rw [hall labels] at hno
  cases hno

/-- Only the last integer below the end of the range has another one above it. -/
example : (build "k" .greaterThan (.ofList ["+09223372036854775806"])).toOption.any
      (fun requirement => requirement.satisfiedBy (.ofList [("k", "9223372036854775807")])) ∧
    (build "k" .greaterThan (.ofList ["+09223372036854775807"])).toOption.all
      (fun requirement => !requirement.satisfiedBy (.ofList [("k", "9223372036854775807")])) := by
  decide +kernel

end Selector

end LabelSelector
