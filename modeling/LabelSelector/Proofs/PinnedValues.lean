/-
LabelSelector.Proofs.PinnedValues — what the value that a selector pins a key to says.

The first requirement on a key decides. In canonical order it is the one that precedes every other
requirement on the key (`FirstOn`, `find?_eq_some_iff_firstOn`), so it depends on which requirements
there are and on nothing else, and a pinned value is what that requirement `Pins` its key to
(`pinnedValue?_eq_some_iff`).

What a requirement on a label map pins, the map has (`Pins.get?`). In the other direction the places
of the operators count: before an equality there is room for the absence of the key only, and no
label map satisfies both; and before a membership for absence and equalities.
-/
import LabelSelector.Proofs.Conjunction
import LabelSelector.Proofs.RoundTrip

namespace LabelSelector

namespace Requirement

variable {a b first other requirement : Requirement} {requirements : List Requirement}
  {key value : String} {labels : LabelMap}

/-! ## 1. Requirements that pin their key -/

/-- A requirement asks its key to have one value and no other: it is an equality, or membership in
a set of one value. -/
def Pins (requirement : Requirement) (value : String) : Prop :=
  (requirement.operator = .equals ∨ requirement.operator = .doubleEquals ∨
    requirement.operator = .isIn) ∧ requirement.values = .singleton value

theorem onlyValue?_eq_some_iff :
    requirement.onlyValue? = some value ↔ requirement.values = .singleton value := by
  obtain ⟨key, operator, ⟨list, sorted⟩, sound⟩ := requirement
  unfold onlyValue?
  match list with
  | [] => simp [ValueSet.singleton]
  | [only] => simp [ValueSet.singleton]
  | first :: second :: rest => simp [ValueSet.singleton]

/-- Label maps that satisfy a requirement have what it pins its key to. -/
theorem Pins.get? (h : requirement.Pins value) (hs : requirement.satisfiedBy labels = true) :
    labels.get? requirement.key = some value := by
  obtain ⟨ho, hv⟩ := h
  have hany : (labels.get? requirement.key).any (requirement.hasValue ·) = true := by
    rcases ho with ho | ho | ho <;> simpa [satisfiedBy, ho] using hs
  cases hget : labels.get? requirement.key with
  | none =>
    rw [hget] at hany
    cases hany
  | some actual =>
    rw [hget, Option.any_some, hasValue, hv, ValueSet.contains_iff, ValueSet.mem_singleton] at hany
    rw [hany]

/-- A requirement that pins its key asks for the value pinned, and for nothing else. -/
theorem Pins.satisfiedBy_iff (h : requirement.Pins value) :
    requirement.satisfiedBy labels = true ↔ labels.get? requirement.key = some value := by
  refine ⟨h.get?, fun hget => ?_⟩
  obtain ⟨ho, hv⟩ := h
  rcases ho with ho | ho | ho <;> simp [satisfiedBy, ho, hget, hasValue, hv]

/-- An equality pins its key. -/
theorem exists_pins_of_equality
    (ho : requirement.operator = .equals ∨ requirement.operator = .doubleEquals) :
    ∃ value, requirement.Pins value := by
  obtain ⟨-, -, hfault⟩ := requirement.sound_parts
  rcases ho with ho | ho
  · rw [ho] at hfault
    obtain ⟨value, hv⟩ := eq_singleton_of_equality .equals hfault
    exact ⟨value, .inl ho, hv⟩
  · rw [ho] at hfault
    obtain ⟨value, hv⟩ := eq_singleton_of_equality .doubleEquals hfault
    exact ⟨value, .inr (.inl ho), hv⟩

/-! ## 2. The first requirement on a key -/

/-- A requirement on a key that precedes every other one on that key. -/
structure FirstOn (requirements : List Requirement) (key : String) (first : Requirement) :
    Prop where
  mem : first ∈ requirements
  key_eq : first.key = key
  precedes : ∀ other ∈ requirements, other.key = key → Precedes first other

theorem Precedes.antisymm (hab : Precedes a b) (hba : Precedes b a) : a = b :=
  le_antisymm (le_iff_precedes.2 hab) (le_iff_precedes.2 hba)

theorem Precedes.refl (a : Requirement) : Precedes a a :=
  .inr ⟨rfl, .inr ⟨rfl, .inr rfl⟩⟩

/-- On one key the operators come in the order of declaration. -/
theorem Precedes.rank_le (h : Precedes a b) (hk : a.key = b.key) :
    a.operator.rank ≤ b.operator.rank := by
  rcases h with h | ⟨-, h | ⟨h, -⟩⟩
  · rw [hk] at h
    exact absurd h (String.lt_irrefl _)
  · omega
  · rw [h]

/-- With one key and one operator the lists of values ascend. -/
theorem Precedes.values_le (h : Precedes a b) (hk : a.key = b.key)
    (ho : a.operator = b.operator) : a.values.toList ≤ b.values.toList := by
  rcases h with h | ⟨-, h | ⟨-, h | h⟩⟩
  · rw [hk] at h
    exact absurd h (String.lt_irrefl _)
  · rw [ho] at h
    omega
  · exact le_of_lt h
  · rw [h]

/-- There is no more than one first requirement on a key. -/
theorem FirstOn.eq (h : FirstOn requirements key first) (h' : FirstOn requirements key other) :
    first = other :=
  (h.precedes other h'.mem h'.key_eq).antisymm (h'.precedes first h.mem h.key_eq)

/-- Which requirement is the first on a key depends on which there are. -/
theorem firstOn_congr {others : List Requirement}
    (h : ∀ requirement, requirement ∈ requirements ↔ requirement ∈ others) :
    FirstOn requirements key first ↔ FirstOn others key first := by
  constructor
  · rintro ⟨mem, key_eq, precedes⟩
    exact ⟨(h _).1 mem, key_eq, fun other hmem => precedes other ((h _).2 hmem)⟩
  · rintro ⟨mem, key_eq, precedes⟩
    exact ⟨(h _).2 mem, key_eq, fun other hmem => precedes other ((h _).1 hmem)⟩

/-- In a sorted list the first requirement on a key is the one that is found first. -/
theorem FirstOn.of_find? (sorted : Sorted requirements)
    (h : (requirements.find? fun requirement => requirement.key == key) = some first) :
    FirstOn requirements key first := by
  obtain ⟨hkey, before, after, rfl, hbefore⟩ := List.find?_eq_some_iff_append.1 h
  refine ⟨by simp, by simpa using hkey, fun other hmem hother => ?_⟩
  rw [sorted_iff_pairwise_precedes, List.pairwise_append, List.pairwise_cons] at sorted
  rcases List.mem_append.1 hmem with hmem | hmem
  · simpa [hother] using hbefore other hmem
  · rcases List.mem_cons.1 hmem with rfl | hmem
    · exact .refl _
    · exact sorted.2.1.1 other hmem

/-- Where there are requirements on a key there is a first one. -/
theorem exists_firstOn (sorted : Sorted requirements) (hmem : requirement ∈ requirements) :
    ∃ first, FirstOn requirements requirement.key first := by
  have hsome : (requirements.find? fun other => other.key == requirement.key).isSome = true := by
    rw [List.find?_isSome]
    exact ⟨requirement, hmem, by simp⟩
  obtain ⟨first, hfirst⟩ := Option.isSome_iff_exists.1 hsome
  exact ⟨first, .of_find? sorted hfirst⟩

theorem find?_eq_some_iff_firstOn (sorted : Sorted requirements) :
    (requirements.find? fun requirement => requirement.key == key) = some first ↔
      FirstOn requirements key first := by
  refine ⟨.of_find? sorted, fun h => ?_⟩
  have hsome : (requirements.find? fun other => other.key == key).isSome = true := by
    rw [List.find?_isSome]
    exact ⟨first, h.mem, by simp [h.key_eq]⟩
  obtain ⟨found, hfound⟩ := Option.isSome_iff_exists.1 hsome
  rw [hfound, (FirstOn.of_find? sorted hfound).eq h]

end Requirement

/-! ## 3. Pinned values -/

namespace Selector

open Requirement

variable {selector other : Selector} {requirement : Requirement} {labels : LabelMap}
  {key value : String}

/-- A selector pins a key to a value when its first requirement on the key does. -/
theorem pinnedValue?_eq_some_iff : selector.pinnedValue? key = some value ↔
    ∃ first, FirstOn selector.requirements key first ∧ first.Pins value := by
  unfold pinnedValue?
  simp only [Option.bind_eq_some_iff, find?_eq_some_iff_firstOn selector.requirements_sorted]
  refine exists_congr fun first => and_congr_right fun _ => ?_
  unfold Pins
  cases first.operator <;> simp [onlyValue?_eq_some_iff]

/-- What is pinned depends on which requirements there are. -/
theorem pinnedValue?_congr
    (h : ∀ requirement, requirement ∈ selector.requirements ↔ requirement ∈ other.requirements) :
    selector.pinnedValue? key = other.pinnedValue? key := by
  apply Option.ext
  intro value
  simp only [pinnedValue?_eq_some_iff, firstOn_congr h]

/-- A selector that pins a key to a value selects no label map in which the key has another. -/
theorem get?_of_pinnedValue? (h : selector.pinnedValue? key = some value)
    (hs : selector.selects labels = true) : labels.get? key = some value := by
  obtain ⟨first, hfirst, hpins⟩ := pinnedValue?_eq_some_iff.1 h
  rw [← hfirst.key_eq]
  exact hpins.get? ((selects_iff.1 hs).2 first hfirst.mem)

/-- Before an equality on the key of a selected label map there are equalities only. -/
theorem exists_pins_of_rank_le {first : Requirement} (hs : first.satisfiedBy labels = true)
    (hget : labels.get? first.key = some value) (hrank : first.operator.rank ≤ 2) :
    ∃ value, first.Pins value := by
  apply exists_pins_of_equality
  cases ho : first.operator with
  | absent => simp [satisfiedBy, ho, LabelMap.has, hget] at hs
  | equals => exact .inl rfl
  | doubleEquals => exact .inr rfl
  | _ => simp [ho, Operator.rank] at hrank

/-- An equality on a key pins it, where anything is selected at all. -/
theorem pinnedValue?_of_equality (hs : selector.selects labels = true)
    (hmem : requirement ∈ selector.requirements)
    (ho : requirement.operator = .equals ∨ requirement.operator = .doubleEquals)
    (hpins : requirement.Pins value) : selector.pinnedValue? requirement.key = some value := by
  have hsat := (selects_iff.1 hs).2
  have hget := hpins.get? (hsat requirement hmem)
  obtain ⟨first, hfirst⟩ := exists_firstOn selector.requirements_sorted hmem
  have hrank : first.operator.rank ≤ 2 := by
    have hle := (hfirst.precedes requirement hmem rfl).rank_le hfirst.key_eq
    have hle' : requirement.operator.rank ≤ 2 := by
      rcases ho with ho | ho <;> simp [ho, Operator.rank]
    omega
  have hget' := hget
  rw [← hfirst.key_eq] at hget'
  obtain ⟨value', hpins'⟩ := exists_pins_of_rank_le (hsat first hfirst.mem) hget' hrank
  have hsame := hpins'.get? (hsat first hfirst.mem)
  rw [hget', Option.some.injEq] at hsame
  subst hsame
  exact pinnedValue?_eq_some_iff.2 ⟨first, hfirst, hpins'⟩

/-- Where neither absence nor an equality is asked of a key, the least of its memberships decides,
and it pins the key if it is in a set of one value. -/
theorem pinnedValue?_of_membership
    (hno : ∀ requirement ∈ selector.requirements, requirement.key = key →
      requirement.operator ≠ .absent ∧ requirement.operator ≠ .equals ∧
        requirement.operator ≠ .doubleEquals) :
    selector.pinnedValue? key = some value ↔
      ∃ least ∈ selector.requirements, least.key = key ∧ least.operator = .isIn ∧
        (∀ other ∈ selector.requirements, other.key = key → other.operator = .isIn →
          least.values.toList ≤ other.values.toList) ∧
        least.values = .singleton value := by
  rw [pinnedValue?_eq_some_iff]
  constructor
  · rintro ⟨first, hfirst, ho, hv⟩
    obtain ⟨-, hequals, hdouble⟩ := hno first hfirst.mem hfirst.key_eq
    have ho : first.operator = .isIn := by simpa [hequals, hdouble] using ho
    refine ⟨first, hfirst.mem, hfirst.key_eq, ho, fun other hmem hkey hother => ?_, hv⟩
    exact (hfirst.precedes other hmem hkey).values_le (hfirst.key_eq.trans hkey.symm)
      (ho.trans hother.symm)
  · rintro ⟨least, hmem, rfl, ho, hleast, hv⟩
    obtain ⟨first, hfirst⟩ := exists_firstOn selector.requirements_sorted hmem
    have hprecedes := hfirst.precedes least hmem rfl
    have hfirstOp : first.operator = .isIn := by
      have hrank := hprecedes.rank_le hfirst.key_eq
      obtain ⟨habsent, hequals, hdouble⟩ := hno first hfirst.mem hfirst.key_eq
      rw [ho] at hrank
      cases hop : first.operator <;> simp_all [Operator.rank]
    have hle := hprecedes.values_le hfirst.key_eq (hfirstOp.trans ho.symm)
    have hge := hleast first hfirst.mem hfirst.key_eq hfirstOp
    have hvalues : first.values.toList = least.values.toList := le_antisymm hle hge
    have hfirstValues : first.values = .singleton value := by
      rw [← hv]
      ext text
      rw [ValueSet.mem_def, ValueSet.mem_def, hvalues]
    exact ⟨first, hfirst, .inr (.inr hfirstOp), hfirstValues⟩

/-- The value that a selector pins a key to is the only one the key has in the label maps selected.
Where there are any, an equality on the key pins it to the value of that equality. Where neither
absence nor an equality is asked of the key, what pins it is a membership in a set of one value
that no other membership on the key comes before. The answer depends on which requirements there
are, not on the order in which they are given. -/
theorem pinnedValue?_spec (selector : Selector) (key : String) :
    (∀ value labels, selector.pinnedValue? key = some value → selector.selects labels = true →
        labels.get? key = some value) ∧
      ((∃ labels, selector.selects labels = true) →
        ∀ requirement ∈ selector.requirements, requirement.key = key →
          (requirement.operator = .equals ∨ requirement.operator = .doubleEquals) →
          ∃ value, requirement.values = .singleton value ∧
            selector.pinnedValue? key = some value) ∧
      ((∀ requirement ∈ selector.requirements, requirement.key = key →
          requirement.operator ≠ .absent ∧ requirement.operator ≠ .equals ∧
            requirement.operator ≠ .doubleEquals) →
        ∀ value, selector.pinnedValue? key = some value ↔
          ∃ least ∈ selector.requirements, least.key = key ∧ least.operator = .isIn ∧
            (∀ other ∈ selector.requirements, other.key = key → other.operator = .isIn →
              least.values.toList ≤ other.values.toList) ∧
            least.values = .singleton value) ∧
      (∀ other : Selector,
        (∀ requirement, requirement ∈ selector.requirements ↔ requirement ∈ other.requirements) →
        selector.pinnedValue? key = other.pinnedValue? key) ∧
      ∀ a b : List Requirement, a.Perm b →
        (ofRequirements a).pinnedValue? key = (ofRequirements b).pinnedValue? key ∧
          (selector.add a).pinnedValue? key = (selector.add b).pinnedValue? key := by
  refine ⟨fun value labels h hs => get?_of_pinnedValue? h hs, ?_,
    fun hno value => pinnedValue?_of_membership hno, fun other => pinnedValue?_congr, ?_⟩
  · rintro ⟨labels, hs⟩ requirement hmem rfl ho
    obtain ⟨value, hpins⟩ := exists_pins_of_equality ho
    exact ⟨value, hpins.2, pinnedValue?_of_equality hs hmem ho hpins⟩
  · intro a b h
    rw [ofRequirements_congr h, add_congr selector h]
    exact ⟨rfl, rfl⟩

/-- An equality pins its key whatever stands before it, and so does the lesser of two
memberships. -/
theorem pinnedValue?_spec_one_key :
    (ofRequirements [⟨"a", .notEquals, .singleton "1", by decide⟩,
        ⟨"a", .doubleEquals, .singleton "2", by decide⟩]).pinnedValue? "a" = some "2" ∧
      (ofRequirements [⟨"a", .isIn, .ofList ["2", "3"], by decide⟩,
        ⟨"a", .isIn, .singleton "2", by decide⟩]).pinnedValue? "a" = some "2" := by
  constructor
  · obtain ⟨-, hequality, -⟩ := pinnedValue?_spec (ofRequirements
      [⟨"a", .notEquals, .singleton "1", by decide⟩,
        ⟨"a", .doubleEquals, .singleton "2", by decide⟩]) "a"
    have hselects : (ofRequirements [⟨"a", .notEquals, .singleton "1", by decide⟩,
        ⟨"a", .doubleEquals, .singleton "2", by decide⟩]).selects (.ofList [("a", "2")]) = true :=
      selects_ofRequirements.2 (LabelMap.all_satisfiedBy_iff.1 (by decide))
    obtain ⟨value, hvalue, hpinned⟩ := hequality ⟨_, hselects⟩
      ⟨"a", .doubleEquals, .singleton "2", by decide⟩ (by simp) rfl (.inr rfl)
    simp only [ValueSet.singleton, ValueSet.mk.injEq, List.cons.injEq, and_true] at hvalue
    rw [hpinned, ← hvalue]
  · obtain ⟨-, -, hmembership, -⟩ := pinnedValue?_spec (ofRequirements
      [⟨"a", .isIn, .ofList ["2", "3"], by decide⟩, ⟨"a", .isIn, .singleton "2", by decide⟩]) "a"
    refine (hmembership (by simp) "2").2
      ⟨⟨"a", .isIn, .singleton "2", by decide⟩, by simp, rfl, rfl, ?_, rfl⟩
    simp
    decide

end Selector

end LabelSelector
