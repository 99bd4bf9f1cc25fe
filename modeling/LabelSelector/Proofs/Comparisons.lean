/-
LabelSelector.Proofs.Comparisons — comparisons compare integers, not texts.

A comparison can be built with a bound that denotes an integer and with no other
(`exists_build_comparison_iff`), and from then on it is that integer alone that counts: it is
satisfied where the value of the key denotes an integer on the right side of it
(`ComparesWith.greaterThan_iff`, `ComparesWith.lessThan_iff`). How the two integers are written,
with a sign or zeros in front or at the ends of the range, makes no difference, and a value that
denotes none, or none that 64 bits can hold, is on neither side.
-/
import LabelSelector.Proofs.Checks
import LabelSelector.Proofs.Conjunction
import LabelSelector.Proofs.IntegerTexts

namespace LabelSelector

open Text

/-! ## 1. Integers as labels -/

namespace LabelMap

variable {labels : LabelMap} {key : String} {m n : Int}

/-- The value of a key denotes an integer. -/
def HasInteger (labels : LabelMap) (key : String) (n : Int) : Prop :=
  ∃ value, labels.get? key = some value ∧ Denotes value n

theorem hasInteger_iff :
    labels.HasInteger key n ↔ (labels.get? key).bind int64? = some n := by
  simp only [HasInteger, Option.bind_eq_some_iff, int64?_eq_some_iff]

theorem HasInteger.eq (hm : labels.HasInteger key m) (hn : labels.HasInteger key n) : m = n := by
  rw [hasInteger_iff] at hm hn
  rw [hm] at hn
  exact Option.some.inj hn

end LabelMap

namespace Requirement

open LabelMap

variable {requirement above below : Requirement} {operator : Operator} {labels : LabelMap}
  {key bound : String} {m n : Int}

/-! ## 2. Single comparisons -/

/-- A comparison can be built with a bound that denotes an integer, and with no other. -/
theorem exists_build_comparison_iff (hk : key ≠ "" ∧ isIdentifier key = true)
    (ho : operator.Compares) :
    (∃ requirement, build key operator (.ofList [bound]) = .ok requirement) ↔
      ∃ n, Denotes bound n := by
  rw [exists_build_iff_fits, ValueSet.toFinset_ofList]
  constructor
  · intro fits
    exact isSome_int64?_iff.1 (fits.integers ho bound (by simp))
  · intro ⟨n, hn⟩
    have hvalue : ∀ value ∈ [bound].toFinset, value = bound := by simp
    refine ⟨hk, fun value hmem => ?_, ?_, fun _ value hmem => ?_⟩
    · rw [hvalue value hmem]
      exact hn.isIdentifier
    · rcases ho with rfl | rfl <;> rfl
    · rw [hvalue value hmem]
      exact isSome_int64?_iff.2 ⟨n, hn⟩

/-- A comparison of a key with an integer, in whatever way its bound is written. -/
def ComparesWith (requirement : Requirement) (key : String) (operator : Operator) (n : Int) :
    Prop :=
  ∃ bound, Denotes bound n ∧ build key operator (.ofList [bound]) = .ok requirement

theorem ComparesWith.parts (h : requirement.ComparesWith key operator n) :
    requirement.key = key ∧ requirement.operator = operator ∧ requirement.bound? = some n := by
  obtain ⟨bound, hn, hbuild⟩ := h
  obtain ⟨hkey, hoperator, hvalues⟩ := build_eq_ok_iff.1 hbuild
  refine ⟨hkey, hoperator, ?_⟩
  rw [bound?, firstValue?, hvalues]
  exact int64?_eq_some_iff.2 hn

/-- A relation holds of a key's value and the bound when it holds of the integers they denote. -/
theorem ComparesWith.compares_iff (h : requirement.ComparesWith key operator n)
    (relation : Int → Int → Bool) : requirement.compares relation labels = true ↔
      ∃ m, labels.HasInteger key m ∧ relation m n = true := by
  obtain ⟨hkey, -, hbound⟩ := h.parts
  rw [compares, hkey, hbound]
  cases hread : (labels.get? key).bind int64? with
  | none => simp [hasInteger_iff, hread]
  | some actual => simp [hasInteger_iff, hread]

theorem ComparesWith.greaterThan_iff (h : requirement.ComparesWith key .greaterThan n) :
    requirement.satisfiedBy labels = true ↔ ∃ m, labels.HasInteger key m ∧ n < m := by
  rw [satisfiedBy, h.parts.2.1]
  simp only [h.compares_iff, decide_eq_true_eq]

theorem ComparesWith.lessThan_iff (h : requirement.ComparesWith key .lessThan n) :
    requirement.satisfiedBy labels = true ↔ ∃ m, labels.HasInteger key m ∧ m < n := by
  rw [satisfiedBy, h.parts.2.1]
  simp only [h.compares_iff, decide_eq_true_eq]

/-- How a bound is written makes no difference. -/
theorem ComparesWith.satisfiedBy_eq {other : Requirement} (ho : operator.Compares)
    (h : requirement.ComparesWith key operator n) (h' : other.ComparesWith key operator n)
    (labels : LabelMap) : requirement.satisfiedBy labels = other.satisfiedBy labels := by
  rw [Bool.eq_iff_iff]
  rcases ho with rfl | rfl
  · rw [h.greaterThan_iff, h'.greaterThan_iff]
  · rw [h.lessThan_iff, h'.lessThan_iff]

/-! ## 3. Comparisons on both sides -/

/-- On one integer the comparisons come down to the order of the integers. -/
theorem ComparesWith.iff_lt (ha : above.ComparesWith key .greaterThan n)
    (hb : below.ComparesWith key .lessThan n) (hm : labels.HasInteger key m) :
    (above.satisfiedBy labels = true ↔ n < m) ∧ (below.satisfiedBy labels = true ↔ m < n) := by
  rw [ha.greaterThan_iff, hb.lessThan_iff]
  constructor
  · exact ⟨fun ⟨_, hm', hlt⟩ => hm.eq hm' ▸ hlt, fun hlt => ⟨m, hm, hlt⟩⟩
  · exact ⟨fun ⟨_, hm', hlt⟩ => hm.eq hm' ▸ hlt, fun hlt => ⟨m, hm, hlt⟩⟩

/-- One of three holds: the integer is above the bound, below it, or the bound itself. -/
theorem ComparesWith.trichotomy (ha : above.ComparesWith key .greaterThan n)
    (hb : below.ComparesWith key .lessThan n) (hm : labels.HasInteger key m) :
    (above.satisfiedBy labels = true ∧ below.satisfiedBy labels = false ∧ m ≠ n) ∨
      (above.satisfiedBy labels = false ∧ below.satisfiedBy labels = true ∧ m ≠ n) ∨
      (above.satisfiedBy labels = false ∧ below.satisfiedBy labels = false ∧ m = n) := by
  obtain ⟨habove, hbelow⟩ := ha.iff_lt hb hm
  simp only [← Bool.not_eq_true, habove, hbelow]
  omega

/-- Two comparisons together ask for an integer between their bounds. -/
theorem ComparesWith.between_iff (ha : above.ComparesWith key .greaterThan m)
    (hb : below.ComparesWith key .lessThan n) :
    (Selector.ofRequirements [above, below]).selects labels = true ↔
      ∃ i, labels.HasInteger key i ∧ m < i ∧ i < n := by
  have hpair : labels.SatisfiesAll [above, below] ↔
      above.satisfiedBy labels = true ∧ below.satisfiedBy labels = true := by
    simp [SatisfiesAll]
  rw [Selector.selects_ofRequirements, hpair, ha.greaterThan_iff, hb.lessThan_iff]
  constructor
  · rintro ⟨⟨i, hi, hlt⟩, ⟨j, hj, hgt⟩⟩
    rw [hj.eq hi] at hgt
    exact ⟨i, hi, hlt, hgt⟩
  · rintro ⟨i, hi, hlt, hgt⟩
    exact ⟨⟨i, hi, hlt⟩, ⟨i, hi, hgt⟩⟩

/-- A comparison can be built with the bounds that denote a signed 64-bit integer, and is satisfied
by the label maps in which the value of the key denotes one that is greater, or smaller. So each
such value is above a bound, below it or equal to it, and no other value is either; bounds that
denote the same integer ask for the same; and two comparisons ask for what lies between. -/
theorem comparisons_of_integers (key : String) (hk : key ≠ "" ∧ isIdentifier key = true) :
    (∀ (operator : Operator) (bound : String), operator.Compares →
      ((∃ requirement, build key operator (.ofList [bound]) = .ok requirement) ↔
        ∃ n, Denotes bound n)) ∧
    (∀ (above : Requirement) (n : Int), above.ComparesWith key .greaterThan n →
      ∀ labels : LabelMap, above.satisfiedBy labels = true ↔
        ∃ m, labels.HasInteger key m ∧ n < m) ∧
    (∀ (below : Requirement) (n : Int), below.ComparesWith key .lessThan n →
      ∀ labels : LabelMap, below.satisfiedBy labels = true ↔
        ∃ m, labels.HasInteger key m ∧ m < n) ∧
    (∀ (above below : Requirement) (n : Int), above.ComparesWith key .greaterThan n →
      below.ComparesWith key .lessThan n → ∀ labels : LabelMap,
      (∀ m, labels.HasInteger key m →
        (above.satisfiedBy labels = true ∧ below.satisfiedBy labels = false ∧ m ≠ n) ∨
        (above.satisfiedBy labels = false ∧ below.satisfiedBy labels = true ∧ m ≠ n) ∨
        (above.satisfiedBy labels = false ∧ below.satisfiedBy labels = false ∧ m = n)) ∧
      ((∀ m, ¬ labels.HasInteger key m) →
        above.satisfiedBy labels = false ∧ below.satisfiedBy labels = false)) ∧
    (∀ (operator : Operator) (n : Int), operator.Compares → ∀ a b : Requirement,
      a.ComparesWith key operator n → b.ComparesWith key operator n →
      ∀ labels, a.satisfiedBy labels = b.satisfiedBy labels) ∧
    (∀ (above below : Requirement) (m n : Int), above.ComparesWith key .greaterThan m →
      below.ComparesWith key .lessThan n → ∀ labels : LabelMap,
      (Selector.ofRequirements [above, below]).selects labels = true ↔
        ∃ i, labels.HasInteger key i ∧ m < i ∧ i < n) := by
  refine ⟨fun _ _ ho => exists_build_comparison_iff hk ho, fun _ _ h _ => h.greaterThan_iff,
    fun _ _ h _ => h.lessThan_iff, fun above below n ha hb labels => ⟨?_, ?_⟩,
    fun _ _ ho _ _ ha hb labels => ha.satisfiedBy_eq ho hb labels,
    fun _ _ _ _ ha hb _ => ha.between_iff hb⟩
  · intro m hm
    exact ha.trichotomy hb hm
  · intro hno
    rw [← Bool.not_eq_true, ← Bool.not_eq_true, ha.greaterThan_iff, hb.lessThan_iff]
    exact ⟨fun ⟨m, hm, _⟩ => hno m hm, fun ⟨m, hm, _⟩ => hno m hm⟩

/-- A bound one past the end of the range cannot be built, and a value as far out is above no bound
at all. A plus sign and zeros in front do no harm, neither to a bound nor to a value. -/
theorem comparisons_of_integers_far_out :
    (¬ ∃ requirement, build "n" .lessThan (.ofList ["9223372036854775808"]) = .ok requirement) ∧
    ∃ above, build "n" .greaterThan (.ofList ["+007"]) = .ok above ∧
      above.satisfiedBy (.ofList [("n", "0010")]) = true ∧
      above.satisfiedBy (.ofList [("n", "9223372036854775808")]) = false := by
  obtain ⟨hbuild, hgreater, -⟩ := comparisons_of_integers "n" (by decide +kernel)
  have hseven : Denotes "+007" 7 := int64?_eq_some_iff.1 (by decide +kernel)
  have hten : Denotes "0010" 10 := int64?_eq_some_iff.1 (by decide +kernel)
  constructor
  · rw [hbuild .lessThan _ (.inr rfl), ← isSome_int64?_iff]
    decide +kernel
  · obtain ⟨above, habove⟩ := (hbuild .greaterThan "+007" (.inl rfl)).2 ⟨7, hseven⟩
    have hiff := hgreater above 7 ⟨"+007", hseven, habove⟩
    refine ⟨above, habove, (hiff _).2 ⟨10, ⟨"0010", rfl, hten⟩, by decide⟩, ?_⟩
    rw [← Bool.not_eq_true, hiff]
    intro ⟨m, hm, _⟩
    rw [hasInteger_iff] at hm
    revert hm
    have hnone : ((LabelMap.ofList [("n", "9223372036854775808")]).get? "n").bind int64? =
        none := by decide +kernel
    rw [hnone]
    nofun

end Requirement

end LabelSelector
