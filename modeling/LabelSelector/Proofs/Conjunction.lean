/-
LabelSelector.Proofs.Conjunction — a selector is the conjunction of its requirements.

A label map is selected when it satisfies each requirement (`SatisfiesAll`) and the selector is
not `nothing` (`selects_iff`). Satisfying each of some requirements does not depend on their order
or number (`satisfiesAll_congr`), so it is all the same for what a caller wrote and for the sorted
list that a selector keeps of it. Everything else follows from what the makers of selectors do to
that list: making keeps it, adding appends to it, parsing finds it in a text, and a comma between
two texts that are not blank puts two such lists together (`parse_comma_of_not_blank`).
-/
import LabelSelector.Proofs.Concatenation

namespace LabelSelector

/-! ## 1. Requirements -/

namespace LabelMap

/-- A label map satisfies each of some requirements. -/
def SatisfiesAll (labels : LabelMap) (requirements : List Requirement) : Prop :=
  ∀ requirement ∈ requirements, requirement.satisfiedBy labels = true

variable {labels : LabelMap} {a b : List Requirement}

@[simp] theorem satisfiesAll_append :
    labels.SatisfiesAll (a ++ b) ↔ labels.SatisfiesAll a ∧ labels.SatisfiesAll b := by
  simp [SatisfiesAll, or_imp, forall_and]

/-- What is asked for twice, or in another order, asks for nothing else. -/
theorem satisfiesAll_congr (h : ∀ requirement, requirement ∈ a ↔ requirement ∈ b) :
    labels.SatisfiesAll a ↔ labels.SatisfiesAll b := by
  simp [SatisfiesAll, h]

theorem satisfiesAll_sort : labels.SatisfiesAll (Requirement.sort a) ↔ labels.SatisfiesAll a :=
  satisfiesAll_congr fun _ => Requirement.mem_sort

/-- Satisfying each requirement is decided by asking them in turn. -/
theorem all_satisfiedBy_iff :
    (a.all fun requirement => requirement.satisfiedBy labels) = true ↔ labels.SatisfiesAll a := by
  simp [SatisfiesAll]

end LabelMap

/-! ## 2. Selectors -/

namespace Selector

variable {selector : Selector} {labels : LabelMap} {requirements more : List Requirement}

@[simp] theorem selects_nothing (labels : LabelMap) : nothing.selects labels = false :=
  rfl

theorem selects_all (sorted : Requirement.Sorted requirements) :
    (all requirements sorted).selects labels = true ↔ labels.SatisfiesAll requirements :=
  LabelMap.all_satisfiedBy_iff

/-- A selector other than `nothing` selects the label maps that satisfy what it asks for. -/
theorem selects_iff : selector.selects labels = true ↔
    selector ≠ .nothing ∧ labels.SatisfiesAll selector.requirements := by
  cases selector with
  | all kept sorted =>
    rw [selects_all]
    simp [Selector.requirements]
  | nothing => simp

theorem selects_ofRequirements : (ofRequirements requirements).selects labels = true ↔
    labels.SatisfiesAll requirements := by
  rw [ofRequirements, selects_all, LabelMap.satisfiesAll_sort]

theorem selects_add : (selector.add more).selects labels = true ↔
    selector.selects labels = true ∧ labels.SatisfiesAll more := by
  cases selector with
  | all kept sorted =>
    show (ofRequirements (kept ++ more)).selects labels = true ↔ _
    rw [selects_ofRequirements, LabelMap.satisfiesAll_append, selects_all]
  | nothing => simp [add]

/-- What is not selected stays so, whatever is added. -/
theorem selects_add_eq_false (h : selector.selects labels = false) :
    (selector.add more).selects labels = false := by
  rw [Bool.eq_false_iff, ne_eq, selects_add, h]
  simp

end Selector

/-! ## 3. Texts -/

open Lexeme

/-- A text that is accepted lists no requirements exactly when it is blank. -/
theorem Requirement.eq_nil_iff_blank {text : String} {requirements : List Requirement}
    (h : parse text = .ok requirements) : requirements = [] ↔ Blank text.toList := by
  rw [← body_eq_nil_iff]
  rcases selection_of_parse h with ⟨hbody, hnil⟩ | listed
  · simp [hbody, hnil]
  · obtain ⟨first, rest, hbody, _⟩ := listed.starts.exists_cons
    simp [hbody, listed.ne_nil]

namespace Selector

variable {labels : LabelMap}

/-- The requirements of two texts that are not blank, in turn, are those of the texts with a comma
between them. -/
theorem parse_comma_of_not_blank {first second : String} {a b : List Requirement}
    (ha : Requirement.parse first = .ok a) (hb : Requirement.parse second = .ok b)
    (hfirst : ¬ Blank first.toList) (hsecond : ¬ Blank second.toList) :
    Requirement.parse (first ++ "," ++ second) = .ok (a ++ b) := by
  have ha' : a ≠ [] := fun h => hfirst ((Requirement.eq_nil_iff_blank ha).1 h)
  have hb' : b ≠ [] := fun h => hsecond ((Requirement.eq_nil_iff_blank hb).1 h)
  rw [Requirement.parse_comma ha ha', hb, Requirement.afterComma_ok hb']

/-- A selector selects the label maps that satisfy each of its requirements, whatever it was made
from: a list; a selector and what is added to it, where `nothing` stays without label maps and no
other selector gains any; a text, whose requirements are asked in the order in which they stand;
or two texts with a comma between them, neither of them blank. -/
theorem selects_iff_conjunction (labels : LabelMap) :
    (∀ requirements : List Requirement, (ofRequirements requirements).selects labels = true ↔
        ∀ requirement ∈ requirements, requirement.satisfiedBy labels = true) ∧
      (∀ (selector : Selector) (more : List Requirement),
        ((selector.add more).selects labels = true ↔ selector.selects labels = true ∧
          ∀ requirement ∈ more, requirement.satisfiedBy labels = true) ∧
        (selector = .nothing →
          selector.selects labels = false ∧ (selector.add more).selects labels = false) ∧
        (selector.selects labels = false → (selector.add more).selects labels = false)) ∧
      (∀ (text : String) (requirements : List Requirement),
        Requirement.parse text = .ok requirements → ∃ selector, parse text = .ok selector ∧
          selector.selects labels =
            requirements.all fun requirement => requirement.satisfiedBy labels) ∧
      ∀ (first second : String) (a b : Selector), parse first = .ok a → parse second = .ok b →
        ¬ Blank first.toList → ¬ Blank second.toList →
        ∃ both, parse (first ++ "," ++ second) = .ok both ∧
          (both.selects labels = true ↔ a.selects labels = true ∧ b.selects labels = true) := by
  refine ⟨fun _ => selects_ofRequirements, fun selector more => ⟨selects_add, ?_,
    selects_add_eq_false⟩, ?_, ?_⟩
  · rintro rfl
    exact ⟨rfl, rfl⟩
  · intro text requirements h
    refine ⟨ofRequirements requirements, parse_of_requirements h, ?_⟩
    rw [Bool.eq_iff_iff, selects_ofRequirements, LabelMap.all_satisfiedBy_iff]
  · intro first second a b ha hb hfirst hsecond
    obtain ⟨listed, hlisted, rfl⟩ := parse_eq_ok ha
    obtain ⟨more, hmore, rfl⟩ := parse_eq_ok hb
    have hboth := parse_comma_of_not_blank hlisted hmore hfirst hsecond
    refine ⟨_, parse_of_requirements hboth, ?_⟩
    rw [selects_ofRequirements, selects_ofRequirements, selects_ofRequirements,
      LabelMap.satisfiesAll_append]

/-- Of two texts about one key, a label map that only the first selects is not selected by both
together. -/
theorem selects_iff_conjunction_one_key :
    ∃ first both, parse "a<5,a" = .ok first ∧ parse ("a<5,a" ++ "," ++ "a>1,a!=3") = .ok both ∧
      first.selects (.ofList [("a", "3")]) = true ∧
      both.selects (.ofList [("a", "3")]) = false := by
  have hfirst : Requirement.parse "a<5,a" =
      .ok [⟨"a", .lessThan, .singleton "5", by decide⟩, ⟨"a", .present, .empty, by decide⟩] := by
    decide +kernel
  have hsecond : Requirement.parse "a>1,a!=3" =
      .ok [⟨"a", .greaterThan, .singleton "1", by decide⟩,
        ⟨"a", .notEquals, .singleton "3", by decide⟩] := by
    decide +kernel
  obtain ⟨-, -, htext, hcomma⟩ := selects_iff_conjunction (.ofList [("a", "3")])
  obtain ⟨first, hparse, hselects⟩ := htext _ _ hfirst
  obtain ⟨second, hparse', hselects'⟩ := htext _ _ hsecond
  have hlisted : ¬ Blank "a<5,a".toList :=
    mt (Requirement.eq_nil_iff_blank hfirst).2 (by simp)
  have hlisted' : ¬ Blank "a>1,a!=3".toList :=
    mt (Requirement.eq_nil_iff_blank hsecond).2 (by simp)
  obtain ⟨both, hboth, hiff⟩ := hcomma _ _ _ _ hparse hparse' hlisted hlisted'
  have hno : second.selects (.ofList [("a", "3")]) = false := hselects'.trans (by decide)
  refine ⟨first, both, hparse, hboth, hselects.trans (by decide), ?_⟩
  rw [Bool.eq_false_iff, ne_eq, hiff, hno]
  simp

end Selector

end LabelSelector
