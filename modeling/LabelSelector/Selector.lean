/-
LabelSelector.Selector — a conjunction of requirements, in canonical order.

A selector either asks for all of some requirements or is `nothing`, which no label map satisfies.
The requirements are a sorted list in which duplicates stay, so two selectors that ask for the same
requirements equally often are equal, and the canonical text of a selector is that of its
requirements in order.
-/
import LabelSelector.Requirement.Order
import LabelSelector.Requirement.Parser
import LabelSelector.Requirement.Printer
import LabelSelector.Requirement.Satisfaction

namespace LabelSelector

/-- A condition on label maps. -/
inductive Selector where
  /-- All of some requirements have to hold; of none, every label map is selected. -/
  | all (requirements : List Requirement) (sorted : Requirement.Sorted requirements)
  /-- No label map is selected. -/
  | nothing
  deriving DecidableEq

namespace Selector

/-! ## Making selectors -/

/-- The selector that asks for nothing and so selects every label map. -/
def everything : Selector :=
  .all [] .nil

instance : Inhabited Selector :=
  ⟨everything⟩

/-- The selector that asks for some requirements. -/
def ofRequirements (requirements : List Requirement) : Selector :=
  .all (Requirement.sort requirements) (Requirement.sort_sorted requirements)

/-- The selector that a text describes. -/
def parse (text : String) : Except Fault Selector :=
  (Requirement.parse text).map ofRequirements

/-- The selector that asks every key of some pairs to have its value; the first pair that selector
text cannot spell decides the fault. -/
def ofLabels (pairs : List (String × String)) : Except Fault Selector :=
  (pairs.mapM fun pair => Requirement.build pair.1 .equals (.singleton pair.2)).map ofRequirements

/-! ## What a selector asks for -/

/-- The requirements of a selector, in canonical order. -/
def requirements : Selector → List Requirement
  | .all requirements _ => requirements
  | .nothing => []

/-- The selector that asks for further requirements too. Nothing can be added to `nothing`. -/
def add (selector : Selector) (more : List Requirement) : Selector :=
  match selector with
  | .all requirements _ => ofRequirements (requirements ++ more)
  | .nothing => .nothing

/-- Whether a selector asks for nothing; `nothing` does not count as such. -/
def isEmpty : Selector → Bool
  | .all requirements _ => requirements.isEmpty
  | .nothing => false

/-- Whether a selector is `nothing`. -/
def isNothing : Selector → Bool
  | .all _ _ => false
  | .nothing => true

/-- The canonical text of a selector; `nothing` has none of its own. -/
def text (selector : Selector) : String :=
  Requirement.textAll selector.requirements

instance : ToString Selector :=
  ⟨text⟩

/-- Whether a selector selects a label map. -/
def selects (selector : Selector) (labels : LabelMap) : Bool :=
  match selector with
  | .all requirements _ => requirements.all fun requirement => requirement.satisfiedBy labels
  | .nothing => false

/-- The one value that a selector pins a key to, as far as the first requirement on the key tells:
an equality, or membership in a set of one value. -/
def pinnedValue? (selector : Selector) (key : String) : Option String :=
  (selector.requirements.find? fun requirement => requirement.key == key).bind fun requirement =>
    match requirement.operator with
    | .equals | .doubleEquals | .isIn => requirement.onlyValue?
    | _ => none

/-! ## Requirements of the selectors made -/

@[simp] theorem requirements_ofRequirements (requirements : List Requirement) :
    (ofRequirements requirements).requirements = Requirement.sort requirements :=
  rfl

/-- What a selector asks for is in canonical order. -/
theorem requirements_sorted (selector : Selector) :
    Requirement.Sorted selector.requirements := by
  cases selector with
  | all requirements sorted => exact sorted
  | nothing => exact List.Pairwise.nil

end Selector

end LabelSelector
