/-
LabelSelector.Proofs.OwnKeys — a selector looks at its own keys, and at each of them apart.

Label maps that agree on the keys a selector asks about are all the same to it (`selects_congr`).
Since every requirement is about one key, the requirements on different keys cannot get into each
other's way either: a label map for each key, whatever it says of other keys, can be put together to
one label map (`LabelMap.gather`), in which each key has the value it has in its own map, or none if
it has none there. So a selector has something to select exactly when its requirements on each key
have (`exists_selects_iff_onKey`).
-/
import LabelSelector.Proofs.Conjunction

namespace LabelSelector

/-! ## 1. One label map from many -/

namespace LabelMap

variable {maps : String → LabelMap} {keys : List String} {key value : String}

/-- The pairs of some keys and the values that each of them has in a map of its own. -/
def ownPairs (maps : String → LabelMap) (keys : List String) : List (String × String) :=
  keys.filterMap fun key => ((maps key).get? key).map fun value => (key, value)

/-- The label map in which each of some keys stands as it does in a map of its own. -/
def gather (maps : String → LabelMap) (keys : List String) : LabelMap :=
  ofList (ownPairs maps keys)

theorem mem_ownPairs : (key, value) ∈ ownPairs maps keys ↔
    key ∈ keys ∧ (maps key).get? key = some value := by
  simp only [ownPairs, List.mem_filterMap, Option.map_eq_some_iff, Prod.mk.injEq]
  constructor
  · rintro ⟨_, hmem, _, hget, rfl, rfl⟩
    exact ⟨hmem, hget⟩
  · rintro ⟨hmem, hget⟩
    exact ⟨key, hmem, value, hget, rfl, rfl⟩

theorem consistent_ownPairs (maps : String → LabelMap) (keys : List String) :
    Consistent (ownPairs maps keys) := by
  intro key a b ha hb
  have hsame := (mem_ownPairs.1 ha).2
  rw [(mem_ownPairs.1 hb).2] at hsame
  exact (Option.some.inj hsame).symm

/-- A key that is gathered is looked up in its own map. -/
theorem get?_gather (maps : String → LabelMap) (hmem : key ∈ keys) :
    (gather maps keys).get? key = (maps key).get? key := by
  apply Option.ext
  intro value
  rw [gather, get?_ofList_eq_some_iff (consistent_ownPairs maps keys), mem_ownPairs,
    and_iff_right hmem]

end LabelMap

namespace Selector

variable {selector : Selector} {a b labels : LabelMap} {key : String}

/-! ## 2. The keys of a selector -/

/-- The keys that a selector asks about. -/
def keys (selector : Selector) : List String :=
  selector.requirements.map Requirement.key

theorem mem_keys {requirement : Requirement} (hmem : requirement ∈ selector.requirements) :
    requirement.key ∈ selector.keys :=
  List.mem_map_of_mem hmem

/-- What a selector asks of its keys does not depend on any other key. -/
theorem satisfiesAll_congr (h : ∀ key ∈ selector.keys, a.get? key = b.get? key) :
    a.SatisfiesAll selector.requirements ↔ b.SatisfiesAll selector.requirements := by
  refine forall₂_congr fun requirement hmem => ?_
  rw [Requirement.satisfiedBy_congr (h _ (mem_keys hmem))]

/-- Label maps that agree on a selector's keys are selected together. -/
theorem selects_congr (h : ∀ key ∈ selector.keys, a.get? key = b.get? key) :
    selector.selects a = selector.selects b := by
  rw [Bool.eq_iff_iff, selects_iff, selects_iff, satisfiesAll_congr h]

/-! ## 3. One key at a time -/

/-- What a selector asks of one key. -/
def onKey (selector : Selector) (key : String) : Selector :=
  ofRequirements (selector.requirements.filter fun requirement => requirement.key == key)

theorem selects_onKey : (selector.onKey key).selects labels = true ↔
    ∀ requirement ∈ selector.requirements, requirement.key = key →
      requirement.satisfiedBy labels = true := by
  rw [onKey, selects_ofRequirements]
  simp only [LabelMap.SatisfiesAll, List.mem_filter, beq_iff_eq, and_imp]

/-- What selects a label map selects it for what is asked of each key. -/
theorem selects_onKey_of_selects (h : selector.selects labels = true) (key : String) :
    (selector.onKey key).selects labels = true :=
  selects_onKey.2 fun requirement hmem _ => (selects_iff.1 h).2 requirement hmem

/-- A label map for what is asked of each key makes one for all that is asked. -/
theorem selects_gather {maps : String → LabelMap} (h : selector ≠ .nothing)
    (hmaps : ∀ key, (selector.onKey key).selects (maps key) = true) :
    selector.selects (.gather maps selector.keys) = true := by
  refine selects_iff.2 ⟨h, fun requirement hmem => ?_⟩
  have hown : requirement.satisfiedBy (maps requirement.key) = true :=
    selects_onKey.1 (hmaps requirement.key) requirement hmem rfl
  have hget := LabelMap.get?_gather maps (mem_keys hmem)
  rw [Requirement.satisfiedBy_congr hget, hown]

/-- Whether a selector has anything to select is decided key by key. -/
theorem exists_selects_iff_onKey (h : selector ≠ .nothing) :
    (∃ labels, selector.selects labels = true) ↔
      ∀ key, ∃ labels, (selector.onKey key).selects labels = true := by
  constructor
  · intro ⟨labels, hs⟩ key
    exact ⟨labels, selects_onKey_of_selects hs key⟩
  · intro hall
    choose maps hmaps using hall
    exact ⟨_, selects_gather h hmaps⟩

/-- A selector does not tell label maps apart that agree on the keys it asks about, and its keys do
not interact: where each key by itself can be given what is asked of it, all of them can be at
once. -/
theorem keys_do_not_interact (selector : Selector) :
    (∀ a b : LabelMap, (∀ key ∈ selector.keys, a.get? key = b.get? key) →
      selector.selects a = selector.selects b) ∧
    (selector ≠ .nothing →
      ((∃ labels, selector.selects labels = true) ↔
        ∀ key, ∃ labels, (selector.onKey key).selects labels = true)) :=
  ⟨fun _ _ => selects_congr, exists_selects_iff_onKey⟩

/-- A label that is not asked about may come or go. A map that has what is asked of one key and the
opposite of what is asked of another will do for the first of them. -/
theorem keys_do_not_interact_absence :
    let selector := ofRequirements [⟨"a", .equals, .singleton "1", by decide⟩,
      ⟨"b", .absent, .empty, by decide⟩]
    selector.selects (.ofList [("a", "1"), ("c", "2")]) =
        selector.selects (.ofList [("a", "1")]) ∧
      ∃ labels, selector.selects labels = true := by
  intro selector
  have hasked : ∀ requirement ∈ selector.requirements,
      requirement = ⟨"a", .equals, .singleton "1", by decide⟩ ∨
        requirement = ⟨"b", .absent, .empty, by decide⟩ := by
    simp [selector]
  obtain ⟨hagree, hkeys⟩ := keys_do_not_interact selector
  constructor
  · refine hagree _ _ fun key hmem => ?_
    obtain ⟨requirement, hasks, rfl⟩ := List.mem_map.1 hmem
    rcases hasked requirement hasks with rfl | rfl <;> rfl
  · have hasks : selector ≠ .nothing := by simp [selector, ofRequirements]
    refine (hkeys hasks).2 fun key => ?_
    by_cases ha : key = "a"
    · refine ⟨.ofList [("a", "1"), ("b", "1")], selects_onKey.2 fun requirement hmem hkey => ?_⟩
      rcases hasked requirement hmem with rfl | rfl
      · decide
      · exact absurd (hkey.trans ha) (by decide)
    · refine ⟨.ofList [("a", "2")], selects_onKey.2 fun requirement hmem hkey => ?_⟩
      rcases hasked requirement hmem with rfl | rfl
      · exact absurd hkey.symm ha
      · decide

end Selector

end LabelSelector
