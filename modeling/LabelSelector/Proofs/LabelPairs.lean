/-
LabelSelector.Proofs.LabelPairs — the selector of some labels asks for just these labels.

A pair of a key and a value that selector text can spell (`Spellable`) is one requirement, an
equality (`ofPair`); of any other pair something cannot be an identifier (`unspelled`). So either
all pairs of a list are requirements, or the first pair that cannot be spelled decides the fault
(`mapM_buildPair`, `mapM_buildPair_eq_error`).

What the selector of the pairs selects and pins, and what its text is, can then be told from the
pairs alone. Pairs that disagree about a key are no fault: they leave nothing to select, and the
least of their values is the one that is pinned.
-/
import LabelSelector.Proofs.Checks
import LabelSelector.Proofs.PinnedValues

namespace LabelSelector

open Text

namespace Requirement

variable {pairs before after : List (String × String)} {pair : String × String}
  {labels : LabelMap} {key value other : String}

/-! ## 1. One pair -/

/-- A pair of a key and a value that selector text can spell. -/
structure Spellable (pair : String × String) : Prop where
  key : pair.1 ≠ "" ∧ isIdentifier pair.1 = true
  value : isIdentifier pair.2 = true

/-- What cannot be spelled of a pair that cannot be: its key, or if nothing is wrong with that its
value. -/
def unspelled (pair : String × String) : String :=
  if pair.1 ≠ "" ∧ isIdentifier pair.1 = true then pair.2 else pair.1

theorem Spellable.fault?_eq (h : Spellable pair) :
    fault? pair.1 .equals (.singleton pair.2) = none := by
  apply Grammar.fault?_eq_none h.key
  · intro value hmem
    rw [ValueSet.mem_singleton.1 hmem]
    exact h.value
  · exact Grammar.fault?_singleton_of_equality pair.2 .equals

/-- The requirement that the key of a pair has its value. -/
def ofPair (pair : String × String) (h : Spellable pair) : Requirement :=
  ⟨pair.1, .equals, .singleton pair.2, h.fault?_eq⟩

/-- The requirement of a pair, or what is wrong with it. -/
def buildPair (pair : String × String) : Except Fault Requirement :=
  build pair.1 .equals (.singleton pair.2)

theorem buildPair_of_spellable (h : Spellable pair) : buildPair pair = .ok (ofPair pair h) :=
  build_eq_ok_iff.2 ⟨rfl, rfl, rfl⟩

theorem buildPair_of_not_spellable (h : ¬ Spellable pair) :
    buildPair pair = .error (.invalidIdentifier (unspelled pair)) := by
  apply build_eq_error_iff.2
  unfold unspelled
  split
  · rename_i hk
    have hv : isIdentifier pair.2 = false := by
      rw [Bool.eq_false_iff]
      intro hv
      exact h ⟨hk, hv⟩
    apply fault?_of_value hk
    simp [ValueSet.singleton, hv]
  · rename_i hk
    exact fault?_of_key hk

/-! ## 2. Some pairs -/

/-- Where every pair can be spelled, every pair is a requirement. -/
theorem mapM_buildPair (h : ∀ pair ∈ pairs, Spellable pair) :
    pairs.mapM buildPair = .ok (pairs.pmap ofPair h) := by
  induction pairs with
  | nil => rfl
  | cons pair rest ih =>
    have hrest := ih fun other hmem => h other (List.mem_cons_of_mem _ hmem)
    rw [List.mapM_cons, buildPair_of_spellable (h pair List.mem_cons_self), hrest]
    rfl

/-- The first pair that cannot be spelled decides the fault, whatever comes after it. -/
theorem mapM_buildPair_eq_error (hbefore : ∀ earlier ∈ before, Spellable earlier)
    (h : ¬ Spellable pair) : (before ++ pair :: after).mapM buildPair =
      .error (.invalidIdentifier (unspelled pair)) := by
  rw [List.mapM_append, mapM_buildPair hbefore, List.mapM_cons, buildPair_of_not_spellable h]
  rfl

/-- Every pair can be spelled, or there is a first one that cannot. -/
theorem spellable_or_first (pairs : List (String × String)) :
    (∀ pair ∈ pairs, Spellable pair) ∨ ∃ before pair after, pairs = before ++ pair :: after ∧
      (∀ earlier ∈ before, Spellable earlier) ∧ ¬ Spellable pair := by
  induction pairs with
  | nil => exact .inl (by simp)
  | cons pair rest ih =>
    by_cases hpair : Spellable pair
    · rcases ih with hall | ⟨before, bad, after, rfl, hbefore, hbad⟩
      · exact .inl (List.forall_mem_cons.2 ⟨hpair, hall⟩)
      · exact .inr ⟨pair :: before, bad, after, rfl, List.forall_mem_cons.2 ⟨hpair, hbefore⟩, hbad⟩
    · exact .inr ⟨[], pair, rest, rfl, by simp, hpair⟩

/-! ## 3. What pairs ask for -/

theorem pins_ofPair (h : Spellable pair) : (ofPair pair h).Pins pair.2 :=
  ⟨.inl rfl, rfl⟩

theorem mem_ofPairs (h : ∀ pair ∈ pairs, Spellable pair) (hmem : pair ∈ pairs) :
    ofPair pair (h pair hmem) ∈ pairs.pmap ofPair h :=
  List.mem_pmap.2 ⟨pair, hmem, rfl⟩

theorem satisfiesAll_ofPairs (h : ∀ pair ∈ pairs, Spellable pair) :
    labels.SatisfiesAll (pairs.pmap ofPair h) ↔
      ∀ key value, (key, value) ∈ pairs → labels.get? key = some value := by
  unfold LabelMap.SatisfiesAll
  constructor
  · intro hall key value hmem
    have hsat := hall _ (mem_ofPairs h hmem)
    exact (pins_ofPair (h _ hmem)).satisfiedBy_iff.1 hsat
  · intro hall requirement hmem
    obtain ⟨pair, hpair, rfl⟩ := List.mem_pmap.1 hmem
    exact (pins_ofPair (h pair hpair)).satisfiedBy_iff.2 (hall pair.1 pair.2 hpair)

/-- Of the requirements on one key that pairs make, that of the least value comes first. -/
theorem precedes_ofPair_iff (ha : Spellable (key, value)) (hb : Spellable (key, other)) :
    Precedes (ofPair (key, value) ha) (ofPair (key, other) hb) ↔ bytes value ≤ bytes other := by
  have hlists : [value] < [other] ↔ value < other := by
    rw [List.cons_lt_cons_iff]
    simp only [List.lt_irrefl, and_false, or_false]
  have hkey : ¬ key < key := String.lt_irrefl key
  rw [bytes_le_iff, le_iff_lt_or_eq, ← hlists, ← ValueSet.singleton_inj]
  simp only [Precedes, ofPair, hkey, Nat.lt_irrefl, false_or, true_and]
  rfl

/-- The first requirement on a key that pairs make pins it to the least value paired with it. -/
theorem exists_firstOn_ofPairs_iff (h : ∀ pair ∈ pairs, Spellable pair) :
    (∃ first, FirstOn (pairs.pmap ofPair h) key first ∧ first.Pins value) ↔
      (key, value) ∈ pairs ∧ ∀ other, (key, other) ∈ pairs → bytes value ≤ bytes other := by
  constructor
  · rintro ⟨first, ⟨hmem, hkey, hprecedes⟩, -, hvalues⟩
    obtain ⟨⟨key', value'⟩, hpair, rfl⟩ := List.mem_pmap.1 hmem
    obtain rfl : key' = key := hkey
    obtain rfl : value' = value := ValueSet.singleton_inj.1 hvalues
    refine ⟨hpair, fun other hother => ?_⟩
    have hle := hprecedes _ (mem_ofPairs h hother) rfl
    exact (precedes_ofPair_iff _ _).1 hle
  · rintro ⟨hpair, hleast⟩
    refine ⟨ofPair (key, value) (h _ hpair), ⟨mem_ofPairs h hpair, rfl, ?_⟩,
      pins_ofPair _⟩
    intro requirement hmem hkey
    obtain ⟨⟨key', other⟩, hother, rfl⟩ := List.mem_pmap.1 hmem
    obtain rfl : key' = key := hkey
    exact (precedes_ofPair_iff _ _).2 (hleast other hother)

/-- The text that asks every key of some pairs to have its value. -/
def pairsText (pairs : List (String × String)) : String :=
  ",".intercalate (pairs.map fun pair => pair.1 ++ "=" ++ pair.2)

theorem textAll_ofPairs (h : ∀ pair ∈ pairs, Spellable pair) :
    textAll (pairs.pmap ofPair h) = pairsText pairs := by
  have htext : ∀ pair h, (ofPair pair h).text = pair.1 ++ "=" ++ pair.2 := fun _ _ => rfl
  rw [textAll, pairsText, List.map_pmap]
  simp only [htext, List.pmap_eq_map]

end Requirement

/-! ## 4. Selectors of pairs -/

namespace LabelMap

variable {pairs : List (String × String)}

/-- There is a label map with all of some pairs when no two of them differ in the value of a key. -/
theorem exists_forall_get?_iff :
    (∃ labels : LabelMap, ∀ key value, (key, value) ∈ pairs → labels.get? key = some value) ↔
      Consistent pairs := by
  constructor
  · intro ⟨labels, hall⟩ key a b ha hb
    have hsame := (hall key a ha).symm.trans (hall key b hb)
    exact Option.some.inj hsame
  · intro consistent
    exact ⟨ofList pairs, fun key value => get?_ofList_of_mem consistent⟩

end LabelMap

namespace Selector

open Requirement

variable {pairs before after : List (String × String)} {pair : String × String}
  {selector : Selector} {labels : LabelMap} {key value : String} {fault : Fault}

theorem ofLabels_of_spellable (h : ∀ pair ∈ pairs, Spellable pair) :
    ofLabels pairs = .ok (ofRequirements (pairs.pmap ofPair h)) := by
  show (pairs.mapM buildPair).map ofRequirements = _
  rw [mapM_buildPair h]
  rfl

theorem ofLabels_eq_error (hbefore : ∀ earlier ∈ before, Spellable earlier)
    (h : ¬ Spellable pair) : ofLabels (before ++ pair :: after) =
      .error (.invalidIdentifier (unspelled pair)) := by
  show ((before ++ pair :: after).mapM buildPair).map ofRequirements = _
  rw [mapM_buildPair_eq_error hbefore h]
  rfl

theorem pinnedValue?_ofPairs (h : ∀ pair ∈ pairs, Spellable pair) :
    (ofRequirements (pairs.pmap ofPair h)).pinnedValue? key = some value ↔
      (key, value) ∈ pairs ∧ ∀ other, (key, other) ∈ pairs → bytes value ≤ bytes other := by
  rw [pinnedValue?_eq_some_iff, ← exists_firstOn_ofPairs_iff h]
  simp only [requirements_ofRequirements, firstOn_congr fun _ => mem_sort]

theorem pinnedValue?_ofPairs_eq_none (h : ∀ pair ∈ pairs, Spellable pair) :
    (ofRequirements (pairs.pmap ofPair h)).pinnedValue? key = none ↔
      ∀ value, (key, value) ∉ pairs := by
  constructor
  · intro hnone value hpair
    -- Of the requirements on the key there is a first one, and it pins the key.
    have hmem := mem_sort.2 (mem_ofPairs h hpair)
    obtain ⟨first, hfirst⟩ := exists_firstOn (sort_sorted _) hmem
    obtain ⟨other, hother, heq⟩ := List.mem_pmap.1 (mem_sort.1 hfirst.mem)
    have hpins : first.Pins other.2 := heq ▸ pins_ofPair (h other hother)
    have hpinned : (ofRequirements (pairs.pmap ofPair h)).pinnedValue? key = some other.2 :=
      pinnedValue?_eq_some_iff.2 ⟨first, hfirst, hpins⟩
    rw [hnone] at hpinned
    cases hpinned
  · intro hno
    rw [Option.eq_none_iff_forall_ne_some]
    intro value hsome
    exact hno value ((pinnedValue?_ofPairs h).1 hsome).1

/-- The selector of some pairs is there when all of them can be spelled. -/
theorem ofLabels_eq_ok_iff : ofLabels pairs = .ok selector ↔
    ∃ h : ∀ pair ∈ pairs, Spellable pair, selector = ofRequirements (pairs.pmap ofPair h) := by
  rcases spellable_or_first pairs with hall | ⟨before, bad, after, rfl, hbefore, hbad⟩
  · rw [ofLabels_of_spellable hall, Except.ok.injEq]
    exact ⟨fun h => ⟨hall, h.symm⟩, fun ⟨_, h⟩ => h.symm⟩
  · rw [ofLabels_eq_error hbefore hbad]
    refine ⟨nofun, fun ⟨hall, _⟩ => ?_⟩
    exact absurd (hall bad (by simp)) hbad

/-- What is wrong with some pairs is wrong with the first one that cannot be spelled. -/
theorem ofLabels_eq_error_iff : ofLabels pairs = .error fault ↔
    ∃ before pair after, pairs = before ++ pair :: after ∧
      (∀ earlier ∈ before, Spellable earlier) ∧ ¬ Spellable pair ∧
      fault = .invalidIdentifier (unspelled pair) := by
  constructor
  · intro hfault
    rcases spellable_or_first pairs with hall | ⟨before, bad, after, rfl, hbefore, hbad⟩
    · rw [ofLabels_of_spellable hall] at hfault
      cases hfault
    · rw [ofLabels_eq_error hbefore hbad] at hfault
      cases hfault
      exact ⟨before, bad, after, rfl, hbefore, hbad, rfl⟩
  · rintro ⟨before, pair, after, rfl, hbefore, hpair, rfl⟩
    exact ofLabels_eq_error hbefore hpair

/-- A list of pairs has no selector exactly when one of them cannot be spelled, and the first such
pair is what is wrong. The selector of any other list selects the label maps with all of the pairs,
which there are unless two pairs differ in the value of a key; it pins every key of a pair to the
least value paired with it, in the order of bytes, and no other key; and it is what the pairs
describe when they are written with an equals sign each and joined by commas. -/
theorem ofLabels_asks_for_pairs (pairs : List (String × String)) :
    ((∃ fault, ofLabels pairs = .error fault) ↔ ∃ pair ∈ pairs, ¬ Spellable pair) ∧
      (∀ fault, ofLabels pairs = .error fault ↔ ∃ before pair after,
        pairs = before ++ pair :: after ∧ (∀ earlier ∈ before, Spellable earlier) ∧
          ¬ Spellable pair ∧ fault = .invalidIdentifier (unspelled pair)) ∧
      ∀ selector, ofLabels pairs = .ok selector →
        (∀ labels, selector.selects labels = true ↔
          ∀ key value, (key, value) ∈ pairs → labels.get? key = some value) ∧
        ((∃ labels, selector.selects labels = true) ↔ LabelMap.Consistent pairs) ∧
        (∀ key value, selector.pinnedValue? key = some value ↔
          (key, value) ∈ pairs ∧ ∀ other, (key, other) ∈ pairs → bytes value ≤ bytes other) ∧
        (∀ key, selector.pinnedValue? key = none ↔ ∀ value, (key, value) ∉ pairs) ∧
        parse (pairsText pairs) = .ok selector := by
  refine ⟨?_, fun fault => ofLabels_eq_error_iff, fun selector hselector => ?_⟩
  · constructor
    · intro ⟨fault, hfault⟩
      obtain ⟨before, pair, after, rfl, -, hpair, -⟩ := ofLabels_eq_error_iff.1 hfault
      exact ⟨pair, by simp, hpair⟩
    · intro ⟨pair, hmem, hpair⟩
      rcases spellable_or_first pairs with hall | ⟨before, bad, after, rfl, hbefore, hbad⟩
      · exact absurd (hall pair hmem) hpair
      · exact ⟨_, ofLabels_eq_error hbefore hbad⟩
  · obtain ⟨h, rfl⟩ := ofLabels_eq_ok_iff.1 hselector
    have hselects (labels : LabelMap) :
        (ofRequirements (pairs.pmap ofPair h)).selects labels = true ↔
          ∀ key value, (key, value) ∈ pairs → labels.get? key = some value := by
      rw [selects_ofRequirements, satisfiesAll_ofPairs h]
    refine ⟨hselects, ?_, fun _ _ => pinnedValue?_ofPairs h,
      fun _ => pinnedValue?_ofPairs_eq_none h, ?_⟩
    · simp only [hselects, LabelMap.exists_forall_get?_iff]
    · rw [← textAll_ofPairs h]
      exact parse_of_requirements (parse_textAll _)

/-- Two values for one key can be asked for but not had together, and the lesser one is pinned. Of
two pairs that cannot be spelled the first one is at fault. -/
theorem ofLabels_asks_for_pairs_disagreeing :
    (∃ selector, ofLabels [("b", "2"), ("a", ""), ("b", "10")] = .ok selector ∧
      selector.pinnedValue? "b" = some "10" ∧ (∀ labels, selector.selects labels = false) ∧
      parse "b=2,a=,b=10" = .ok selector) ∧
    ofLabels [("a", "1"), ("b", "x y"), ("", "z")] = .error (.invalidIdentifier "x y") := by
  constructor
  · have h : ∀ pair ∈ [("b", "2"), ("a", ""), ("b", "10")], Spellable pair := by
      simp only [List.forall_mem_cons]
      exact ⟨⟨by decide +kernel, by decide +kernel⟩, ⟨by decide +kernel, by decide +kernel⟩,
        ⟨by decide +kernel, by decide +kernel⟩, by simp⟩
    obtain ⟨-, -, hselector⟩ := ofLabels_asks_for_pairs [("b", "2"), ("a", ""), ("b", "10")]
    obtain ⟨-, hselects, hpinned, -, hparse⟩ := hselector _ (ofLabels_of_spellable h)
    refine ⟨_, ofLabels_of_spellable h, ?_, fun labels => ?_, hparse⟩
    · refine (hpinned "b" "10").2 ⟨by simp, fun other hother => ?_⟩
      obtain rfl | rfl : other = "2" ∨ other = "10" := by simpa using hother
      · decide +kernel
      · exact List.le_refl _
    · rw [Bool.eq_false_iff]
      intro h
      have hsame := hselects.1 ⟨labels, h⟩ "b" "2" "10" (by simp) (by simp)
      exact absurd hsame (by decide)
  · obtain ⟨-, hfault, -⟩ := ofLabels_asks_for_pairs [("a", "1"), ("b", "x y"), ("", "z")]
    refine (hfault _).2 ⟨[("a", "1")], ("b", "x y"), [("", "z")], rfl, ?_, ?_, by decide +kernel⟩
    · intro earlier hmem
      rw [List.mem_singleton.1 hmem]
      exact ⟨by decide +kernel, by decide +kernel⟩
    · intro h
      exact absurd h.value (by decide +kernel)

end Selector

end LabelSelector
