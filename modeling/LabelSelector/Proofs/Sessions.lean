/-
LabelSelector.Proofs.Sessions — what the selectors of a session are, and where they come from.

Whatever made it, a selector other than `nothing` is described by its canonical text: parsing the
text gives back the selector (`Selector.parse_text`), so the text tells it from every other
(`Selector.text_inj`). What a name holds after a step is what the step made for it, or what it held
before (`get_step`). Of all recipes only those that pass on a selector they were given make
`nothing` out of `nothing` (`make_eq_nothing_iff`); `FromNothing` follows these through a whole
sequence of commands, and `get_after_eq_nothing_iff` says that nobody else holds `nothing`.
-/
import LabelSelector.Proofs.Concatenation
import LabelSelector.Proofs.RoundTrip
import LabelSelector.Session
import Mathlib.Data.List.Induction

namespace LabelSelector

/-! ## 1. Selectors and their texts -/

namespace Draft

/-- A requirement written down from its parts. -/
def ofRequirement (requirement : Requirement) : Draft :=
  ⟨requirement.key, requirement.operator.text, requirement.values.toList⟩

/-- A requirement passes validation again and comes out as it is. -/
theorem build_requirement (requirement : Requirement) :
    Requirement.build requirement.key requirement.operator
      (.ofList requirement.values.toList) = .ok requirement := by
  rw [ValueSet.ofList_toList, Requirement.build_self]

theorem build_ofRequirement (requirement : Requirement) :
    (ofRequirement requirement).build = .ok requirement := by
  show (Operator.ofText requirement.operator.text >>= fun operator =>
    Requirement.build requirement.key operator (.ofList requirement.values.toList)) = _
  rw [Operator.ofText_text]
  exact build_requirement requirement

/-- Requirements found somewhere can be written down, and are built as they are. -/
theorem buildAll_ofRequirement (requirements : List Requirement) :
    buildAll (requirements.map ofRequirement) = .ok requirements := by
  induction requirements with
  | nil => rfl
  | cons requirement requirements ih =>
    rw [buildAll] at ih
    rw [buildAll, List.map_cons, List.mapM_cons, build_ofRequirement, ih]
    rfl

end Draft

namespace Selector

variable {selector other : Selector}

/-- The canonical text of a selector describes it. -/
theorem parse_text (h : selector ≠ .nothing) : parse selector.text = .ok selector := by
  have hparse :=
    Requirement.parse_of_selection (Requirement.selection_textAll selector.requirements)
  rw [text, parse_of_requirements hparse, ofRequirements_requirements h]

/-- The canonical text of `nothing` describes the selector of everything. -/
theorem parse_text_nothing : parse Selector.nothing.text = .ok .everything := by
  have heverything : everything ≠ .nothing := nofun
  exact parse_text heverything

/-- Selectors with the same canonical text are equal. -/
theorem text_inj (h : selector ≠ .nothing) (h' : other ≠ .nothing) :
    selector.text = other.text ↔ selector = other := by
  constructor
  · intro htext
    have hparse := parse_text h
    rw [htext, parse_text h'] at hparse
    exact (Except.ok.inj hparse).symm
  · rintro rfl
    rfl

@[simp] theorem add_nil (selector : Selector) : selector.add [] = selector := by
  cases selector with
  | all kept sorted =>
    show ofRequirements (kept ++ []) = all kept sorted
    rw [List.append_nil]
    exact @ofRequirements_requirements (all kept sorted) nofun
  | nothing => rfl

@[simp] theorem add_eq_nothing_iff {more : List Requirement} :
    selector.add more = .nothing ↔ selector = .nothing := by
  cases selector with
  | all kept sorted => simp [add, ofRequirements]
  | nothing => simp [add]

/-- A selector made of requirements found somewhere is not `nothing`. -/
theorem ne_nothing_of_map {ε ε' : Type} {found : Except ε (List Requirement)} {f : ε → ε'}
    (h : (found.map ofRequirements).mapError f = .ok selector) : selector ≠ .nothing := by
  cases found with
  | ok requirements =>
    cases h
    simp [ofRequirements]
  | error fault => cases h

end Selector

namespace Session

variable {session : Session} {command : Command} {commands : List Command} {recipe : Recipe}
  {name : String} {selector : Selector}

/-! ## 2. One step -/

/-- The name whose selector a recipe passes on, with or without additions. -/
def Recipe.source? : Recipe → Option String
  | .add name _ | .addFrom name _ | .copy name => some name
  | _ => none

/-- One result after another is there when both are. -/
theorem bind_eq_ok {ε α β : Type} {first : Except ε α} {second : α → Except ε β} {result : β} :
    (first >>= second) = .ok result ↔ ∃ value, first = .ok value ∧ second value = .ok result := by
  cases first with
  | ok value =>
    constructor
    · intro h
      exact ⟨value, rfl, h⟩
    · rintro ⟨_, same, h⟩
      cases same
      exact h
  | error failure =>
    constructor
    · intro h
      cases h
    · rintro ⟨_, same, _⟩
      cases same

/-- A recipe that passes on a selector adds to what its source holds. -/
theorem make_of_source (hsource : recipe.source? = some name)
    (h : session.make recipe = .ok selector) :
    ∃ source more, session.get name = .ok source ∧ selector = source.add more := by
  cases recipe with
  | add _ drafts =>
    cases hsource
    obtain ⟨source, hget, h⟩ := bind_eq_ok.1 h
    obtain ⟨more, _, h⟩ := bind_eq_ok.1 h
    cases h
    exact ⟨source, more, hget, rfl⟩
  | addFrom _ other =>
    cases hsource
    obtain ⟨source, hget, h⟩ := bind_eq_ok.1 h
    obtain ⟨more, _, h⟩ := bind_eq_ok.1 h
    cases h
    exact ⟨source, more.requirements, hget, rfl⟩
  | copy _ =>
    cases hsource
    exact ⟨selector, [], h, selector.add_nil.symm⟩
  | _ => cases hsource

/-- A recipe that passes on no selector makes `nothing` only where it says so. -/
theorem make_of_no_source (hsource : recipe.source? = none) (hne : recipe ≠ .nothing)
    (h : session.make recipe = .ok selector) : selector ≠ .nothing := by
  cases recipe with
  | nothing => exact absurd rfl hne
  | everything | standard =>
    cases h
    nofun
  | parse text => exact Selector.ne_nothing_of_map h
  | ofLabels pairs => exact Selector.ne_nothing_of_map h
  | ofRequirements drafts =>
    obtain ⟨requirements, _, h⟩ := bind_eq_ok.1 h
    cases h
    nofun
  | reparse other =>
    obtain ⟨source, _, h⟩ := bind_eq_ok.1 h
    exact Selector.ne_nothing_of_map h
  | _ => cases hsource

/-- A recipe makes `nothing` where it says so, or where it passes on `nothing`. -/
theorem make_eq_nothing_iff (h : session.make recipe = .ok selector) :
    selector = .nothing ↔
      recipe = .nothing ∨ ∃ name, recipe.source? = some name ∧ session.get name = .ok .nothing := by
  cases hsource : recipe.source? with
  | none =>
    by_cases hne : recipe = .nothing
    · subst hne
      cases h
      simp
    · simp [hne, make_of_no_source hsource hne h]
  | some name =>
    obtain ⟨source, more, hget, rfl⟩ := make_of_source hsource h
    have hne : recipe ≠ .nothing := by
      rintro rfl
      cases hsource
    simp [hne, hget]

/-- A step makes a new selector for a name. -/
def Replaces (session : Session) (command : Command) (name : String) : Prop :=
  ∃ recipe selector, command = .make recipe name ∧ session.make recipe = .ok selector

theorem get_eq_ok : session.get name = .ok selector ↔ session.selectors[name]? = some selector := by
  unfold get
  cases session.selectors[name]? with
  | none => simp
  | some selector => simp

/-- What a name holds after a step is what the step made for it, or else what it held before. -/
theorem get_step : (session.step command).2.get name = .ok selector ↔
    (∃ recipe, command = .make recipe name ∧ session.make recipe = .ok selector) ∨
      (¬ session.Replaces command name ∧ session.get name = .ok selector) := by
  cases command with
  | ask question => simp [step, Replaces]
  | make recipe into =>
    cases hmade : session.make recipe with
    | error failure => simp [step, Replaces, hmade]
    | ok made =>
      rw [step, hmade, get_eq_ok, get_eq_ok, Std.HashMap.getElem?_insert]
      by_cases hname : into = name
      · subst hname
        simp [Replaces, hmade]
      · simp [Replaces, hname]

/-! ## 3. Whole programs -/

/-- What a name holds after some commands goes back to `nothing` by additions and copies alone. -/
inductive FromNothing : List Command → String → Prop
  | made {commands : List Command} {into : String} :
      FromNothing (commands ++ [.make .nothing into]) into
  | passed {commands : List Command} {recipe : Recipe} {source into : String}
      {selector : Selector} (h : FromNothing commands source)
      (hsource : recipe.source? = some source)
      (made : (start.after commands).make recipe = .ok selector) :
      FromNothing (commands ++ [.make recipe into]) into
  | kept {commands : List Command} {command : Command} {name : String}
      (h : FromNothing commands name) (hkept : ¬ (start.after commands).Replaces command name) :
      FromNothing (commands ++ [command]) name

theorem after_concat (session : Session) (commands : List Command) (command : Command) :
    session.after (commands ++ [command]) = ((session.after commands).step command).2 := by
  simp [after]

theorem FromNothing.get_after (h : FromNothing commands name) :
    (start.after commands).get name = .ok .nothing := by
  induction h with
  | made =>
    rw [after_concat, get_step]
    exact .inl ⟨.nothing, rfl, rfl⟩
  | @passed commands recipe source into selector _ hsource made ih =>
    rw [after_concat, get_step]
    obtain rfl : selector = .nothing :=
      (make_eq_nothing_iff made).2 (.inr ⟨source, hsource, ih⟩)
    exact .inl ⟨recipe, rfl, made⟩
  | kept _ hkept ih =>
    rw [after_concat, get_step]
    exact .inr ⟨hkept, ih⟩

/-- A name holds `nothing` exactly when what it holds goes back to `nothing` by additions and copies
alone. -/
theorem get_after_eq_nothing_iff :
    (start.after commands).get name = .ok .nothing ↔ FromNothing commands name := by
  refine ⟨fun h => ?_, FromNothing.get_after⟩
  induction commands using List.reverseRecOn generalizing name with
  | nil => simp [after, start, get] at h
  | append_singleton commands command ih =>
    rw [after_concat, get_step] at h
    rcases h with ⟨recipe, rfl, made⟩ | ⟨hkept, h⟩
    · rcases (make_eq_nothing_iff made).1 rfl with rfl | ⟨source, hsource, h⟩
      · exact .made
      · exact .passed (ih h) hsource made
    · exact .kept (ih h) hkept

/-- After any commands, what a name holds is `nothing` exactly when it goes back to `nothing` by
additions and copies alone, and then its text is empty and describes the selector of everything.
Any other selector has its requirements in ascending order, and each passes validation again, so
that a recipe that asks for drafts can be given the requirements of a selector. It is described by
its canonical text, which no other selector has. -/
theorem canonical_after (h : (start.after commands).get name = .ok selector) :
    (selector = .nothing ↔ FromNothing commands name) ∧
      (selector = .nothing →
        selector.text = "" ∧ Selector.parse selector.text = .ok .everything) ∧
      (selector ≠ .nothing →
        selector.requirements.Pairwise Requirement.Precedes ∧
        (∀ requirement ∈ selector.requirements,
          Requirement.build requirement.key requirement.operator
            (.ofList requirement.values.toList) = .ok requirement) ∧
        Draft.buildAll (selector.requirements.map Draft.ofRequirement) =
          .ok selector.requirements ∧
        Selector.parse selector.text = .ok selector ∧
        ∀ other : Selector, other ≠ .nothing →
          (selector.text = other.text ↔ selector = other)) := by
  refine ⟨?_, ?_, ?_⟩
  · rw [← get_after_eq_nothing_iff, h, Except.ok.injEq]
  · rintro rfl
    exact ⟨rfl, Selector.parse_text_nothing⟩
  · intro hne
    refine ⟨?_, ?_, Draft.buildAll_ofRequirement selector.requirements, Selector.parse_text hne,
      fun other hother => Selector.text_inj hne hother⟩
    · exact Requirement.sorted_iff_pairwise_precedes.1 selector.requirements_sorted
    · intro requirement _
      exact Draft.build_requirement requirement

/-- Additions leave `nothing` what it is; parsing puts another selector into its place, whose text
is that of its requirements in order. -/
theorem canonical_after_nothing :
    let added : List Command := [.make .nothing "n", .make (.add "n" [⟨"a", "=", ["x"]⟩]) "n"]
    let parsed : List Command := [.make .nothing "n", .make (.parse "b,!a") "n"]
    ((start.after added).get "n" = .ok .nothing ∧ FromNothing added "n") ∧
      ∃ selector, (start.after parsed).get "n" = .ok selector ∧ ¬ FromNothing parsed "n" ∧
        selector.text = "!a,b" ∧ Selector.parse "!a,b" = .ok selector := by
  intro added parsed
  have hnothing : (start.after [.make .nothing "n"]).get "n" = .ok .nothing :=
    get_step.2 (.inl ⟨.nothing, rfl, rfl⟩)
  constructor
  · have hdrafts : (Draft.buildAll [⟨"a", "=", ["x"]⟩]).mapError Failure.fault =
        .ok [⟨"a", .equals, .singleton "x", by decide⟩] := by
      decide +kernel
    have hadd : (start.after added).get "n" = .ok .nothing := get_step.2 (.inl ⟨_, rfl,
      bind_eq_ok.2 ⟨.nothing, hnothing, bind_eq_ok.2 ⟨_, hdrafts, rfl⟩⟩⟩)
    exact ⟨hadd, (canonical_after hadd).1.1 rfl⟩
  · obtain ⟨selector, hparse, hne, htext⟩ : ∃ selector, Selector.parse "b,!a" = .ok selector ∧
        selector ≠ .nothing ∧ selector.text = "!a,b" := by
      have hread : Requirement.parse "b,!a" =
          .ok [⟨"b", .present, .empty, by decide⟩, ⟨"a", .absent, .empty, by decide⟩] := by
        decide +kernel
      refine ⟨_, Selector.parse_of_requirements hread, nofun, ?_⟩
      have hswap := List.Perm.swap (⟨"a", .absent, .empty, by decide⟩ : Requirement)
        ⟨"b", .present, .empty, by decide⟩ []
      rw [Selector.ofRequirements_congr hswap, Selector.text, Selector.requirements_ofRequirements,
        Requirement.sort_of_sorted (by unfold Requirement.Sorted; decide)]
      decide
    have hget : (start.after parsed).get "n" = .ok selector := by
      refine get_step.2 (.inl ⟨_, rfl, ?_⟩)
      show (Selector.parse "b,!a").mapError Failure.fault = _
      rw [hparse]
      rfl
    obtain ⟨hfrom, -, hcanonical⟩ := canonical_after hget
    refine ⟨selector, hget, fun h => hne (hfrom.2 h), htext, ?_⟩
    rw [← htext]
    exact (hcanonical hne).2.2.2.1

end Session

end LabelSelector
