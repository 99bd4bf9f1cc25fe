/-
LabelSelector.Proofs.Language — the texts that are accepted, and what each of them comes to.

The requirements of a text are read round by round. Rounds that find a comma behind their
requirement go on with the requirements found so far (`requirements_heads`), the last one ends the
loop (`requirements_last`), and one that halts fails, whatever comes after the lexeme it halts at
(`requirementRound_halt`). So a verdict is what the lexemes come to (`outcome_requirements`).

Every text has a verdict, and `parse` is that verdict (`verdict_parse`). In particular it accepts
the selections and nothing else (`parse_eq_ok_iff`).
-/
import LabelSelector.Proofs.Parsing

namespace LabelSelector

namespace Requirement

namespace Parser

open Lexeme Reading Grammar

variable {n : Nat} {first found comma : Lexeme} {rest post lexemes pre : List Lexeme}
  {read : Requirement} {before : List Requirement}

/-! ## 1. Requirements between commas -/

theorem startsRequirement_asWord : startsRequirement first.asWord = true ↔ first.Begins := by
  rw [startsRequirement, Bool.or_eq_true, decide_eq_true_eq, decide_eq_true_eq, ← isWord_iff,
    asWord_token_eq rfl (by decide)]
  rfl

theorem afterRequirement_end (he : first.token = .endOfText) :
    afterRequirement before read ⟨n, first :: rest⟩ =
      .ok (.done (read :: before).reverse) ⟨n + 1, rest⟩ := by
  have hend : first.asWord.token = .endOfText := asWord_token_eq_endOfText.2 he
  rw [afterRequirement, bind_of_eq_ok takeWord_cons]
  simp only [hend]
  rfl

theorem afterRequirement_comma (hc : comma.IsComma) (hb : Starts rest) :
    afterRequirement before read ⟨n, comma :: rest⟩ =
      .ok (.again (read :: before)) ⟨n + 1, rest⟩ := by
  obtain ⟨first, rest, rfl, hfirst⟩ := hb.exists_cons
  rw [afterRequirement, bind_of_eq_ok takeWord_cons]
  simp only [asWord_comma hc]
  rw [bind_of_eq_ok peekWord_cons, if_pos (startsRequirement_asWord.2 hfirst)]
  rfl

theorem afterRequirement_comma_refused (hc : comma.IsComma) (hf : ¬ found.Begins) :
    Fails (afterRequirement before read) ⟨n, comma :: found :: rest⟩
      (.unexpected found.literal Expected.afterComma) := by
  refine .bind_right takeWord_cons ?_
  simp only [asWord_comma hc]
  refine .bind_right peekWord_cons ?_
  rw [if_neg fun h => hf (startsRequirement_asWord.1 h)]
  exact .reject

theorem afterRequirement_refused (hf : ¬ found.Stops) :
    Fails (afterRequirement before read) ⟨n, found :: rest⟩
      (.unexpected found.literal Expected.separator) := by
  refine .bind_right takeWord_cons ?_
  split
  · rename_i h
    exact absurd (asWord_stops.1 (.inl h)) hf
  · rename_i h
    exact absurd (asWord_stops.1 (.inr h)) hf
  · exact .reject

/-- A round that reads a requirement goes on with what follows it. -/
theorem requirementRound_read {after : Tape} (hb : Starts lexemes)
    (h : Parser.requirement ⟨n, lexemes⟩ = .ok read after) :
    requirementRound before ⟨n, lexemes⟩ = afterRequirement before read after := by
  obtain ⟨first, rest, rfl, hfirst⟩ := hb.exists_cons
  have hadapt : EStateM.adaptExcept Fault.inRequirement Parser.requirement ⟨n, first :: rest⟩ =
      .ok read after := by
    rw [EStateM.adaptExcept, h]
  rw [requirementRound, bind_of_eq_ok peekWord_cons, if_pos (startsRequirement_asWord.2 hfirst),
    bind_of_eq_ok hadapt]

theorem requirementRound_read_fails {after : Tape} {fault : Fault} (hb : Starts lexemes)
    (h : Parser.requirement ⟨n, lexemes⟩ = .ok read after)
    (hf : Fails (afterRequirement before read) after fault) :
    Fails (requirementRound before) ⟨n, lexemes⟩ fault := by
  obtain ⟨last, hf⟩ := hf
  exact ⟨last, by rw [requirementRound_read hb h, hf]⟩

theorem requirementRound_fails {fault : Fault} (hb : Starts lexemes)
    (h : Fails Parser.requirement ⟨n, lexemes⟩ fault) :
    Fails (requirementRound before) ⟨n, lexemes⟩ (.inRequirement fault) := by
  obtain ⟨first, rest, rfl, hfirst⟩ := hb.exists_cons
  refine .bind_right peekWord_cons ?_
  rw [if_pos (startsRequirement_asWord.2 hfirst)]
  exact .bind_left (h.adaptExcept Fault.inRequirement) _

/-- Requirements that have commas after them are read one by one, where another requirement can
follow. -/
theorem requirements_heads {front : List Lexeme} (h : Heads front before) (hb : Starts rest)
    (n : Nat) (newest : List Requirement) :
    loop requirementRound requirementRound_productive newest ⟨n, front ++ rest⟩ =
      loop requirementRound requirementRound_productive (before.reverse ++ newest)
        ⟨n + front.length, rest⟩ := by
  -- Rounds put the newest requirement first, so those read come out reversed.
  induction h generalizing n newest with
  | nil => rfl
  | @cons lexemes front comma read before spells hc heads ih =>
    have hread : Parser.requirement ⟨n, lexemes ++ comma :: (front ++ rest)⟩ = _ :=
      requirement_spells spells (.inl hc)
    have hround : requirementRound newest ⟨n, lexemes ++ comma :: (front ++ rest)⟩ = _ :=
      requirementRound_read (spells.starts.append _) hread
    rw [afterRequirement_comma hc (heads.starts hb)] at hround
    have hlen : n + (lexemes ++ comma :: front).length = n + lexemes.length + 1 + front.length := by
      simp only [List.length_append, List.length_cons]
      omega
    rw [List.append_assoc, List.cons_append, loop_again hround, ih, hlen, List.reverse_cons,
      List.append_assoc]
    rfl

/-- The last requirement of a text is read to the end. -/
theorem requirements_last (spells : Spells pre read) (he : found.token = .endOfText) :
    loop requirementRound requirementRound_productive before ⟨n, pre ++ found :: post⟩ =
      .ok (read :: before).reverse ⟨n + pre.length + 1, post⟩ := by
  have hread : Parser.requirement ⟨n, pre ++ found :: post⟩ = _ :=
    requirement_spells spells (.inr he)
  have hround : requirementRound before ⟨n, pre ++ found :: post⟩ = _ :=
    requirementRound_read (spells.starts.append _) hread
  rw [afterRequirement_end he] at hround
  exact loop_done hround

/-- What halts is found at once, whatever comes after it. -/
theorem requirementRound_halt {fault : Fault} (h : Halt pre found fault) :
    Fails (requirementRound before) ⟨n, pre ++ found :: post⟩ fault := by
  cases h with
  | requirement refusal =>
    exact requirementRound_fails (refusal.starts.append _) (requirement_refused refusal)
  | @separator _ _ read closed hf =>
    have hread : Parser.requirement ⟨n, pre ++ found :: post⟩ = _ := requirement_closed closed
    rw [build_self] at hread
    exact requirementRound_read_fails (closed.starts.append _) hread (afterRequirement_refused hf)
  | @afterComma pre comma _ read spells hc hf =>
    have hread : Parser.requirement ⟨n, pre ++ comma :: found :: post⟩ = _ :=
      requirement_spells spells (.inl hc)
    rw [List.append_assoc, List.singleton_append]
    exact requirementRound_read_fails (spells.starts.append _) hread
      (afterRequirement_comma_refused hc hf)

/-- What goes wrong after heads is what all of the lexemes come to. -/
theorem outcome_of_fails {front : List Lexeme} {fault : Fault} (heads : Heads front before)
    (hb : Starts lexemes)
    (h : Fails (requirementRound (before.reverse ++ [])) ⟨0 + front.length, lexemes⟩ fault) :
    outcome (requirements (.ofList (front ++ lexemes))) = .error fault := by
  have hloop : requirements (.ofList (front ++ lexemes)) = _ := requirements_heads heads hb 0 []
  rw [hloop]
  exact h.loop.outcome

/-- A verdict is what the requirements of the lexemes come to. -/
theorem outcome_requirements {result : Except Fault (List Requirement)} (hs : Sound lexemes)
    (v : Verdict lexemes result) : outcome (requirements (.ofList lexemes)) = result := by
  cases v with
  | @nothing last post he =>
    have hround : requirementRound [] ⟨0, last :: post⟩ = .ok (.done []) ⟨0, last :: post⟩ := by
      have hb : ¬ last.Begins := fun h => h.not_stops (.inr he)
      rw [requirementRound, bind_of_eq_ok peekWord_cons,
        if_neg fun h => hb (startsRequirement_asWord.1 h), if_pos (asWord_token_eq_endOfText.2 he)]
      rfl
    show outcome (loop requirementRound requirementRound_productive [] ⟨0, last :: post⟩) = _
    rw [loop_done hround]
    rfl
  | @start found post hb he =>
    have hround : Fails (requirementRound []) ⟨0, found :: post⟩
        (.unexpected found.literal Expected.start) := by
      refine .bind_right peekWord_cons ?_
      rw [if_neg fun h => hb (startsRequirement_asWord.1 h),
        if_neg fun h => he (asWord_token_eq_endOfText.1 h)]
      exact .reject
    exact hround.loop.outcome
  | @listed _ post last requirements listed he =>
    obtain ⟨front, before, lexemes, read, heads, spells, rfl, rfl⟩ := listed.exists_heads
    have hloop : Parser.requirements (.ofList (front ++ (lexemes ++ last :: post))) = _ :=
      requirements_heads heads (spells.starts.append _) 0 []
    rw [List.append_assoc, hloop, requirements_last spells he]
    simp [outcome]
  | halted heads halt =>
    exact outcome_of_fails heads (halt.starts.append _) (requirementRound_halt halt)
  | @badBound front pre _ _ _ _ heads bad =>
    have hpre : Sound pre := hs.mono fun lexeme h => by simp [h]
    exact outcome_of_fails heads (bad.starts.append _)
      (requirementRound_fails (bad.starts.append _) (requirement_badBound bad hpre))

end Parser

open Lexeme Grammar

/-! ## 2. Texts -/

/-- No lexeme of a text is unknown. -/
theorem scan_eq (text : String) : scan text = .ok (ofText text.toList) := by
  have hnone : (ofText text.toList).find? (fun lexeme => lexeme.token = .unknown) = none := by
    rw [List.find?_eq_none]
    intro lexeme hmem
    rcases mem_ofText.1 hmem with hmem | rfl
    · simpa using (literal_of_mem_body hmem).known.2
    · decide
  rw [scan, hnone]

theorem sound_ofText (text : List Char) : Sound (ofText text) := by
  intro lexeme hmem hw
  rcases mem_ofText.1 hmem with hmem | rfl
  · exact sound_body text lexeme hmem hw
  · exact absurd rfl hw.token_ne_end

/-- What parsing a text comes to is the verdict on its lexemes. -/
theorem parse_of_verdict {text : String} {result : Except Fault (List Requirement)}
    (v : Verdict (ofText text.toList) result) : parse text = result := by
  show scan text >>= _ = _
  rw [scan_eq]
  exact Parser.outcome_requirements (sound_ofText _) v

theorem verdict_parse (text : String) : Verdict (ofText text.toList) (parse text) := by
  have hend : ∃ e ∈ (ofText text.toList).getLast?, e.token = .endOfText := by
    rw [ofText_eq]
    exact ⟨endOfText, by simp, rfl⟩
  obtain ⟨result, v⟩ := exists_verdict (sound_ofText _) hend
  rw [parse_of_verdict v]
  exact v

/-- A lexeme of a text is its end, or stands among those before the end. -/
theorem ofText_cases {text : List Char} {pre post : List Lexeme} {found : Lexeme}
    (h : ofText text = pre ++ found :: post) :
    (body text = pre ∧ found = endOfText) ∨ ∃ rest, body text = pre ++ found :: rest := by
  rw [ofText_eq] at h
  rcases List.append_eq_append_iff.1 h with ⟨skipped, hpre, hend⟩ | ⟨rest, hbody, hpost⟩
  · left
    obtain ⟨rfl, hfound⟩ : skipped = [] ∧ [endOfText] = found :: post := by
      cases skipped with
      | nil => exact ⟨rfl, hend⟩
      | cons first tail =>
        have := congrArg List.length hend
        simp at this
    refine ⟨by rw [hpre, List.append_nil], ?_⟩
    exact (List.cons.inj hfound).1.symm
  · cases rest with
    | nil =>
      left
      refine ⟨by rw [hbody, List.append_nil], ?_⟩
      exact (List.cons.inj hpost).1
    | cons first rest =>
      right
      obtain rfl : found = first := (List.cons.inj hpost).1
      exact ⟨rest, hbody⟩

/-- Nothing before the end of a text is the end of a text. -/
theorem eq_body_of_end {text : List Char} {lexemes post : List Lexeme} {last : Lexeme}
    (h : ofText text = lexemes ++ last :: post) (he : last.token = .endOfText) :
    body text = lexemes := by
  rcases ofText_cases h with ⟨hbody, _⟩ | ⟨rest, hbody⟩
  · exact hbody
  · have hmem : last ∈ body text := by
      rw [hbody]
      simp
    exact absurd he (literal_of_mem_body hmem).known.1

theorem selection_of_parse {text : String} {requirements : List Requirement}
    (h : parse text = .ok requirements) : Selection (body text.toList) requirements := by
  have v := verdict_parse text
  rw [h] at v
  generalize hlexemes : ofText text.toList = lexemes at v
  cases v with
  | nothing he =>
    rw [← List.nil_append (_ :: _)] at hlexemes
    exact .inl ⟨eq_body_of_end hlexemes he, rfl⟩
  | listed listed he =>
    rw [eq_body_of_end hlexemes he]
    exact .inr listed

theorem parse_of_selection {text : String} {requirements : List Requirement}
    (h : Selection (body text.toList) requirements) : parse text = .ok requirements := by
  apply parse_of_verdict
  rw [ofText_eq]
  rcases h with ⟨hbody, rfl⟩ | listed
  · rw [hbody]
    exact .nothing rfl
  · exact .listed listed rfl

/-- The texts accepted are those whose lexemes are a selection, and what is found is what it
lists. -/
theorem parse_eq_ok_iff (text : String) (requirements : List Requirement) :
    parse text = .ok requirements ↔ Selection (body text.toList) requirements := by
  constructor
  · exact selection_of_parse
  · exact parse_of_selection

end Requirement

end LabelSelector
