/-
LabelSelector.Proofs.Courses — what a reading takes off its tape, and how its loops end.

A `Course` of a reading is the list of the lexemes that it takes, one for each time it moves its
tape on, so the end of the text stands in it as often as it was taken. The reading determines it
(`Course.unique`), and the number of lexemes taken is its length (`Course.taken_left`).

`Goes` follows a reading along a tape: what is taken are lexemes of the tape, in the order in which
they stand, never the end of the text that shows past the last of them. It is put together like
the readings are, and for a loop from what each of its rounds does (`Goes.loop`). That a loop comes
to its last round is a matter of the rounds alone (`Productive.finishes`).
-/
import LabelSelector.Proofs.Parsing
import Mathlib.Logic.Function.Iterate

namespace LabelSelector

/-! ## 1. Tapes -/

namespace Tape

variable {tape : Tape}

/-- The lexemes that are in view one after another when some are taken. -/
def views (tape : Tape) : Nat → List Lexeme
  | 0 => []
  | n + 1 => tape.view :: tape.advance.views n

theorem views_add (tape : Tape) (m n : Nat) :
    tape.views (m + n) = tape.views m ++ (advance^[m] tape).views n := by
  induction m generalizing tape with
  | zero => simp [views]
  | succ m ih =>
    rw [Nat.add_right_comm, views, ih, views, List.cons_append, Function.iterate_succ,
      Function.comp_apply]

theorem taken_iterate_advance (tape : Tape) (n : Nat) :
    (advance^[n] tape).taken = tape.taken + n := by
  induction n generalizing tape with
  | zero => rfl
  | succ n ih =>
    rw [Function.iterate_succ, Function.comp_apply, ih, taken_advance]
    omega

/-- The end of the text stands on the tape, as its last lexeme and nowhere else. -/
def Ends (tape : Tape) : Prop :=
  ∃ words, tape.rest = words ++ [Lexeme.endOfText] ∧ ∀ word ∈ words, word.token ≠ .endOfText

theorem Ends.rest_eq (h : tape.Ends) : tape.rest = tape.view :: tape.advance.rest := by
  obtain ⟨words, h, -⟩ := h
  cases words with
  | nil => simp [view, h]
  | cons first words => simp [view, h]

/-- After any other lexeme the end of the text still stands on the tape. -/
theorem Ends.advance (h : tape.Ends) (hne : tape.view.token ≠ .endOfText) :
    tape.advance.Ends := by
  obtain ⟨words, h, hwords⟩ := h
  cases words with
  | nil =>
    rw [view, h] at hne
    exact absurd rfl hne
  | cons first words =>
    refine ⟨words, ?_, fun word hmem => hwords word (List.mem_cons_of_mem _ hmem)⟩
    rw [rest_advance, h, List.cons_append, List.tail_cons]

/-- Where the end of the text is in view, it is all that is left. -/
theorem Ends.rest_advance_of_end (h : tape.Ends) (he : tape.view.token = .endOfText) :
    tape.advance.rest = [] := by
  obtain ⟨words, h, hwords⟩ := h
  cases words with
  | nil => rw [rest_advance, h, List.nil_append, List.tail_cons]
  | cons first words =>
    rw [view, h] at he
    exact absurd he (hwords first List.mem_cons_self)

end Tape

/-- A decision is as asked for, be it another round or the last. -/
def Round.Meets {α β : Type} (again : α → Prop) (done : β → Prop) : Round α β → Prop
  | .again state => again state
  | .done result => done result

namespace Reading

variable {α β : Type} {tape after : Tape} {taken more : List Lexeme}

/-! ## 2. Courses -/

/-- The lexemes that a reading takes from a tape, in order, each of them in view as it is taken. Only
`takeWord` and `takeOperator` take one; a reading that fails has taken what it took until then. -/
inductive Course : {α : Type} → Reading α → Tape → List Lexeme → Prop
  | pure {α : Type} (value : α) (tape : Tape) : Course (Pure.pure value) tape []
  | throw {α : Type} (fault : Fault) (tape : Tape) :
      Course (MonadExcept.throw fault : Reading α) tape []
  | peekWord (tape : Tape) : Course peekWord tape []
  | takeWord (tape : Tape) : Course takeWord tape [tape.view]
  | takeOperator (tape : Tape) : Course takeOperator tape [tape.view]
  | bind {α β : Type} {first : Reading α} {second : α → Reading β} {tape after : Tape} {value : α}
      {taken more : List Lexeme} (hf : Course first tape taken) (h : first tape = .ok value after)
      (hs : Course (second value) after more) : Course (first >>= second) tape (taken ++ more)
  | bind_error {α β : Type} {first : Reading α} {second : α → Reading β} {tape after : Tape}
      {fault : Fault} {taken : List Lexeme} (hf : Course first tape taken)
      (h : first tape = .error fault after) : Course (first >>= second) tape taken
  | adaptExcept {α : Type} {reading : Reading α} {tape : Tape} {taken : List Lexeme}
      (f : Fault → Fault) (h : Course reading tape taken) :
      Course (EStateM.adaptExcept f reading) tape taken

theorem left_adaptExcept (f : Fault → Fault) (reading : Reading α) (tape : Tape) :
    left (EStateM.adaptExcept f reading tape) = left (reading tape) := by
  rw [EStateM.adaptExcept]
  cases reading tape <;> rfl

/-- A reading does nothing to its tape but take what is in view, once for each lexeme. -/
theorem Course.spec {reading : Reading α} (h : Course reading tape taken) :
    taken = tape.views taken.length ∧ left (reading tape) = Tape.advance^[taken.length] tape := by
  induction h with
  | pure value tape => exact ⟨rfl, rfl⟩
  | throw fault tape => exact ⟨rfl, rfl⟩
  | peekWord tape => exact ⟨rfl, rfl⟩
  | takeWord tape => exact ⟨rfl, rfl⟩
  | takeOperator tape => exact ⟨rfl, rfl⟩
  | @bind _ _ first second tape after value taken more _ h _ ihf ihs =>
    rw [h] at ihf
    obtain ⟨htaken, rfl⟩ := ihf
    rw [List.length_append, Tape.views_add, ← htaken, ← ihs.1, bind_of_eq_ok h, ihs.2,
      Nat.add_comm, Function.iterate_add_apply]
    exact ⟨rfl, rfl⟩
  | bind_error _ h ih =>
    rw [bind_apply, h]
    rw [h] at ih
    exact ih
  | adaptExcept f _ ih => rwa [left_adaptExcept]

/-- The tape counts the lexemes taken. -/
theorem Course.taken_left {reading : Reading α} (h : Course reading tape taken) :
    (left (reading tape)).taken = tape.taken + taken.length := by
  rw [h.spec.2, Tape.taken_iterate_advance]

/-- A reading takes the same lexemes each time. -/
theorem Course.unique {reading : Reading α} (h : Course reading tape taken)
    (h' : Course reading tape more) : taken = more := by
  have hlength : taken.length = more.length :=
    Nat.add_left_cancel (h.taken_left.symm.trans h'.taken_left)
  rw [h.spec.1, h'.spec.1, hlength]

/-! ## 3. Readings along a tape -/

/-- A reading takes nothing but lexemes of its tape, and where it succeeds, its result and the tape
that it leaves are as asked for. -/
def Goes (reading : Reading α) (tape : Tape) (post : α → Tape → Prop) : Prop :=
  ∃ taken, Course reading tape taken ∧ tape.rest = taken ++ (left (reading tape)).rest ∧
    ∀ value after, reading tape = .ok value after → post value after

section

variable {post : α → Tape → Prop} {final : β → Tape → Prop} {reading : Reading α}

theorem Goes.pure {value : α} (h : post value tape) : Goes (Pure.pure value) tape post := by
  refine ⟨[], .pure value tape, rfl, ?_⟩
  rintro _ _ ⟨⟩
  exact h

theorem Goes.of_eq (h : Goes reading tape post) :
    Goes reading tape fun value after => reading tape = .ok value after ∧ post value after := by
  obtain ⟨taken, course, hrest, hpost⟩ := h
  exact ⟨taken, course, hrest, fun value after hr => ⟨hr, hpost value after hr⟩⟩

theorem Goes.mono {other : α → Tape → Prop} (h : Goes reading tape post)
    (himp : ∀ value after, post value after → other value after) : Goes reading tape other := by
  obtain ⟨taken, course, hrest, hpost⟩ := h
  exact ⟨taken, course, hrest, fun value after hr => himp value after (hpost value after hr)⟩

theorem Goes.throw (fault : Fault) : Goes (MonadExcept.throw fault) tape post :=
  ⟨[], .throw fault tape, rfl, nofun⟩

theorem Goes.ofResult {result : Except Fault α} (h : ∀ value, post value tape) :
    Goes (ofResult result) tape post := by
  cases result with
  | ok value => exact .pure (h value)
  | error fault => exact .throw fault

theorem Goes.bind {second : α → Reading β} (h : Goes reading tape post)
    (hs : ∀ value after, post value after → Goes (second value) after final) :
    Goes (reading >>= second) tape final := by
  obtain ⟨taken, course, hrest, hpost⟩ := h
  cases hr : reading tape with
  | ok value after =>
    obtain ⟨more, course', hrest', hfinal⟩ := hs value after (hpost value after hr)
    refine ⟨taken ++ more, .bind course hr course', ?_, ?_⟩
    · rw [hr] at hrest
      rw [bind_of_eq_ok hr, hrest, List.append_assoc, ← hrest']
      rfl
    · rw [bind_of_eq_ok hr]
      exact hfinal
  | error fault after =>
    refine ⟨taken, .bind_error course hr, ?_, ?_⟩
    · rw [hr] at hrest
      rw [bind_apply, hr, hrest]
      rfl
    · rw [bind_apply, hr]
      nofun

theorem Goes.adaptExcept (f : Fault → Fault) (h : Goes reading tape post) :
    Goes (EStateM.adaptExcept f reading) tape post := by
  obtain ⟨taken, course, hrest, hpost⟩ := h
  refine ⟨taken, .adaptExcept f course, by rw [left_adaptExcept, hrest], fun value after hr => ?_⟩
  rw [EStateM.adaptExcept] at hr
  cases hrun : reading tape with
  | ok _ _ =>
    rw [hrun] at hr
    exact hpost value after (hrun.trans hr)
  | error _ _ =>
    rw [hrun] at hr
    cases hr

theorem Goes.peekWord {next : Lexeme → Reading β} (h : Goes (next tape.view.asWord) tape final) :
    Goes (peekWord >>= next) tape final := by
  have hpeek : Goes Reading.peekWord tape fun lexeme after =>
      lexeme = tape.view.asWord ∧ after = tape := by
    refine ⟨[], .peekWord tape, rfl, ?_⟩
    rintro _ _ ⟨⟩
    exact ⟨rfl, rfl⟩
  refine hpeek.bind ?_
  rintro _ _ ⟨rfl, rfl⟩
  exact h

/-- What is taken from a tape that ends is a lexeme of the tape: one after which the tape still
ends, or the end of the text, after which nothing is left. -/
theorem Goes.take {first : Reading Lexeme} {next : Lexeme → Reading β} {lexeme : Lexeme}
    (course : Course first tape [tape.view]) (hf : first tape = .ok lexeme tape.advance)
    (ends : tape.Ends)
    (h : tape.view.token ≠ .endOfText → tape.advance.Ends →
      Goes (next lexeme) tape.advance final)
    (hend : tape.view.token = .endOfText → tape.advance.rest = [] →
      Goes (next lexeme) tape.advance final) : Goes (first >>= next) tape final := by
  have htake : Goes first tape fun found after => found = lexeme ∧ after = tape.advance := by
    refine ⟨[tape.view], course, ?_, ?_⟩
    · rw [hf, ends.rest_eq]
      rfl
    · rw [hf]
      rintro _ _ ⟨⟩
      exact ⟨rfl, rfl⟩
  refine htake.bind ?_
  rintro _ _ ⟨rfl, rfl⟩
  by_cases he : tape.view.token = .endOfText
  · exact hend he (ends.rest_advance_of_end he)
  · exact h he (ends.advance he)

theorem Goes.takeOperator {next : Lexeme → Reading β} (ends : tape.Ends)
    (h : tape.view.token ≠ .endOfText → tape.advance.Ends →
      Goes (next tape.view) tape.advance final)
    (hend : tape.view.token = .endOfText → tape.advance.rest = [] →
      Goes (next tape.view) tape.advance final) :
    Goes (takeOperator >>= next) tape final :=
  .take (.takeOperator tape) rfl ends h hend

theorem Goes.takeWord {next : Lexeme → Reading β} (ends : tape.Ends)
    (h : tape.view.asWord.token ≠ .endOfText → tape.advance.Ends →
      Goes (next tape.view.asWord) tape.advance final)
    (hend : tape.view.asWord.token = .endOfText → tape.advance.rest = [] →
      Goes (next tape.view.asWord) tape.advance final) :
    Goes (takeWord >>= next) tape final := by
  rw [ne_eq, Lexeme.asWord_token_eq_endOfText] at h
  rw [Lexeme.asWord_token_eq_endOfText] at hend
  exact .take (.takeWord tape) rfl ends h hend

end

/-! ## 4. Loops -/

section

variable {round : α → Reading (Round α β)} {productive : Productive round} {state : α}

theorem loop_eq_bind (state : α) : loop round productive state =
    round state >>= fun
      | .again state' => loop round productive state'
      | .done result => Pure.pure result := by
  funext tape
  rw [loop_eq, bind_apply]
  cases round state tape with
  | ok decision after => cases decision <;> rfl
  | error fault after => rfl

/-- What every round keeps, as long as another is asked for, a loop keeps. -/
theorem Goes.loop (inv : α → Tape → Prop) {final : β → Tape → Prop}
    (hround : ∀ state tape, inv state tape → Goes (round state) tape
      fun decision after => decision.Meets (inv · after) (final · after)) (h : inv state tape) :
    Goes (Reading.loop round productive state) tape final := by
  -- Rounds that ask for another leave a shorter tape; the induction is on its length.
  induction hn : tape.rest.length using Nat.strongRecOn generalizing state tape with
  | ind n ih =>
    subst hn
    rw [loop_eq_bind]
    refine .bind (hround state tape h).of_eq ?_
    rintro decision after ⟨hr, hpost⟩
    cases decision with
    | again state' => exact ih _ (productive _ _ _ _ hr) hpost rfl
    | done result => exact .pure hpost

/-- The number of rounds of a loop, the last one among them. -/
inductive Finishes (round : α → Reading (Round α β)) : α → Tape → Nat → Prop
  | last {state : α} {tape : Tape}
      (h : ∀ state' after, round state tape ≠ .ok (.again state') after) :
      Finishes round state tape 1
  | again {state state' : α} {tape after : Tape} {n : Nat}
      (h : round state tape = .ok (.again state') after) (hl : Finishes round state' after n) :
      Finishes round state tape (n + 1)

/-- A loop of productive rounds comes to a last one, after no more rounds than there are lexemes. -/
theorem Productive.finishes (h : Productive round) (state : α) (tape : Tape) :
    ∃ n, n ≤ tape.rest.length + 1 ∧ Finishes round state tape n := by
  induction hn : tape.rest.length using Nat.strongRecOn generalizing state tape with
  | ind n ih =>
    subst hn
    by_cases hr : ∃ state' after, round state tape = .ok (.again state') after
    · obtain ⟨state', after, hr⟩ := hr
      have shorter := h _ _ _ _ hr
      obtain ⟨n, hle, hl⟩ := ih _ shorter state' after rfl
      exact ⟨n + 1, by omega, .again hr hl⟩
    · exact ⟨1, by omega, .last fun state' after heq => hr ⟨state', after, heq⟩⟩

/-- On a tape that ends, a round that asks for another takes lexemes of the tape, one at least, and
leaves a tape that ends. -/
def Advances (round : α → Reading (Round α β)) : Prop :=
  ∀ state tape state' after, tape.Ends → round state tape = .ok (.again state') after →
    after.Ends ∧
      ∃ taken, Course (round state) tape taken ∧ taken ≠ [] ∧ tape.rest = taken ++ after.rest

theorem Productive.advances {post : α → Tape → Round α β → Tape → Prop}
    (productive : Productive round)
    (h : ∀ state tape, tape.Ends → Goes (round state) tape (post state tape))
    (hpost : ∀ state tape state' after, post state tape (.again state') after → after.Ends) :
    Advances round := by
  intro state tape state' after ends hr
  obtain ⟨taken, course, hrest, hagain⟩ := h state tape ends
  refine ⟨hpost state tape state' after (hagain _ after hr), taken, course, ?_, ?_⟩
  · rintro rfl
    have shorter := productive _ _ _ _ hr
    rw [hrest, hr] at shorter
    exact absurd shorter (Nat.lt_irrefl _)
  · rw [hrest, hr]
    rfl

end

end Reading

end LabelSelector
