/-
LabelSelector.Proofs.CacheTransparency — a cache answers as if there were none.

What a cache holds is told by the requests it has seen, and by nothing else: the texts asked for
since it was cleared last (`asked`), as far as they are selectors, each with the selector that it
describes. `Holds` says so of the entries; an empty cache holds nothing, and every answer carries
`Holds` from the requests before it to those with it (`Holds.answer`), whether the text is found,
parsed and put in, refused, or the cache is cleared. So over a whole run (`holds_after`) each answer
is that of the parser, and the size of the cache is the number of different texts it holds
(`Holds.size_eq`).
-/
import LabelSelector.Cache
import Mathlib.Data.List.Dedup
import Mathlib.Data.List.Induction

namespace LabelSelector

namespace Cache

/-! ## 1. What requests ask for -/

/-- The text that a request asks for. -/
def Request.text? : Request → Option String
  | .getOrParse text => some text
  | .clear => none

/-- What a request is answered with where nothing is kept. -/
def Request.uncached : Request → Option (Except Fault Selector)
  | .getOrParse text => some (Selector.parse text)
  | .clear => none

/-- The texts asked for since the last clearing, newest first. -/
def asked (requests : List Request) : List String :=
  (requests.reverse.takeWhile fun request => request ≠ .clear).filterMap Request.text?

/-- The different texts asked for since the last clearing that are selectors. -/
def stored (requests : List Request) : List String :=
  ((asked requests).filter fun text => (Selector.parse text).isOk).dedup

@[simp] theorem asked_nil : asked [] = [] :=
  rfl

@[simp] theorem asked_concat_get (requests : List Request) (text : String) :
    asked (requests ++ [.getOrParse text]) = text :: asked requests := by
  simp [asked, Request.text?]

@[simp] theorem asked_concat_clear (requests : List Request) :
    asked (requests ++ [.clear]) = [] := by
  simp [asked]

theorem mem_stored {requests : List Request} {text : String} :
    text ∈ stored requests ↔
      text ∈ asked requests ∧ ∃ selector, Selector.parse text = .ok selector := by
  rw [stored, List.mem_dedup, List.mem_filter]
  cases Selector.parse text with
  | ok selector => simp [Except.isOk, Except.toBool]
  | error fault => simp [Except.isOk, Except.toBool]

theorem nodup_stored (requests : List Request) : (stored requests).Nodup :=
  List.nodup_dedup _

/-! ## 2. Entries and requests -/

/-- The entries of a cache are the selectors among the texts asked for. -/
def Holds (cache : Cache) (requests : List Request) : Prop :=
  ∀ text selector, cache.entries[text]? = some selector ↔
    text ∈ asked requests ∧ Selector.parse text = .ok selector

variable {cache : Cache} {requests : List Request} {text : String} {selector : Selector}
  {fault : Fault}

theorem holds_withCapacity (capacity : Nat) : Holds (withCapacity capacity) [] := by
  intro text selector
  simp [withCapacity]

theorem holds_empty : Holds empty [] := by
  intro text selector
  simp [empty]

/-- A text that is found is answered as the parser would. -/
theorem Holds.parse_of_hit (h : Holds cache requests) (hit : cache.entries[text]? = some selector) :
    Selector.parse text = .ok selector :=
  ((h text selector).1 hit).2

/-- A text that is no selector is not found. -/
theorem Holds.miss_of_error (h : Holds cache requests)
    (hparse : Selector.parse text = .error fault) : cache.entries[text]? = none := by
  cases hlookup : cache.entries[text]? with
  | none => rfl
  | some selector =>
    have hok := h.parse_of_hit hlookup
    rw [hparse] at hok
    cases hok

theorem getOrParse_of_hit (hit : cache.entries[text]? = some selector) :
    cache.getOrParse text = (.ok selector, cache) := by
  simp [getOrParse, hit]

theorem getOrParse_of_ok (miss : cache.entries[text]? = none)
    (hparse : Selector.parse text = .ok selector) :
    cache.getOrParse text = (.ok selector, ⟨cache.entries.insertIfNew text selector⟩) := by
  simp [getOrParse, miss, hparse]

theorem getOrParse_of_error (miss : cache.entries[text]? = none)
    (hparse : Selector.parse text = .error fault) :
    cache.getOrParse text = (.error fault, cache) := by
  simp [getOrParse, miss, hparse]

/-- Asking again for what is found, or for what is no selector, tells nothing new. -/
theorem Holds.of_unchanged (h : Holds cache requests)
    (hold : ∀ selector, Selector.parse text = .ok selector → text ∈ asked requests) :
    Holds cache (requests ++ [.getOrParse text]) := by
  intro other selector
  rw [h other selector, asked_concat_get, List.mem_cons]
  constructor
  · rintro ⟨hasked, hparse⟩
    exact ⟨.inr hasked, hparse⟩
  · rintro ⟨rfl | hasked, hparse⟩
    · exact ⟨hold selector hparse, hparse⟩
    · exact ⟨hasked, hparse⟩

/-- A selector that is put in is found, and all else stays as it was. -/
theorem Holds.insert (h : Holds cache requests) (miss : cache.entries[text]? = none)
    (hparse : Selector.parse text = .ok selector) :
    Holds ⟨cache.entries.insertIfNew text selector⟩ (requests ++ [.getOrParse text]) := by
  have hnot : text ∉ cache.entries := by
    simp [Std.HashMap.mem_iff_isSome_getElem?, miss]
  intro other found
  rw [Std.HashMap.getElem?_insertIfNew, asked_concat_get, List.mem_cons]
  by_cases hsame : text = other
  · subst hsame
    simp [hnot, hparse]
  · simp [hsame, Ne.symm hsame, h other found]

/-- One answer: it is the parser's, and what the cache holds afterwards is told by the requests up
to this one. -/
theorem Holds.answer (h : Holds cache requests) (request : Request) :
    (cache.answer request).1 = request.uncached ∧
      Holds (cache.answer request).2 (requests ++ [request]) := by
  cases request with
  | clear =>
    refine ⟨rfl, ?_⟩
    intro text selector
    rw [asked_concat_clear]
    exact holds_empty text selector
  | getOrParse text =>
    rw [Cache.answer, Request.uncached]
    cases hlookup : cache.entries[text]? with
    | some selector =>
      have hparse := h.parse_of_hit hlookup
      rw [getOrParse_of_hit hlookup, hparse]
      exact ⟨rfl, h.of_unchanged fun _ _ => ((h text selector).1 hlookup).1⟩
    | none =>
      cases hparse : Selector.parse text with
      | ok selector =>
        rw [getOrParse_of_ok hlookup hparse]
        exact ⟨rfl, h.insert hlookup hparse⟩
      | error fault =>
        rw [getOrParse_of_error hlookup hparse]
        refine ⟨rfl, h.of_unchanged ?_⟩
        intro selector hok
        rw [hparse] at hok
        cases hok

/-- A cache has as many entries as there are different selectors asked for. -/
theorem Holds.size_eq (h : Holds cache requests) : cache.size = (stored requests).length := by
  have hperm : cache.entries.keys.Perm (stored requests) := by
    rw [List.perm_ext_iff_of_nodup Std.HashMap.nodup_keys (nodup_stored requests)]
    intro text
    rw [Std.HashMap.mem_keys, Std.HashMap.mem_iff_isSome_getElem?, Option.isSome_iff_exists,
      mem_stored]
    simp only [h text, exists_and_left]
  rw [size, ← Std.HashMap.length_keys, hperm.length_eq]

theorem Holds.isEmpty_iff (h : Holds cache requests) :
    cache.isEmpty = true ↔ stored requests = [] := by
  rw [isEmpty, Std.HashMap.isEmpty_eq_size_eq_zero, beq_iff_eq, ← List.length_eq_zero_iff,
    ← h.size_eq, size]

/-! ## 3. Runs -/

/-- The cache after a sequence of requests. -/
def after (cache : Cache) (requests : List Request) : Cache :=
  requests.foldl (fun cache request => (cache.answer request).2) cache

theorem after_concat (cache : Cache) (requests : List Request) (request : Request) :
    cache.after (requests ++ [request]) = ((cache.after requests).answer request).2 := by
  simp [after]

theorem holds_after (capacity : Nat) (requests : List Request) :
    Holds ((withCapacity capacity).after requests) requests := by
  induction requests using List.reverseRecOn with
  | nil => exact holds_withCapacity capacity
  | append_singleton requests request ih =>
    rw [after_concat]
    exact (ih.answer request).2

@[simp] theorem length_run (cache : Cache) (requests : List Request) :
    (cache.run requests).length = requests.length := by
  induction requests generalizing cache with
  | nil => rfl
  | cons request requests ih => simp [run, ih]

theorem run_append (cache : Cache) (front rest : List Request) :
    cache.run (front ++ rest) = cache.run front ++ (cache.after front).run rest := by
  induction front generalizing cache with
  | nil => rfl
  | cons request front ih => simp [run, ih, after]

theorem getElem?_run (cache : Cache) (before : List Request) (request : Request)
    (rest : List Request) :
    (cache.run (before ++ request :: rest))[before.length]? =
      some ((cache.after before).answer request) := by
  rw [run_append, List.getElem?_append_right (by simp)]
  simp [run]

/-- Every request of a run is answered as if there were no cache. A text that is no selector leaves
the cache as it was; and after each request the cache holds the different texts asked for since the
last clearing that are selectors, each with the selector that it describes, and nothing else. -/
theorem run_transparent (capacity : Nat) (before : List Request) (request : Request)
    (rest : List Request) :
    ∃ cache, ((withCapacity capacity).run (before ++ request :: rest))[before.length]? =
        some (request.uncached, cache) ∧
      (∀ text fault, request = .getOrParse text → Selector.parse text = .error fault →
        cache = (withCapacity capacity).after before) ∧
      (∀ text selector, cache.entries[text]? = some selector ↔
        text ∈ stored (before ++ [request]) ∧ Selector.parse text = .ok selector) ∧
      cache.size = (stored (before ++ [request])).length ∧
      (cache.isEmpty = true ↔ stored (before ++ [request]) = []) := by
  have hbefore := holds_after capacity before
  obtain ⟨hanswer, hafter⟩ := hbefore.answer request
  refine ⟨_, ?_, ?_, ?_, hafter.size_eq, hafter.isEmpty_iff⟩
  · rw [getElem?_run, ← hanswer]
  · rintro text fault rfl hparse
    rw [Cache.answer, getOrParse_of_error (hbefore.miss_of_error hparse) hparse]
  · intro text selector
    rw [hafter text selector, mem_stored]
    constructor
    · rintro ⟨hasked, hparse⟩
      exact ⟨⟨hasked, selector, hparse⟩, hparse⟩
    · rintro ⟨⟨hasked, _⟩, hparse⟩
      exact ⟨hasked, hparse⟩

/-- Texts that differ by a blank are kept apart, and a text that is no selector is not kept. -/
example : stored [.getOrParse "a", .clear, .getOrParse "b", .getOrParse "b ", .getOrParse "b,",
    .getOrParse "b"] = ["b ", "b"] := by
  decide +kernel

end Cache

end LabelSelector
