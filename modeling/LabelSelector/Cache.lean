/-
LabelSelector.Cache — selectors kept under the texts they were parsed from.

A text is parsed when it is asked for first, and the selector is kept under exactly that text until
the cache is cleared. A text that is no selector leaves the cache as it was.
-/
import LabelSelector.Selector
import Std.Data.HashMap

namespace LabelSelector

/-- Selectors by the text they were parsed from. -/
structure Cache where
  entries : Std.HashMap String Selector

namespace Cache

/-- A cache without selectors, with room for some. -/
def withCapacity (capacity : Nat) : Cache :=
  ⟨Std.HashMap.emptyWithCapacity capacity⟩

/-- A cache without selectors. -/
def empty : Cache :=
  ⟨∅⟩

/-- The number of texts with a selector in the cache. -/
def size (cache : Cache) : Nat :=
  cache.entries.size

/-- Whether there is no selector in the cache. -/
def isEmpty (cache : Cache) : Bool :=
  cache.entries.isEmpty

/-- The selector that a text describes, from the cache or parsed and then put there. -/
def getOrParse (cache : Cache) (text : String) : Except Fault Selector × Cache :=
  match cache.entries[text]? with
  | some selector => (.ok selector, cache)
  | none =>
    match Selector.parse text with
    | .ok selector => (.ok selector, ⟨cache.entries.insertIfNew text selector⟩)
    | .error fault => (.error fault, cache)

/-- The cache without its selectors. -/
def clear (_ : Cache) : Cache :=
  empty

/-! ## Sequences of requests -/

/-- One thing to ask of a cache. -/
inductive Request where
  | getOrParse (text : String)
  | clear
  deriving DecidableEq, Repr

/-- What a request is answered with; clearing is answered with nothing. -/
def answer (cache : Cache) : Request → Option (Except Fault Selector) × Cache
  | .getOrParse text => (some (cache.getOrParse text).1, (cache.getOrParse text).2)
  | .clear => (none, cache.clear)

/-- What a sequence of requests is answered with, each with the cache after it. -/
def run (cache : Cache) : List Request → List (Option (Except Fault Selector) × Cache)
  | [] => []
  | request :: requests => cache.answer request :: (cache.answer request).2.run requests

end Cache

end LabelSelector
