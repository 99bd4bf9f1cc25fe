/-
LabelSelector.Session — making selectors step by step and asking about them.

A session keeps selectors under names. A `Recipe` makes a selector, from scratch or from those the
session has, and a `Question` is answered from them. What cannot be made changes nothing: the name
it was meant for keeps what it had.
-/
import LabelSelector.Selector
import Std.Data.HashMap

namespace LabelSelector

/-- Selectors under names. -/
structure Session where
  selectors : Std.HashMap String Selector

namespace Session

/-- The session without selectors. -/
def start : Session :=
  ⟨∅⟩

/-- A way to make a selector. -/
inductive Recipe where
  | everything
  | nothing
  /-- The selector that stands where none is given. -/
  | standard
  | parse (text : String)
  | ofLabels (pairs : List (String × String))
  | ofRequirements (drafts : List Draft)
  /-- A named selector with further requirements. -/
  | add (name : String) (drafts : List Draft)
  /-- A named selector with the requirements of another. -/
  | addFrom (name other : String)
  /-- What the canonical text of a named selector describes. -/
  | reparse (name : String)
  | copy (name : String)
  deriving Repr

/-- Something to ask about named selectors. -/
inductive Question where
  /-- Which selector has the name. -/
  | get (name : String)
  | equal (name other : String)
  | pinnedValue (name key : String)
  | selects (name : String) (labels : LabelMap)
  deriving Repr

/-- One step of a session. -/
inductive Command where
  /-- Makes a selector and keeps it under a name. -/
  | make (recipe : Recipe) (into : String)
  | ask (question : Question)
  deriving Repr

/-- Why a step comes to nothing. -/
inductive Failure where
  | fault (fault : Fault)
  /-- No selector has the name. -/
  | unknownName (name : String)
  deriving DecidableEq, Repr

/-- What a step is answered with. -/
inductive Answer where
  | selector (selector : Selector)
  | truth (truth : Bool)
  | value (value : Option String)
  deriving DecidableEq

/-- The selector under a name. -/
def get (session : Session) (name : String) : Except Failure Selector :=
  match session.selectors[name]? with
  | some selector => .ok selector
  | none => .error (.unknownName name)

/-- The selector that a recipe makes. -/
def make (session : Session) : Recipe → Except Failure Selector
  | .everything => .ok .everything
  | .nothing => .ok .nothing
  | .standard => .ok default
  | .parse text => (Selector.parse text).mapError .fault
  | .ofLabels pairs => (Selector.ofLabels pairs).mapError .fault
  | .ofRequirements drafts => do
    let requirements ← (Draft.buildAll drafts).mapError .fault
    return .ofRequirements requirements
  | .add name drafts => do
    let selector ← session.get name
    let requirements ← (Draft.buildAll drafts).mapError .fault
    return selector.add requirements
  | .addFrom name other => do
    let selector ← session.get name
    let more ← session.get other
    return selector.add more.requirements
  | .reparse name => do
    let selector ← session.get name
    (Selector.parse selector.text).mapError .fault
  | .copy name => session.get name

/-- What a question is answered with. -/
def ask (session : Session) : Question → Except Failure Answer
  | .get name => do
    let selector ← session.get name
    return .selector selector
  | .equal name other => do
    let selector ← session.get name
    let another ← session.get other
    return .truth (selector = another)
  | .pinnedValue name key => do
    let selector ← session.get name
    return .value (selector.pinnedValue? key)
  | .selects name labels => do
    let selector ← session.get name
    return .truth (selector.selects labels)

/-- What a step is answered with, and the session after it. -/
def step (session : Session) : Command → Except Failure Answer × Session
  | .make recipe into =>
    match session.make recipe with
    | .ok selector => (.ok (.selector selector), ⟨session.selectors.insert into selector⟩)
    | .error failure => (.error failure, session)
  | .ask question => (session.ask question, session)

/-- The session after a sequence of steps. -/
def after (session : Session) (commands : List Command) : Session :=
  commands.foldl (fun session command => (session.step command).2) session

/-- What the steps of a sequence are answered with. -/
def run (session : Session) : List Command → List (Except Failure Answer)
  | [] => []
  | command :: commands => (session.step command).1 :: (session.step command).2.run commands

end Session

end LabelSelector
