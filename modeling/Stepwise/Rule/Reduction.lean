import Stepwise.Rule.Basic
import Stepwise.Term.Matching
import Stepwise.Term.Position

namespace Stepwise

/-- Why a step cannot be made or taken back. -/
inductive StepError
  | negativeDepth (depth : Int)
  | noMatch (rule : Rule) (depth : Nat)
  | unknownRule (name : String)
  | nothingToUndo
  | notStarted

def StepError.message : StepError → String
  | .negativeDepth depth => s!"Depth must be non-negative, got {depth}"
  | .noMatch rule depth => s!"Rule '{rule.label}' does not match anything at depth {depth}"
  | .unknownRule name => s!"No rule named '{name}'"
  | .nothingToUndo => "Nothing to undo"
  | .notStarted => "No active matching session; enter an expression first"

/-- A depth as a natural number. -/
def checkedDepth (depth : Int) : Except StepError Nat :=
  if depth < 0 then .error (.negativeDepth depth) else .ok depth.toNat

namespace Term

/-- The sub-terms at a depth that the pattern matches, from left to right. -/
def matchesAt (t pattern : Term) (depth : Nat) : List (Path × Bindings) :=
  (t.atDepth depth).filterMap fun (path, u) => (pattern.match? u).map fun b => (path, b)

def collectAt (t : Term) (depth : Int) : Except StepError (List (Path × Term)) :=
  (checkedDepth depth).map t.atDepth

def findMatches (t pattern : Term) (depth : Int) : Except StepError (List (Path × Bindings)) :=
  (checkedDepth depth).map (t.matchesAt pattern)

end Term

/-- What a step gives: the new term, and the paths of the sub-terms that were replaced. -/
structure Reduct where
  term : Term
  paths : List Path

namespace Rule

/-- Replaces every match at the depth by its instance of the replacement, all at once.
There is no result where nothing matches. -/
def reduct? (rule : Rule) (t : Term) (depth : Nat) : Option Reduct :=
  let found := t.matchesAt rule.pattern depth
  if found.isEmpty then none
  else
    let replacements := found.map fun (path, b) => (path, rule.replacement.instantiate b.find?)
    some { term := t.replace replacements, paths := found.map Prod.fst }

def reduct (rule : Rule) (t : Term) (depth : Int) : Except StepError Reduct := do
  let depth ← checkedDepth depth
  match rule.reduct? t depth with
  | some result => .ok result
  | none => .error (.noMatch rule depth)

end Rule

end Stepwise
