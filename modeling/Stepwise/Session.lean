import Stepwise.Registry
import Stepwise.Derivation

namespace Stepwise

/-- A session is idle, or it is under way from an initial term. The last step comes first. -/
inductive Session
  | idle
  | active (initial : Term) (steps : List Step) (current : Term)

namespace Session

def begin (t : Term) : Session := .active t [] t

def isActive : Session → Bool
  | .idle => false
  | .active _ _ _ => true

def current? : Session → Option Term
  | .idle => none
  | .active _ _ current => some current

/-- The steps in the order in which they were made. -/
def history : Session → List Step
  | .idle => []
  | .active _ steps _ => steps.reverse

/-- Applies a rule to the current term. -/
def step (session : Session) (registry : Registry) (ref : RuleRef) (depth : Int) :
    Except StepError (Step × Session) :=
  match session with
  | .idle => .error .notStarted
  | .active initial steps current => do
    let rule ← registry.resolve ref
    let result ← rule.reduct current depth
    let step : Step :=
      { before := current, rule, depth := depth.toNat, after := result.term, paths := result.paths }
    return (step, .active initial (step :: steps) result.term)

/-- What a step would replace. -/
def findMatches (session : Session) (registry : Registry) (ref : RuleRef) (depth : Int) :
    Except StepError (List (Path × Bindings)) :=
  match session with
  | .idle => .error .notStarted
  | .active _ _ current => do
    let rule ← registry.resolve ref
    current.findMatches rule.pattern depth

/-- Takes the last step back. -/
def undo : Session → Except StepError (Term × Session)
  | .idle => .error .notStarted
  | .active _ [] _ => .error .nothingToUndo
  | .active initial (step :: steps) _ => .ok (step.before, .active initial steps step.before)

/-- Taking back a step that has just been made restores the session. -/
theorem undo_of_step {session next : Session} {registry : Registry} {ref : RuleRef} {depth : Int}
    {made : Step} (h : session.step registry ref depth = .ok (made, next)) :
    next.undo = .ok (made.before, session) := by
  cases session with
  | idle => simp [step] at h
  | active initial steps current =>
    simp only [step, bind, Except.bind] at h
    cases hr : registry.resolve ref with
    | error e => simp [hr] at h
    | ok rule =>
      cases hd : rule.reduct current depth with
      | error e => simp [hr, hd] at h
      | ok result =>
        simp only [hr, hd, pure, Except.pure, Except.ok.injEq, Prod.mk.injEq] at h
        obtain ⟨rfl, rfl⟩ := h
        rfl

def derivation : Session → Except StepError Derivation
  | .idle => .error .notStarted
  | .active initial steps current => .ok { initial, steps := steps.reverse, final := current }

def describe : Session → String
  | .idle => "Session(idle)"
  | .active _ steps current => s!"Session({current.render}, {steps.length} steps)"

end Session

end Stepwise
