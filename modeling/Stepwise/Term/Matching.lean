import Stepwise.Table
import Stepwise.Term.Render
import Stepwise.Text.Quoted

namespace Stepwise

/-- The terms bound to pattern variables, in the order in which they were first met. -/
abbrev Bindings := Table Term

namespace Term

mutual

/-- Extends the bindings so that the pattern becomes equal to the candidate, if that is possible. A
variable takes the whole sub-term it meets, and wherever it occurs again it must meet an equal one.
Arguments are matched from left to right. -/
def matchWith? : Term → Term → Bindings → Option Bindings
  | .var x, candidate, bindings => match bindings.find? x with
    | none => some (bindings.put x candidate)
    | some bound => if bound == candidate then some bindings else none
  | .const a, .const b, bindings => if b.same a then some bindings else none
  | .app f patterns, .app g candidates, bindings =>
    if f = g ∧ patterns.length = candidates.length then matchAll? patterns candidates bindings
    else none
  | _, _, _ => none

def matchAll? : List Term → List Term → Bindings → Option Bindings
  | [], [], bindings => some bindings
  | p :: patterns, c :: candidates, bindings =>
    match matchWith? p c bindings with
    | some extended => matchAll? patterns candidates extended
    | none => none
  | _, _, _ => none

end

def match? (pattern candidate : Term) : Option Bindings := matchWith? pattern candidate ∅

end Term

/-- A name that is not bound, or one that is sought where nothing has matched. -/
inductive LookupError
  | unbound (name : String)
  | noMatch (name : String)

def LookupError.message : LookupError → String
  | .unbound name => Text.quoted name
  | .noMatch name => Text.quoted s!"NoMatch has no binding for '{name}'"

namespace Bindings

def render (bindings : Bindings) : String :=
  "Bindings(\x7b" ++ ", ".intercalate (bindings.entries.map fun (x, t) => x ++ ": " ++ t.render)
    ++ "\x7d)"

/-- The term that the outcome of a match binds to a name. -/
def lookup (outcome : Option Bindings) (name : String) : Except LookupError Term :=
  match outcome with
  | none => .error (.noMatch name)
  | some bindings => match bindings.find? name with
    | some t => .ok t
    | none => .error (.unbound name)

/-- The outcome of a match as messages show it. -/
def renderOutcome : Option Bindings → String
  | some bindings => bindings.render
  | none => "NoMatch"

/-- Whether two bindings bind the same names to equal terms, in any order. -/
def same (a b : Bindings) : Bool :=
  a.size == b.size && a.entries.all fun (x, t) => (b.find? x).any fun u => t == u

end Bindings

end Stepwise
