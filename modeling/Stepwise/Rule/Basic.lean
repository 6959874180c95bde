import Stepwise.Term.Render

namespace Stepwise

/-- Every variable of the replacement occurs in the pattern, so a step can fill in the whole
replacement. -/
structure Rule where
  pattern : Term
  replacement : Term
  name : Option String := none
  closed : ∀ x ∈ replacement.vars, x ∈ pattern.vars

/-- A replacement with variables that its pattern does not bind. -/
structure UnboundVariables where
  names : List String
  pattern : Term
  replacement : Term

/-- A pattern and a replacement as one text. -/
def ruleText (pattern replacement : Term) : String :=
  pattern.render ++ " => " ++ replacement.render

def UnboundVariables.message (e : UnboundVariables) : String :=
  "Replacement uses unbound variable(s): " ++ ", ".intercalate e.names ++
    " in '" ++ ruleText e.pattern e.replacement ++ "'"

namespace Rule

/-- The rule, unless the replacement has an unbound variable. -/
def make? (pattern replacement : Term) (name : Option String) : Except UnboundVariables Rule :=
  if h : ∀ x ∈ replacement.vars, x ∈ pattern.vars then
    .ok { pattern, replacement, name, closed := h }
  else
    let unbound := replacement.vars.filter fun x => !pattern.vars.contains x
    .error { names := sortedNames unbound, pattern, replacement }

def named (rule : Rule) (name : String) : Rule := { rule with name := some name }

def text (rule : Rule) : String := ruleText rule.pattern rule.replacement

/-- The name of the rule; a rule without one is called by its text. -/
def label (rule : Rule) : String :=
  match rule.name with
  | some name => if name.isEmpty then rule.text else name
  | none => rule.text

/-- The text of the rule, after its name if it has one. -/
def describe (rule : Rule) : String :=
  match rule.name with
  | some name => if name.isEmpty then rule.text else name ++ ": " ++ rule.text
  | none => rule.text

/-- Whether two rules have equal sides and the same name. -/
def same (a b : Rule) : Bool :=
  a.pattern == b.pattern && a.replacement == b.replacement && a.name == b.name

instance : BEq Rule := ⟨same⟩

end Rule

end Stepwise
