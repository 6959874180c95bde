import Stepwise.Json.Writer
import Stepwise.Rule.Reduction

namespace Stepwise

/-- One step. -/
structure Step where
  before : Term
  rule : Rule
  depth : Nat
  after : Term
  paths : List Path

namespace Step

def label (step : Step) : String := s!"{step.rule.label} at {step.depth}"

def describe (step : Step) : String :=
  s!"{step.label}: {step.before.render} -> {step.after.render}"

def toJson (step : Step) : Json :=
  .object [("rule", .text step.rule.label), ("named", .bool step.rule.name.isSome),
    ("depth", .int step.depth), ("before", .text step.before.render),
    ("after", .text step.after.render), ("rewrites", .int step.paths.length)]

end Step

/-- A term, the steps that were made on it, and the term that they led to. -/
structure Derivation where
  initial : Term
  steps : List Step
  final : Term

/-- How a derivation is written: step by step, or on one line with its rules, or as its rules
alone, or as the chain of its terms. -/
inductive DerivationStyle
  | verbose
  | compact
  | rules
  | chain
deriving DecidableEq, Repr

namespace DerivationStyle

def name : DerivationStyle → String
  | .verbose => "verbose"
  | .compact => "compact"
  | .rules => "rules"
  | .chain => "chain"

def all : List DerivationStyle := [.verbose, .compact, .rules, .chain]

def ofName? (name : String) : Option DerivationStyle := all.find? fun style => style.name == name

/-- What is said of a name that no style has. -/
def unknownMessage (name : String) : String :=
  s!"Unknown style: {name}. Valid options: " ++ ", ".intercalate (all.map DerivationStyle.name)

end DerivationStyle

namespace Derivation

/-- Each step under its number, between the initial and the final term. -/
def describe (d : Derivation) : String :=
  let steps := d.steps.mapIdx fun i step => s!"  {i + 1}. {step.describe}"
  "\n".intercalate (["Initial: " ++ d.initial.render] ++ steps ++ ["Final: " ++ d.final.render])

def labels (d : Derivation) : List String := d.steps.map Step.label

def compact (d : Derivation) : String :=
  d.initial.render ++ " --[" ++ ", ".intercalate d.labels ++ "]--> " ++ d.final.render

def rules (d : Derivation) : String :=
  if d.steps.isEmpty then "(no rules applied)" else " -> ".intercalate d.labels

def chain (d : Derivation) : String :=
  "\n".intercalate
    (d.initial.render :: d.steps.flatMap fun step =>
      ["  --(" ++ step.label ++ ")-->", step.after.render])

def format (d : Derivation) : DerivationStyle → String
  | .verbose => d.describe
  | .compact => d.compact
  | .rules => d.rules
  | .chain => d.chain

/-- The rules in the order in which they were applied. -/
def rulesApplied (d : Derivation) : List String := d.steps.map fun step => step.rule.label

def toJson (d : Derivation) : Json :=
  .object [("initial", .text d.initial.render), ("final", .text d.final.render),
    ("steps", .list (d.steps.map Step.toJson)), ("step_count", .int d.steps.length)]

end Derivation

end Stepwise
