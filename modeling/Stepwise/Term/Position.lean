import Stepwise.Term.Render

namespace Stepwise

/-- Argument indices from the root on. Look-ups may be asked for indices that do not exist. -/
abbrev Path := List Int

/-- A path as messages show it. -/
def Path.text : Path → String
  | [] => "()"
  | [i] => s!"({i},)"
  | path => "(" ++ ", ".intercalate (path.map toString) ++ ")"

/-- Why a path leads nowhere. -/
inductive PathError
  | noSubterm (path : Path) (term : Term)
  | beforeFirst

def PathError.message : PathError → String
  | .noSubterm path term => s!"Path {path.text} does not address a sub-term of {term.render}"
  | .beforeFirst => "tuple index out of range"

/-- Puts an argument index in front of the paths of that argument. -/
def belowArgument (i : Int) (positions : List (Path × Term)) : List (Path × Term) :=
  positions.map fun (path, t) => (i :: path, t)

namespace Term

mutual

/-- Every sub-term with its path: a term before its arguments, and these from left to right. -/
def subterms : Term → List (Path × Term)
  | .const a => [([], .const a)]
  | .var x => [([], .var x)]
  | .app f args => ([], .app f args) :: subtermsFrom 0 args

/-- The sub-terms of arguments of which the first has index `i`. -/
def subtermsFrom (i : Int) : List Term → List (Path × Term)
  | [] => []
  | a :: as => belowArgument i a.subterms ++ subtermsFrom (i + 1) as

end

mutual

/-- The sub-terms at a depth with their paths, from left to right. -/
def atDepth : Term → Nat → List (Path × Term)
  | t, 0 => [([], t)]
  | .app _ args, d + 1 => atDepthFrom 0 args d
  | _, _ + 1 => []

def atDepthFrom (i : Int) : List Term → Nat → List (Path × Term)
  | [], _ => []
  | a :: as, d => belowArgument i (a.atDepth d) ++ atDepthFrom (i + 1) as d

end

/-- The sub-term that a path leads to; `whole` and `full` are the term and the path at the start.
A negative index counts from the last argument back. -/
def follow (whole : Term) (full : Path) : Term → Path → Except PathError Term
  | t, [] => .ok t
  | .app _ args, i :: path =>
    if i < -args.length then .error .beforeFirst
    else match args[(if i < 0 then i + args.length else i).toNat]? with
      | some a => follow whole full a path
      | none => .error (.noSubterm full whole)
  | _, _ :: _ => .error (.noSubterm full whole)

def subtermAt (t : Term) (path : Path) : Except PathError Term := follow t path t path

end Term

/-- The replacements inside argument `i`, with their paths from there on. -/
def replacementsBelow (i : Int) (replacements : List (Path × Term)) : List (Path × Term) :=
  replacements.filterMap fun (path, t) => match path with
    | j :: rest => if j = i then some (rest, t) else none
    | [] => none

/-- The term to be put at the root; the last of several wins. -/
def rootReplacement? (replacements : List (Path × Term)) : Option Term :=
  (replacements.reverse.find? fun (path, _) => path.isEmpty).map Prod.snd

namespace Term

mutual

/-- Puts terms at paths, all at once. Where one path leads through another the outer one wins,
and a path that leads nowhere changes nothing. -/
def replace : Term → List (Path × Term) → Term
  | .app f args, replacements =>
    (rootReplacement? replacements).getD (.app f (replaceFrom 0 args replacements))
  | .const a, replacements => (rootReplacement? replacements).getD (.const a)
  | .var x, replacements => (rootReplacement? replacements).getD (.var x)

def replaceFrom (i : Int) : List Term → List (Path × Term) → List Term
  | [], _ => []
  | a :: as, replacements =>
    a.replace (replacementsBelow i replacements) :: replaceFrom (i + 1) as replacements

end

end Term

end Stepwise
