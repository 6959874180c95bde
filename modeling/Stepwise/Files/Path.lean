namespace Stepwise.Files

/-- Where a path begins: at the working directory, at the root, or at the root written with
exactly two slashes. -/
inductive Anchor
  | working
  | root
  | doubleRoot
deriving DecidableEq, Repr

def Anchor.text : Anchor → String
  | .working => ""
  | .root => "/"
  | .doubleRoot => "//"

/-- A path as a text names it. Repeated slashes and the part `.` say nothing and are dropped; the
part `..` stays. -/
structure Path where
  anchor : Anchor
  parts : List String
deriving DecidableEq, Repr

/-- The parts between slashes, empty ones too. -/
def splitAtSlashes : List Char → List (List Char)
  | [] => [[]]
  | c :: cs =>
    if c = '/' then [] :: splitAtSlashes cs
    else match splitAtSlashes cs with
      | [] => [[c]]
      | part :: parts => (c :: part) :: parts

namespace Path

def anchorOf (cs : List Char) : Anchor :=
  match (cs.takeWhile fun c => c == '/').length with
  | 0 => .working
  | 2 => .doubleRoot
  | _ => .root

def ofString (s : String) : Path :=
  let parts := (splitAtSlashes s.toList).map String.ofList
  { anchor := anchorOf s.toList, parts := parts.filter fun p => p != "" && p != "." }

/-- The path in its shortest spelling; the working directory is a point. -/
def text (path : Path) : String :=
  let s := path.anchor.text ++ "/".intercalate path.parts
  if s.isEmpty then "." else s

def isAbsolute (path : Path) : Bool := path.anchor != .working

/-- A path seen from a directory; an absolute one stays as it is. -/
def within (path directory : Path) : Path :=
  if path.isAbsolute then path else { directory with parts := directory.parts ++ path.parts }

def parent (path : Path) : Path := { path with parts := path.parts.dropLast }

/-- The last part. -/
def name (path : Path) : String := path.parts.getLast?.getD ""

/-- What follows the last point of the name, if there is something on both sides of it. -/
def extension? (path : Path) : Option String :=
  let cs := path.name.toList.reverse
  let ending := cs.takeWhile fun c => c != '.'
  let stem := cs.drop (ending.length + 1)
  if ending.isEmpty || stem.isEmpty then none else some (String.ofList ending.reverse)

end Path

end Stepwise.Files
