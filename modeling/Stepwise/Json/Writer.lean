import Stepwise.Json.Value
import Stepwise.Json.Escape

namespace Stepwise.Json

/-- How the parts of lists and objects are set: all on one line, or each on a line of its own with
so many blanks in front of it for every level. -/
abbrev Layout := Option Nat

/-- A new line with the blanks of its level. -/
def lineStart (indent : Nat) (level : Nat) : List Char :=
  '\n' :: List.replicate (indent * level) ' '

/-- What stands between two parts. -/
def separator (layout : Layout) (level : Nat) : List Char :=
  match layout with
  | none => [',', ' ']
  | some indent => ',' :: lineStart indent level

/-- Written parts between two marks, at the level inside them. -/
def enclose (layout : Layout) (level : Nat) (opening closing : Char) (parts : List (List Char)) :
    List Char :=
  if parts.isEmpty then [opening, closing]
  else
    let inner := List.intercalate (separator layout level) parts
    match layout with
    | none => opening :: inner ++ [closing]
    | some indent =>
      opening :: lineStart indent level ++ inner ++ lineStart indent (level - 1) ++ [closing]

def writtenNumber : Extended → String
  | .finite x => x.text
  | .infinite negative => if negative then "-Infinity" else "Infinity"
  | .notANumber => "NaN"

mutual

/-- A value as it stands `level` lists or objects deep. -/
def written (layout : Layout) (level : Nat) : Json → List Char
  | .null => "null".toList
  | .bool b => if b then "true".toList else "false".toList
  | .int n => (toString n).toList
  | .real x => (writtenNumber x).toList
  | .text s => writtenText s
  | .list items => enclose layout (level + 1) '[' ']' (writtenItems layout (level + 1) items)
  | .object fields =>
    enclose layout (level + 1) '\x7b' '\x7d' (writtenFields layout (level + 1) fields)

def writtenItems (layout : Layout) (level : Nat) : List Json → List (List Char)
  | [] => []
  | v :: vs => written layout level v :: writtenItems layout level vs

def writtenFields (layout : Layout) (level : Nat) : List (String × Json) → List (List Char)
  | [] => []
  | (name, v) :: fields =>
    (writtenText name ++ ':' :: ' ' :: written layout level v) :: writtenFields layout level fields

end

def write (layout : Layout) (v : Json) : String := String.ofList (written layout 0 v)

end Stepwise.Json
