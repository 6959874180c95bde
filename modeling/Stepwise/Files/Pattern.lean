import Stepwise.Text.Start

namespace Stepwise.Files

/-- In a pattern `*` stands for any characters, `?` for one, and brackets for one character of a
set. -/
inductive PatternPiece
  | anyText
  | anyChar
  | char (c : Char)
  | set (negated : Bool) (ranges : List (Char × Char))
deriving DecidableEq, Repr

/-- What stands between brackets, seen from behind the opening one. A closing bracket at the very
front belongs to the set. -/
def bracketBody? (cs : List Char) : Option (List Char) :=
  let mark := if cs.head? = some '!' then ['!'] else []
  let rest := cs.drop mark.length
  let first := if rest.head? = some ']' then [']'] else []
  let rest := rest.drop first.length
  let body := rest.takeWhile fun c => c != ']'
  if body.length < rest.length then some (mark ++ first ++ body) else none

/-- Cuts a set at the hyphens that make ranges. A hyphen does so only behind at least `least`
characters of its chunk. -/
def chunksFrom (least : Nat) (chunk : List Char) : List Char → List (List Char)
  | [] => [chunk]
  | c :: cs =>
    if c = '-' ∧ least = 0 then chunk :: chunksFrom 2 [] cs
    else chunksFrom (least - 1) (chunk ++ [c]) cs

/-- A hyphen at the end of a set stands for itself. -/
def joinLastHyphen : List (List Char) → List (List Char)
  | [chunk, []] => [chunk ++ ['-']]
  | chunk :: chunks => chunk :: joinLastHyphen chunks
  | [] => []

/-- Drops the ranges that run backwards, with both their ends. -/
def dropBackward : List (List Char) → List (List Char)
  | [] => []
  | chunk :: chunks => match dropBackward chunks with
    | [] => [chunk]
    | next :: rest => match chunk.getLast?, next.head? with
      | some low, some high =>
        if high < low then (chunk.dropLast ++ next.tail) :: rest else chunk :: next :: rest
      | _, _ => chunk :: next :: rest

/-- A member of a set, or the hyphen of a range. -/
inductive SetMark
  | member (c : Char)
  | hyphen

def SetMark.char : SetMark → Char
  | .member c => c
  | .hyphen => '-'

def markChunks (chunks : List (List Char)) : List SetMark :=
  List.intercalate [.hyphen] (chunks.map fun chunk => chunk.map .member)

def rangesOf : List SetMark → List (Char × Char)
  | low :: .hyphen :: high :: rest => (low.char, high.char) :: rangesOf rest
  | mark :: rest => (mark.char, mark.char) :: rangesOf rest
  | [] => []

/-- The piece for a set. Nothing is in an empty set, and anything is outside of one. -/
def setPiece (body : List Char) : PatternPiece :=
  let least := if body.head? = some '!' then 2 else 1
  let marks := markChunks (dropBackward (joinLastHyphen (chunksFrom least [] body)))
  match marks with
  | .member '!' :: rest => .set true (rangesOf rest)
  | marks => .set false (rangesOf marks)

/-- The pieces of a pattern. The first `skip` characters belong to the set read last. -/
def patternPieces (skip : Nat) : List Char → List PatternPiece
  | [] => []
  | c :: cs => match skip with
    | skip + 1 => patternPieces skip cs
    | 0 =>
      if c = '*' then .anyText :: patternPieces 0 cs
      else if c = '?' then .anyChar :: patternPieces 0 cs
      else if c = '[' then
        match bracketBody? cs with
        | some body => setPiece body :: patternPieces (body.length + 1) cs
        | none => .char '[' :: patternPieces 0 cs
      else .char c :: patternPieces 0 cs

/-- What is left of a text after any number of its characters. -/
def suffixes : List Char → List (List Char)
  | [] => [[]]
  | c :: cs => (c :: cs) :: suffixes cs

def PatternPiece.fits (c : Char) : PatternPiece → Bool
  | .anyText | .anyChar => true
  | .char d => c == d
  | .set negated ranges => ranges.any (fun (low, high) => low ≤ c && c ≤ high) != negated

/-- Whether the pieces stand for the whole of a text. -/
def piecesMatch : List PatternPiece → List Char → Bool
  | [], cs => cs.isEmpty
  | .anyText :: pieces, cs => (suffixes cs).any (piecesMatch pieces)
  | piece :: pieces, c :: cs => piece.fits c && piecesMatch pieces cs
  | _ :: _, [] => false

/-- Whether a file name fits a pattern. A name that begins with a point is hidden from a pattern
that does not. -/
def nameMatches (pattern name : String) : Bool :=
  (Text.beginsWith pattern "." || !Text.beginsWith name ".") &&
    piecesMatch (patternPieces 0 pattern.toList) name.toList

/-- Whether a text contains a character with a meaning in patterns. -/
def hasWildcard (s : String) : Bool := s.toList.any fun c => c == '*' || c == '?' || c == '['

end Stepwise.Files
