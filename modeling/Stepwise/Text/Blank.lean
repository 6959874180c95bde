import Stepwise.Text.CharRange

namespace Stepwise.Text

/-- The Unicode white space together with the four ASCII information separators. -/
def blankRanges : List (Nat × Nat) :=
  [(0x09, 0x0D), (0x1C, 0x20), (0x85, 0x85), (0xA0, 0xA0), (0x1680, 0x1680), (0x2000, 0x200A),
   (0x2028, 0x2029), (0x202F, 0x202F), (0x205F, 0x205F), (0x3000, 0x3000)]

def isBlank (c : Char) : Bool := inRanges blankRanges c.toNat

/-- Removes the blanks before the first other character. -/
def trimStart (cs : List Char) : List Char := cs.dropWhile isBlank

/-- Removes the blanks after the last other character. -/
def trimEnd (cs : List Char) : List Char := (cs.reverse.dropWhile isBlank).reverse

/-- Removes the blanks at both ends. -/
def trim (s : String) : String := String.ofList (trimEnd (trimStart s.toList))

/-- The first word, and what follows it without the blanks in between.
There is no first word in a text of blanks. -/
def firstWord? (s : String) : Option (String × String) :=
  match trimStart s.toList with
  | [] => none
  | cs =>
    let word := cs.takeWhile fun c => !isBlank c
    let rest := trimStart (cs.dropWhile fun c => !isBlank c)
    some (String.ofList word, String.ofList rest)

end Stepwise.Text
