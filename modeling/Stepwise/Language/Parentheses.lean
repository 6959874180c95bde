namespace Stepwise

/-- Where a character stands. -/
inductive Surrounding
  | code
  | string
  | comment
deriving DecidableEq, Repr

/-- What a character adds to the count, and where the next one stands. A string may go on on the
next line; a comment ends with its own. -/
def Surrounding.count (c : Char) : Surrounding → Int × Surrounding
  | .comment => (0, if c = '\n' then .code else .comment)
  | .string => (0, if c = '"' then .code else .string)
  | .code =>
    if c = '"' then (0, .string)
    else if c = '#' then (0, .comment)
    else if c = '(' then (1, .code)
    else if c = ')' then (-1, .code)
    else (0, .code)

def openParenthesesFrom (place : Surrounding) : List Char → Int
  | [] => 0
  | c :: cs => (place.count c).1 + openParenthesesFrom (place.count c).2 cs

/-- How many parentheses are open at the end of a text; negative if more are closed than open. -/
def openParentheses (s : String) : Int := openParenthesesFrom .code s.toList

end Stepwise
