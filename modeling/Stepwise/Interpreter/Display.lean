import Stepwise.Term.Infix

namespace Stepwise

/-- What the user has chosen. Where nothing is chosen terms are shown with operators. -/
inductive Display
  | operators
  | functors
  | unset
deriving DecidableEq, Repr

namespace Display

def name : Display → String
  | .operators => "infix"
  | .functors => "functor"
  | .unset => "[]"

/-- The displays that can be chosen by name. -/
def all : List Display := [.operators, .functors]

def ofName? (name : String) : Option Display := all.find? fun display => display.name == name

/-- A term behind a title. Where the form with operators differs from the functor form, that one
follows on a line of its own. -/
def present (display : Display) (title : String) (t : Term) : String :=
  match display with
  | .functors => title ++ t.render
  | .operators | .unset =>
    let first := title ++ t.renderInfix
    if t.hasInfix then
      first ++ "\n" ++ String.ofList (List.replicate title.length ' ') ++ "As functor: " ++ t.render
    else first

end Display

end Stepwise
