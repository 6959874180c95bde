import Stepwise.Table
import Stepwise.Text.Quoted
import Stepwise.Number.Extended

namespace Stepwise

/-- The names in an object differ and keep the order in which they first came. -/
inductive Json
  | null
  | bool (b : Bool)
  | int (n : Int)
  | real (x : Extended)
  | text (s : String)
  | list (items : List Json)
  | object (fields : List (String × Json))

instance : Inhabited Json := ⟨.null⟩

namespace Json

/-- An object with the given fields; of several values for one name the last one counts. -/
def ofFields (fields : List (String × Json)) : Json :=
  .object (fields.foldl (fun done (name, v) => putEntry done name v) [])

def field? (name : String) : Json → Option Json
  | .object fields => fields.lookup name
  | _ => none

/-- What messages call the kind of a value. -/
def kind : Json → String
  | .null => "NoneType"
  | .bool _ => "bool"
  | .int _ => "int"
  | .real _ => "float"
  | .text _ => "str"
  | .list _ => "list"
  | .object _ => "dict"

mutual

/-- A value as messages show it. -/
def shown : Json → String
  | .null => "None"
  | .bool b => if b then "True" else "False"
  | .int n => toString n
  | .real x => x.text
  | .text s => Text.quoted s
  | .list items => "[" ++ ", ".intercalate (shownItems items) ++ "]"
  | .object fields => "\x7b" ++ ", ".intercalate (shownFields fields) ++ "\x7d"

def shownItems : List Json → List String
  | [] => []
  | v :: vs => v.shown :: shownItems vs

def shownFields : List (String × Json) → List String
  | [] => []
  | (name, v) :: fields => (Text.quoted name ++ ": " ++ v.shown) :: shownFields fields

end

end Json

end Stepwise
