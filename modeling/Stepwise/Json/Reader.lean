import Stepwise.Json.Token

namespace Stepwise.Json

/-- What is wrong with a text at some position. -/
inductive Fault
  | byteOrderMark
  | noValue
  | noName
  | noColon
  | noComma
  | extraData
  | quotation (fault : TextFault)
deriving DecidableEq, Repr

def Fault.text : Fault → String
  | .byteOrderMark => "Unexpected UTF-8 BOM (decode using utf-8-sig)"
  | .noValue => "Expecting value"
  | .noName => "Expecting property name enclosed in double quotes"
  | .noColon => "Expecting ':' delimiter"
  | .noComma => "Expecting ',' delimiter"
  | .extraData => "Extra data"
  | .quotation .unterminated => "Unterminated string starting at"
  | .quotation .escape => "Invalid \\escape"
  | .quotation .unitEscape => "Invalid \\uXXXX escape"
  | .quotation .controlCharacter => "Invalid control character at"

/-- Why a text is no JSON: a fault at a position, or an integer with too many digits. -/
inductive Failure
  | fault (fault : Fault) (position : Nat)
  | longInteger (digits : Nat)
deriving DecidableEq, Repr

/-- A list or an object that is open, with what it holds so far. An object waits for the value of
its last name. -/
inductive Enclosing
  | list (items : List Json)
  | object (fields : List (String × Json)) (name : String)

mutual

/-- Reads on where a value has to come. A text ends at position `stop`. -/
def readValue (stop : Nat) (outer : List Enclosing) : List Token → Except Failure Json
  | [] => .error (.fault .noValue stop)
  | t :: ts => match t.piece with
    | .value v => readAfter stop outer v ts
    | .text s => readAfter stop outer (.text s) ts
    | .openList => match ts with
      | c :: rest => match c.piece with
        | .closeList => readAfter stop outer (.list []) rest
        | _ => readValue stop (.list [] :: outer) (c :: rest)
      | [] => .error (.fault .noValue stop)
    | .openObject => match ts with
      | c :: rest => match c.piece with
        | .closeObject => readAfter stop outer (.object []) rest
        | _ => readName stop outer [] (c :: rest)
      | [] => .error (.fault .noName stop)
    | .brokenText fault position => .error (.fault (.quotation fault) position)
    | .longInteger digits => .error (.longInteger digits)
    | _ => .error (.fault .noValue t.position)

/-- Reads on where the name of a further field has to come. -/
def readName (stop : Nat) (outer : List Enclosing) (fields : List (String × Json)) :
    List Token → Except Failure Json
  | [] => .error (.fault .noName stop)
  | t :: ts => match t.piece with
    | .text name => match ts with
      | c :: rest => match c.piece with
        | .colon => readValue stop (.object fields name :: outer) rest
        | _ => .error (.fault .noColon c.position)
      | [] => .error (.fault .noColon stop)
    | .brokenText fault position => .error (.fault (.quotation fault) position)
    | _ => .error (.fault .noName t.position)

/-- Reads on behind a value. -/
def readAfter (stop : Nat) (outer : List Enclosing) (v : Json) : List Token → Except Failure Json
  | [] => match outer with
    | [] => .ok v
    | _ :: _ => .error (.fault .noComma stop)
  | t :: ts => match outer with
    | [] => .error (.fault .extraData t.position)
    | .list items :: outer => match t.piece with
      | .closeList => readAfter stop outer (.list (items ++ [v])) ts
      | .comma => readValue stop (.list (items ++ [v]) :: outer) ts
      | _ => .error (.fault .noComma t.position)
    | .object fields name :: outer => match t.piece with
      | .closeObject => readAfter stop outer (.object (putEntry fields name v)) ts
      | .comma => readName stop outer (putEntry fields name v) ts
      | _ => .error (.fault .noComma t.position)

end

/-- A fault with its place in the text. Lines end at newlines; lines and columns count from 1,
positions from 0. -/
structure Malformed where
  fault : Fault
  line : Nat
  column : Nat
  position : Nat
deriving DecidableEq, Repr

def Malformed.message (e : Malformed) : String :=
  s!"{e.fault.text}: line {e.line} column {e.column} (char {e.position})"

inductive Error
  | malformed (error : Malformed)
  | longInteger (digits : Nat)
deriving DecidableEq, Repr

def Error.message : Error → String
  | .malformed error => error.message
  | .longInteger digits =>
    s!"Exceeds the limit ({maxDigits} digits) for integer string conversion: value has {digits} " ++
      "digits; use sys.set_int_max_str_digits() to increase the limit"

/-- Finds the line and the column of a position. -/
def locate (cs : List Char) (fault : Fault) (position : Nat) : Malformed :=
  let before := cs.take position
  let line := before.reverse.takeWhile fun c => c != '\n'
  { fault, line := before.count '\n' + 1, column := line.length + 1, position }

def Failure.locate (cs : List Char) : Failure → Error
  | .fault f p => .malformed (Json.locate cs f p)
  | .longInteger n => .longInteger n

/-- The value that a text holds. -/
def read (s : String) : Except Error Json :=
  let cs := s.toList
  let result :=
    if cs.head? = some '\uFEFF' then .error (.fault .byteOrderMark 0)
    else readValue cs.length [] (scan 0 0 cs)
  result.mapError (Failure.locate cs)

end Stepwise.Json
