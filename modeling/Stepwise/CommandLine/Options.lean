import Stepwise.Text.Digit
import Stepwise.Text.Start
import Stepwise.Text.Quoted
import Stepwise.Interpreter.Display

namespace Stepwise.CommandLine

inductive Flag
  | help
  | rules
  | expression
  | display
  | quiet
  | version
deriving DecidableEq, Repr

namespace Flag

/-- The spellings, short before long. -/
def spellings : Flag → List String
  | .help => ["-h", "--help"]
  | .rules => ["-r", "--rules"]
  | .expression => ["-e", "--expr"]
  | .display => ["-n", "--notation"]
  | .quiet => ["-q", "--quiet"]
  | .version => ["--version"]

def all : List Flag := [.help, .rules, .expression, .display, .quiet, .version]

def takesValue : Flag → Bool
  | .rules | .expression | .display => true
  | _ => false

def name (flag : Flag) : String := "/".intercalate flag.spellings

end Flag

/-- All spellings with their options. -/
def spellings : List (String × Flag) :=
  Flag.all.flatMap fun flag => flag.spellings.map fun s => (s, flag)

/-- What an argument is. An option may have a value in the same argument. -/
inductive Argument
  | plain (text : String)
  | option (flag : Flag) (spelling : String) (attached : Option String)
  | unknownOption (text : String)
  /-- Behind two hyphens no argument is an option. -/
  | separator
deriving DecidableEq, Repr

inductive UsageError
  | ambiguous (text : String) (spellings : List String)
  | valueMissing (flag : Flag)
  | valueIgnored (flag : Flag) (value : String)
  | invalidChoice (flag : Flag) (value : String) (choices : List String)
  | unrecognized (texts : List String)
deriving DecidableEq, Repr

def UsageError.message : UsageError → String
  | .ambiguous text spellings =>
    s!"ambiguous option: {text} could match " ++ ", ".intercalate spellings
  | .valueMissing flag => s!"argument {flag.name}: expected one argument"
  | .valueIgnored flag value =>
    s!"argument {flag.name}: ignored explicit argument " ++ Text.quoted value
  | .invalidChoice flag value choices =>
    s!"argument {flag.name}: invalid choice: " ++ Text.quoted value ++ " (choose from " ++
      ", ".intercalate (choices.map Text.quoted) ++ ")"
  | .unrecognized texts => "unrecognized arguments: " ++ " ".intercalate texts

/-- Splits a text at its first equals sign. -/
def splitAtEquals? (s : String) : Option (String × String) :=
  let before := s.toList.takeWhile fun c => c != '='
  match s.toList.drop before.length with
  | _ :: after => some (String.ofList before, String.ofList after)
  | [] => none

/-- Whether a text is a negative number, which is no option. One newline may follow it. -/
def isNegativeNumber (s : String) : Bool :=
  let cs := s.toList
  let cs := if cs.getLast? = some '\n' then cs.dropLast else cs
  match cs with
  | '-' :: cs =>
    let rest := cs.dropWhile Text.isDigit
    match rest with
    | [] => !cs.isEmpty
    | '.' :: fraction => !fraction.isEmpty && fraction.all Text.isDigit
    | _ => false
  | _ => false

/-- The options that a shortened long spelling may stand for, with the value attached to it. -/
def longCandidates (s : String) : List Argument :=
  let start := ((splitAtEquals? s).map Prod.fst).getD s
  let attached := (splitAtEquals? s).map Prod.snd
  (spellings.filter fun (spelling, _) => Text.beginsWith spelling start).map
    fun (spelling, flag) => .option flag spelling attached

/-- The option that the first two characters name, with the other characters attached to it. -/
def shortCandidates (s : String) : List Argument :=
  let start := String.ofList (s.toList.take 2)
  let rest := String.ofList (s.toList.drop 2)
  (spellings.filter fun (spelling, _) => spelling == start).map
    fun (spelling, flag) => .option flag spelling (some rest)

/-- The option that a text spells out in full. -/
def exactOption? (s : String) : Option Argument :=
  match spellings.lookup s with
  | some flag => some (.option flag s none)
  | none => do
    let (start, value) ← splitAtEquals? s
    let flag ← spellings.lookup start
    return .option flag start (some value)

def Argument.spelling : Argument → String
  | .option _ spelling _ => spelling
  | .plain text | .unknownOption text => text
  | .separator => "--"

/-- Sorts an argument that begins with a hyphen and has further characters. -/
def sortHyphened (s : String) : Except UsageError Argument :=
  match exactOption? s with
  | some option => .ok option
  | none =>
    match if Text.beginsWith s "--" then longCandidates s else shortCandidates s with
    | [option] => .ok option
    | [] => .ok (if isNegativeNumber s || s.toList.contains ' ' then .plain s
        else .unknownOption s)
    | candidates => .error (.ambiguous s (candidates.map Argument.spelling))

def sortArguments : List String → Except UsageError (List Argument)
  | [] => .ok []
  | s :: rest =>
    if s = "--" then .ok (.separator :: rest.map .plain)
    else do
      let argument ← if Text.beginsWith s "-" && s != "-" then sortHyphened s else .ok (.plain s)
      let arguments ← sortArguments rest
      return argument :: arguments

/-- An option that is to take effect, with its value if it has one. -/
abbrev Setting := Flag × Option String

/-- The value that a text stands for. Two hyphens stand for none, even behind an option that takes
a value. -/
def valueOf (text : String) : Option String := if text = "--" then none else some text

/-- The options that one argument sets: options without a value may be strung together behind one
hyphen, and the last one may take the remaining characters as its value. If it takes a value and
no characters are left, the value remains to be found in the next argument. -/
structure Cluster where
  settings : List Setting
  awaiting : Option Flag := none

/-- Reads on in a cluster, of which the characters `rest` follow the option `flag`. -/
def clusterFrom (flag : Flag) : List Char → Except UsageError Cluster
  | [] => .ok (if flag.takesValue then { settings := [], awaiting := flag }
      else { settings := [(flag, none)] })
  | c :: rest =>
    if flag.takesValue then .ok { settings := [(flag, valueOf (String.ofList (c :: rest)))] }
    else match spellings.lookup (String.ofList ['-', c]) with
      | some next => do
        let cluster ← clusterFrom next rest
        return { cluster with settings := (flag, none) :: cluster.settings }
      | none => .error (.valueIgnored flag (String.ofList (c :: rest)))

/-- The options that an option argument sets. An equals sign between a short option without a value
and what is attached to it says nothing. -/
def cluster (flag : Flag) (spelling : String) (attached : Option String) :
    Except UsageError Cluster :=
  match attached with
  | none => clusterFrom flag []
  | some value =>
    if flag.takesValue then .ok { settings := [(flag, valueOf value)] }
    else if value.isEmpty || Text.beginsWith spelling "--" then .error (.valueIgnored flag value)
    else clusterFrom flag value.toList

/-- What the command line asks for. -/
structure Options where
  /-- The rule files to be loaded. A file may be asked for without being named. -/
  rules : List (Option String) := []
  expression : Option String := none
  display : Display := .operators
  quiet : Bool := false
  script : Option String := none
deriving DecidableEq, Repr

/-- What keeps the program from running: a wrong option, or one that asks for a text. -/
inductive Refusal
  | usage (error : UsageError)
  | help
  | version
deriving DecidableEq, Repr

/-- The options that have taken effect, and the arguments that have no meaning. -/
structure Progress where
  options : Options := {}
  /-- Whether no further argument can be the script. -/
  scriptSettled : Bool := false
  unrecognized : List String := []

namespace Progress

def withScript (p : Progress) (script : Option String) : Progress :=
  { p with options := { p.options with script }, scriptSettled := true }

def reject (p : Progress) (texts : List String) : Progress :=
  { p with unrecognized := p.unrecognized ++ texts }

def apply (p : Progress) (setting : Setting) : Except Refusal Progress :=
  let o := p.options
  match setting with
  | (.help, _) => .error .help
  | (.version, _) => .error .version
  | (.rules, file) => .ok { p with options := { o with rules := o.rules ++ [file] } }
  | (.expression, text) => .ok { p with options := { o with expression := text } }
  | (.quiet, _) => .ok { p with options := { o with quiet := true } }
  | (.display, none) => .ok { p with options := { o with display := .unset } }
  | (.display, some name) => match Display.ofName? name with
    | some display => .ok { p with options := { o with display } }
    | none => .error (.usage (.invalidChoice .display name (Display.all.map Display.name)))

def applyAll (p : Progress) (settings : List Setting) : Except Refusal Progress :=
  settings.foldlM apply p

/-- Goes through the arguments from left to right. -/
def consume (p : Progress) : List Argument → Except Refusal Progress
  | [] => .ok p
  | .option flag spelling attached :: rest => do
    let c ← (cluster flag spelling attached).mapError .usage
    match c.awaiting, rest with
    | none, rest => (← p.applyAll c.settings).consume rest
    | some last, .plain text :: rest =>
      (← p.applyAll (c.settings ++ [(last, valueOf text)])).consume rest
    | some last, _ => .error (.usage (.valueMissing last))
  | .unknownOption s :: rest => (p.reject [s]).consume rest
  | .plain s :: rest =>
    if p.scriptSettled then (p.reject [s]).consume rest
    else match rest with
      | .separator :: rest => (p.withScript s).consume rest
      | rest => (p.withScript s).consume rest
  | .separator :: rest =>
    if p.scriptSettled then (p.reject ["--"]).consume rest
    else match rest with
      | .plain s :: rest => (p.withScript s).consume rest
      | rest => (p.withScript none).consume rest

end Progress

/-- The options that the arguments set. All arguments are sorted before the first takes effect; of
those that are no option the first is the script. -/
def Options.ofArguments (arguments : List String) : Except Refusal Options := do
  let sorted ← (sortArguments arguments).mapError .usage
  let p ← ({} : Progress).consume sorted
  if p.unrecognized.isEmpty then return p.options
  else throw (.usage (.unrecognized p.unrecognized))

end Stepwise.CommandLine
