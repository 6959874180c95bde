import Stepwise.Files.Store
import Stepwise.Files.Pattern

namespace Stepwise.Files

/-- Appends a name to a directory as text. -/
def joinText (directory name : String) : String :=
  if directory.isEmpty || directory.toList.getLast? == some '/' then directory ++ name
  else directory ++ "/" ++ name

/-- Removes the slashes at the end, unless there is nothing else. -/
def trimSlashes (s : String) : String :=
  let trimmed := (s.toList.reverse.dropWhile fun c => c == '/').reverse
  if trimmed.isEmpty then s else String.ofList trimmed

namespace Store

/-- The place that a text leads to when it is taken as it is written. -/
def locateText (store : Store) (s : String) : Except Fault Location :=
  let start := if Text.beginsWith s "/" then ["/"] else []
  store.walk start ((splitAtSlashes s.toList).map String.ofList)

def occupiedText (store : Store) (s : String) : Bool :=
  match store.locateText s with
  | .ok place => store.occupied place
  | .error _ => false

/-- The names in a directory that is given as text. -/
def namesInText (store : Store) (directory : String) : List String :=
  match store.locateText directory with
  | .ok place => store.namesIn place
  | .error _ => []

/-- The directories that one more part of a pattern leads to. -/
def expandDirectory (store : Store) (part : String) (directory : String) : List String :=
  if hasWildcard part then
    let fitting := (store.namesInText directory).filter (nameMatches part)
    (fitting.map (joinText directory)).filter fun s => store.isDirectoryAt (Path.ofString s)
  else
    let s := joinText directory part
    if store.occupiedText s then [s] else []

/-- The paths that a pattern of parts leads to from some directories. -/
def expandParts (store : Store) : List String → List String → List String
  | [], directories => directories
  | [part], directories => directories.flatMap fun directory =>
    ((store.namesInText directory).filter (nameMatches part)).map (joinText directory)
  | part :: parts, directories =>
    store.expandParts parts (directories.flatMap (store.expandDirectory part))

/-- The paths that begin with a text in which wildcards may stand. The directories in front of the
first part with a wildcard are kept as they are written. -/
def pathsFrom (store : Store) (start : String) : List String :=
  let parts := (splitAtSlashes (start ++ "*").toList).map String.ofList
  let fixed := parts.takeWhile fun part => !hasWildcard part
  let patterns := parts.drop fixed.length
  let directory := trimSlashes ("/".intercalate (fixed ++ [""]))
  store.expandParts (patterns.filter (· != "")) [if fixed.isEmpty then "" else directory]

end Store

end Stepwise.Files
