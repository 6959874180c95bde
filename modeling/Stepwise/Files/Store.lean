import Stepwise.Files.Path
import Stepwise.Text.Lines
import Stepwise.Text.Quoted

namespace Stepwise.Files

/-- A place in the tree, by the names that lead there from the working directory. A place outside
begins with the names `..` or `/`, which stand for the directories above and for the root. -/
abbrev Location := List String

/-- The files and directories that the program sees. Only what lies below the working directory is
known; in the directories above it nothing is found until it is written. -/
structure Store where
  files : List (Location × List UInt8) := []
  directories : List Location := []

/-- Why the system refuses an access. -/
inductive Fault
  | notFound
  | notADirectory
  | isADirectory
  | nameTooLong
deriving DecidableEq, Repr

namespace Fault

def number : Fault → Nat
  | .notFound => 2
  | .notADirectory => 20
  | .isADirectory => 21
  | .nameTooLong => 36

def text : Fault → String
  | .notFound => "No such file or directory"
  | .notADirectory => "Not a directory"
  | .isADirectory => "Is a directory"
  | .nameTooLong => "File name too long"

end Fault

/-- Why a file cannot be used. A path with a null character is never handed to the system. -/
inductive FileError
  | refused (fault : Fault) (path : Path)
  | nullCharacter

def FileError.message : FileError → String
  | .refused fault path => s!"[Errno {fault.number}] {fault.text}: " ++ Text.quoted path.text
  | .nullCharacter => "embedded null byte"

/-- Why a text file cannot be read. -/
inductive TextFileError
  | file (error : FileError)
  | undecodable (error : Text.Utf8Error)

def isOutside (name : String) : Bool := name == ".." || name == "/"

/-- The directory above a place. The root has none above it. -/
def Location.above (place : Location) : Location :=
  match place.getLast? with
  | none => [".."]
  | some name =>
    if name = "/" then place else if name = ".." then place ++ [".."] else place.dropLast

/-- A place as a path that the system understands. -/
def Location.text : Location → String
  | "/" :: names => "/" ++ "/".intercalate names
  | names => if names.isEmpty then "." else "/".intercalate names

namespace Store

def content? (store : Store) (place : Location) : Option (List UInt8) := store.files.lookup place

def isDirectory (store : Store) (place : Location) : Bool :=
  place.all isOutside || store.directories.contains place

/-- Whether there is a file or a directory. -/
def occupied (store : Store) (place : Location) : Bool :=
  (store.content? place).isSome || store.isDirectory place

/-- A name has at most so many bytes. -/
def maxName : Nat := 255

/-- A path has fewer bytes than this. -/
def maxPath : Nat := 4096

/-- Goes from a directory to one of its names. -/
def enter (store : Store) (place : Location) (name : String) : Except Fault Location :=
  if !store.isDirectory place then
    .error (if (store.content? place).isSome then .notADirectory else .notFound)
  else if name = "" ∨ name = "." then .ok place
  else if name = ".." then .ok place.above
  else if maxName < name.utf8ByteSize then .error .nameTooLong
  else .ok (place ++ [name])

/-- The place that names lead to, which may be empty. -/
def walk (store : Store) (start : Location) (names : List String) : Except Fault Location :=
  names.foldlM store.enter start

def origin : Anchor → Location
  | .working => []
  | .root | .doubleRoot => ["/"]

/-- The place that a path leads to. -/
def locate (store : Store) (path : Path) : Except FileError Location :=
  if path.text.toList.contains '\x00' then .error .nullCharacter
  else if maxPath ≤ path.text.utf8ByteSize then .error (.refused .nameTooLong path)
  else (store.walk (origin path.anchor) path.parts).mapError fun fault => .refused fault path

def isDirectoryAt (store : Store) (path : Path) : Bool :=
  match store.locate path with
  | .ok place => store.isDirectory place
  | .error _ => false

def read (store : Store) (path : Path) : Except FileError (List UInt8) := do
  let place ← store.locate path
  match store.content? place with
  | some bytes => return bytes
  | none =>
    throw (.refused (if store.isDirectory place then .isADirectory else .notFound) path)

/-- The text in a file, with every line end turned into a newline. -/
def readText (store : Store) (path : Path) : Except TextFileError String := do
  let bytes ← (store.read path).mapError .file
  let s ← (Text.decodeUtf8 bytes).mapError .undecodable
  return String.ofList (Text.unifyNewlines s.toList)

/-- Replaces the content at a place, or puts a new file there. -/
def putContent : List (Location × List UInt8) → Location → List UInt8 →
    List (Location × List UInt8)
  | [], place, bytes => [(place, bytes)]
  | (other, old) :: rest, place, bytes =>
    if other = place then (place, bytes) :: rest else (other, old) :: putContent rest place bytes

def write (store : Store) (path : Path) (bytes : List UInt8) : Except FileError Store := do
  let place ← store.locate path
  if store.isDirectory place then throw (.refused .isADirectory path)
  return { store with files := putContent store.files place bytes }

def writeText (store : Store) (path : Path) (s : String) : Except FileError Store :=
  store.write path (s.toList.flatMap String.utf8EncodeChar)

/-- Puts a directory and the directories above it into the store. -/
def addDirectory (store : Store) (place : Location) : Store :=
  let above := (List.range place.length).map fun n => place.take (n + 1)
  { store with directories := store.directories ++ above.filter fun d => !store.isDirectory d }

/-- Puts a file into the store, and the directories above it. -/
def addFile (store : Store) (place : Location) (bytes : List UInt8) : Store :=
  let store := store.addDirectory place.dropLast
  { store with files := putContent store.files place bytes }

/-- The files that are new or differ from an earlier store. -/
def changesSince (store earlier : Store) : List (Location × List UInt8) :=
  store.files.filter fun (place, bytes) => earlier.content? place != some bytes

/-- The name of a place inside a directory, if it lies directly there. -/
def nameWithin? (directory place : Location) : Option String :=
  match place.getLast? with
  | some name => if place.dropLast = directory ∧ !isOutside name then some name else none
  | none => none

/-- The names in a directory. -/
def namesIn (store : Store) (directory : Location) : List String :=
  (store.files.map Prod.fst ++ store.directories).filterMap (nameWithin? directory)

end Store

end Stepwise.Files
