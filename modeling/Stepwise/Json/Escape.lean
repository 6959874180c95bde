import Stepwise.Text.Utf8

namespace Stepwise.Json

/-- An escape of a code unit by its number. -/
def unitEscape (n : Nat) : List Char := '\\' :: 'u' :: Text.hexText 4 n

/-- The escapes with a letter or mark of their own. -/
def shortEscapes : List (Char × Char) :=
  [('"', '"'), ('\\', '\\'), ('\n', 'n'), ('\r', 'r'), ('\t', 't'), ('\x0c', 'f'), ('\x08', 'b')]

/-- A character beyond the first 65536 is escaped as two surrogates. -/
def escapeChar (c : Char) : List Char :=
  match shortEscapes.lookup c with
  | some letter => ['\\', letter]
  | none =>
    if ' ' ≤ c ∧ c ≤ '~' then [c]
    else if c.toNat < 0x10000 then unitEscape c.toNat
    else
      let offset := c.toNat - 0x10000
      unitEscape (0xD800 + offset / 0x400) ++ unitEscape (0xDC00 + offset % 0x400)

/-- A text between quotation marks. -/
def writtenText (s : String) : List Char := '"' :: s.toList.flatMap escapeChar ++ ['"']

/-- What can be wrong inside a quoted text. -/
inductive TextFault
  | unterminated
  | escape
  | unitEscape
  | controlCharacter
deriving DecidableEq, Repr

/-- The character that a short escape stands for; a slash may be escaped too. -/
def unescape? : Char → Option Char
  | '"' => some '"'
  | '\\' => some '\\'
  | '/' => some '/'
  | 'b' => some '\x08'
  | 'f' => some '\x0c'
  | 'n' => some '\n'
  | 'r' => some '\r'
  | 't' => some '\t'
  | _ => none

def hexValue? (c : Char) : Option Nat :=
  if '0' ≤ c ∧ c ≤ '9' then some (c.toNat - 48)
  else if 'a' ≤ c ∧ c ≤ 'f' then some (c.toNat - 87)
  else if 'A' ≤ c ∧ c ≤ 'F' then some (c.toNat - 55)
  else none

/-- The number that four hexadecimal digits denote. -/
def hexQuad? (a b c d : Char) : Option Nat := do
  let a ← hexValue? a
  let b ← hexValue? b
  let c ← hexValue? c
  let d ← hexValue? d
  return ((a * 16 + b) * 16 + c) * 16 + d

/-- The code units of a quoted text from behind its opening mark on, and how many characters they
take up together with the closing mark. An escape by number is never the last thing in a text.
A fault carries its distance from the first of the characters. -/
def readUnits (distance : Nat) : List Char → Except (TextFault × Nat) (List Nat × Nat)
  | [] => .error (.unterminated, distance)
  | '"' :: _ => .ok ([], distance + 1)
  | '\\' :: 'u' :: a :: b :: c :: d :: e :: rest =>
    match hexQuad? a b c d with
    | some n => do
      let (units, length) ← readUnits (distance + 6) (e :: rest)
      return (n :: units, length)
    | none => .error (.unitEscape, distance + 1)
  | '\\' :: 'u' :: _ => .error (.unitEscape, distance + 1)
  | '\\' :: c :: rest =>
    match unescape? c with
    | some d => do
      let (units, length) ← readUnits (distance + 2) rest
      return (d.toNat :: units, length)
    | none => .error (.escape, distance)
  | ['\\'] => .error (.unterminated, distance)
  | c :: rest =>
    if c < ' ' then .error (.controlCharacter, distance)
    else do
      let (units, length) ← readUnits (distance + 1) rest
      return (c.toNat :: units, length)

def isHighSurrogate (n : Nat) : Bool := 0xD800 ≤ n && n < 0xDC00

def isLowSurrogate (n : Nat) : Bool := 0xDC00 ≤ n && n < 0xE000

/-- A character by its code point. Texts are rows of Unicode scalar values, so a surrogate that
stands alone has no character of its own; every one of them becomes the replacement character. -/
def unitChar (n : Nat) : Char := if n.isValidChar then Char.ofNat n else '\uFFFD'

/-- Joins each high surrogate with the low one behind it. -/
def joinUnits : List Nat → List Char
  | [] => []
  | high :: low :: rest =>
    if isHighSurrogate high && isLowSurrogate low then
      Char.ofNat (0x10000 + (high - 0xD800) * 0x400 + (low - 0xDC00)) :: joinUnits rest
    else unitChar high :: joinUnits (low :: rest)
  | [n] => [unitChar n]

/-- The text behind an opening mark, and how many characters it takes up with its closing mark. -/
def readText (cs : List Char) : Except (TextFault × Nat) (String × Nat) := do
  let (units, length) ← readUnits 0 cs
  return (String.ofList (joinUnits units), length)

end Stepwise.Json
