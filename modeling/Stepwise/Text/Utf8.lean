namespace Stepwise.Text

/-- Why a byte cannot continue the text decoded so far. -/
inductive Utf8Fault
  | startByte
  | continuationByte
  | endOfData
deriving DecidableEq, Repr

/-- The bytes `first, …` that cannot be decoded: `count` of them, the first at `position`. -/
structure Utf8Error where
  fault : Utf8Fault
  first : UInt8
  position : Nat
  count : Nat
deriving DecidableEq, Repr

def Utf8Fault.text : Utf8Fault → String
  | .startByte => "invalid start byte"
  | .continuationByte => "invalid continuation byte"
  | .endOfData => "unexpected end of data"

def hexDigit (n : Nat) : Char := if n < 10 then Char.ofNat (48 + n) else Char.ofNat (87 + n)

/-- The last `width` hexadecimal digits of a number, in lower case. -/
def hexText : Nat → Nat → List Char
  | 0, _ => []
  | width + 1, n => hexText width (n / 16) ++ [hexDigit (n % 16)]

def Utf8Error.message (e : Utf8Error) : String :=
  if e.count = 1 then
    s!"'utf-8' codec can't decode byte 0x{String.ofList (hexText 2 e.first.toNat)} in position {e.position}: "
      ++ e.fault.text
  else
    s!"'utf-8' codec can't decode bytes in position {e.position}-{e.position + e.count - 1}: "
      ++ e.fault.text

/-- How many bytes a lead byte announces after itself, the bits it contributes, and the range
that its first follower must lie in. -/
def leadByte? (b : Nat) : Option (Nat × Nat × Nat × Nat) :=
  if 0xC2 ≤ b ∧ b ≤ 0xDF then some (1, b - 0xC0, 0x80, 0xBF)
  else if b = 0xE0 then some (2, 0, 0xA0, 0xBF)
  else if b = 0xED then some (2, 0xD, 0x80, 0x9F)
  else if 0xE1 ≤ b ∧ b ≤ 0xEF then some (2, b - 0xE0, 0x80, 0xBF)
  else if b = 0xF0 then some (3, 0, 0x90, 0xBF)
  else if 0xF1 ≤ b ∧ b ≤ 0xF3 then some (3, b - 0xF0, 0x80, 0xBF)
  else if b = 0xF4 then some (3, 4, 0x80, 0x8F)
  else none

/-- Reads the followers of a lead byte. On failure it gives the fault and how many bytes,
the lead byte included, were good. -/
def followers : Nat → Nat → Nat → Nat → Nat → List UInt8 → Except (Utf8Fault × Nat) Nat
  | 0, _, bits, _, _, _ => .ok bits
  | _ + 1, good, _, _, _, [] => .error (.endOfData, good)
  | n + 1, good, bits, low, high, b :: bs =>
    if low ≤ b.toNat ∧ b.toNat ≤ high then
      followers n (good + 1) (bits * 64 + (b.toNat - 0x80)) 0x80 0xBF bs
    else .error (.continuationByte, good)

/-- Decodes bytes from the given position on. -/
def decodeFrom (position : Nat) : List UInt8 → Except Utf8Error (List Char)
  | [] => .ok []
  | b :: bs =>
    if b < 0x80 then return Char.ofNat b.toNat :: (← decodeFrom (position + 1) bs)
    else match leadByte? b.toNat with
      | none => .error ⟨.startByte, b, position, 1⟩
      | some (n, bits, low, high) =>
        match followers n 1 bits low high bs with
        | .error (fault, good) => .error ⟨fault, b, position, good⟩
        | .ok code => return Char.ofNat code :: (← decodeFrom (position + n + 1) (bs.drop n))
termination_by bs => bs.length
decreasing_by all_goals simp; try omega

/-- The characters of the bytes, or the first place at which they offend. -/
def decodeUtf8 (bytes : List UInt8) : Except Utf8Error String :=
  (decodeFrom 0 bytes).map String.ofList

end Stepwise.Text
