/-!
# UTF-8

Decoding of file contents. A fault names the bytes that are in the way: a byte that cannot start a
character, the bytes of a character that goes on with a wrong byte, or those of one that is cut off
by the end of the file.
-/

set_option autoImplicit false

namespace Tama.Utf8

/-- What is wrong with some bytes. -/
inductive Reason where
  | start
  | continuation
  | ending
  deriving DecidableEq, Repr

/-- Bytes that are in the way, by position: the first and the last of them. -/
structure Fault where
  first : Nat
  last : Nat
  /-- The byte at the first position. -/
  byte : UInt8
  reason : Reason
  deriving DecidableEq, Repr

/-- A character that has begun: where, with which byte, what its bytes add up to so far, how many
are still owed, and the least and the greatest byte that may come next. -/
structure Pending where
  first : Nat
  byte : UInt8
  value : Nat
  owed : Nat
  low : Nat
  high : Nat

/-- The state after the first byte of a character of several bytes. -/
def begin? (position : Nat) (byte : UInt8) : Option Pending :=
  let b := byte.toNat
  let pending (value owed : Nat) (low : Nat) (high : Nat) : Pending :=
    ⟨position, byte, value, owed, low, high⟩
  if 0xC2 ≤ b ∧ b ≤ 0xDF then some (pending (b - 0xC0) 1 0x80 0xBF)
  else if 0xE0 ≤ b ∧ b ≤ 0xEF then
    some (pending (b - 0xE0) 2 (if b = 0xE0 then 0xA0 else 0x80) (if b = 0xED then 0x9F else 0xBF))
  else if 0xF0 ≤ b ∧ b ≤ 0xF4 then
    some (pending (b - 0xF0) 3 (if b = 0xF0 then 0x90 else 0x80) (if b = 0xF4 then 0x8F else 0xBF))
  else none

/-- Decodes the bytes from a position on, inside a character or between two. -/
def decodeFrom (position : Nat) : Option Pending → List UInt8 → Except Fault (List Char)
  | none, [] => .ok []
  | some p, [] => .error ⟨p.first, position - 1, p.byte, .ending⟩
  | none, byte :: rest =>
    if byte.toNat < 0x80 then do
      return Char.ofNat byte.toNat :: (← decodeFrom (position + 1) none rest)
    else
      match begin? position byte with
      | some p => decodeFrom (position + 1) (some p) rest
      | none => .error ⟨position, position, byte, .start⟩
  | some p, byte :: rest =>
    let b := byte.toNat
    if p.low ≤ b ∧ b ≤ p.high then
      let value := 64 * p.value + (b - 0x80)
      if p.owed ≤ 1 then do
        return Char.ofNat value :: (← decodeFrom (position + 1) none rest)
      else
        decodeFrom (position + 1)
          (some { p with value := value, owed := p.owed - 1, low := 0x80, high := 0xBF }) rest
    else .error ⟨p.first, position - 1, p.byte, .continuation⟩

/-- Decodes a whole file. -/
def decode (bytes : List UInt8) : Except Fault (List Char) :=
  decodeFrom 0 none bytes

/-- The wording of a reason. -/
def Reason.message : Reason → String
  | start => "invalid start byte"
  | continuation => "invalid continuation byte"
  | ending => "unexpected end of data"

/-- The wording of a fault. -/
def Fault.message (f : Fault) : String :=
  let hex := Nat.toDigits 16 f.byte.toNat
  let place :=
    if f.first = f.last then
      "byte 0x" ++ String.ofList (List.replicate (2 - hex.length) '0' ++ hex) ++
        " in position " ++ toString f.first
    else "bytes in position " ++ toString f.first ++ "-" ++ toString f.last
  "'utf-8' codec can't decode " ++ place ++ ": " ++ f.reason.message

end Tama.Utf8
