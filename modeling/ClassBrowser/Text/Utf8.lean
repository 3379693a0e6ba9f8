/-!
# Reading bytes as UTF-8

Two ways to read bytes as text.  `decode` refuses ill-formed input and says where and why the first
fault lies; `decodeLossy` puts the replacement character in the place of every fault and goes on
behind it.  Both see the same faults: a fault is a byte that cannot start a character, or the
longest start of a well-formed sequence that is not continued.  On well-formed input both give the
text whose encoding the bytes are (`decode_toUTF8`, `decodeLossy_toUTF8`).
-/

namespace ClassBrowser.Text.Utf8

inductive Reason
  | invalidStart
  | invalidContinuation
  | unexpectedEnd
deriving DecidableEq, Repr, Inhabited

def Reason.message : Reason → String
  | .invalidStart => "invalid start byte"
  | .invalidContinuation => "invalid continuation byte"
  | .unexpectedEnd => "unexpected end of data"

/-- The first fault of a byte string: the byte it starts with, its position, its length in bytes and
its reason. -/
structure Fault where
  byte : UInt8
  position : Nat
  length : Nat
  reason : Reason
deriving DecidableEq, Repr, Inhabited

def hexByte (b : UInt8) : String :=
  let digits := Nat.toDigits 16 b.toNat
  String.ofList (if digits.length < 2 then '0' :: digits else digits)

/-- The wording of a fault: a single byte is shown, several are named by their positions. -/
def Fault.message (f : Fault) : String :=
  if f.length = 1 then
    s!"'utf-8' codec can't decode byte 0x{hexByte f.byte} in position {f.position}: " ++
      f.reason.message
  else
    s!"'utf-8' codec can't decode bytes in position {f.position}-{f.position + f.length - 1}: " ++
      f.reason.message

/-- How many bytes follow a leading byte, and which values the first of them may take; `none` for a
byte that leads no character. -/
def follow? (lead : UInt8) : Option (Nat × UInt8 × UInt8) :=
  if lead < 0x80 then some (0, 0x80, 0xbf)
  else if lead < 0xc2 then none
  else if lead < 0xe0 then some (1, 0x80, 0xbf)
  else if lead == 0xe0 then some (2, 0xa0, 0xbf)
  else if lead == 0xed then some (2, 0x80, 0x9f)
  else if lead < 0xf0 then some (2, 0x80, 0xbf)
  else if lead == 0xf0 then some (3, 0x90, 0xbf)
  else if lead < 0xf4 then some (3, 0x80, 0xbf)
  else if lead == 0xf4 then some (3, 0x80, 0x8f)
  else none

/-- What stands at the start of a byte string: a character of so many bytes, or a fault of so many
bytes and its reason. -/
inductive Head
  | char (value length : Nat)
  | fault (length : Nat) (reason : Reason)
deriving DecidableEq, Repr, Inhabited

/-- Reads `missing` more bytes of a character, the first of which lies between `lo` and `hi`; `read`
bytes of it are read already and `value` holds their bits. -/
def continueChar (missing : Nat) (lo hi : UInt8) (read value : Nat) (bytes : List UInt8) : Head :=
  match missing, bytes with
  | 0, _ => .char value read
  | _ + 1, [] => .fault read .unexpectedEnd
  | missing + 1, b :: rest =>
    if lo ≤ b && b ≤ hi then
      continueChar missing 0x80 0xbf (read + 1) (value * 64 + b.toNat % 64) rest
    else .fault read .invalidContinuation

def head (lead : UInt8) (rest : List UInt8) : Head :=
  match follow? lead with
  | none => .fault 1 .invalidStart
  | some (0, _, _) => .char lead.toNat 1
  | some (1, lo, hi) => continueChar 1 lo hi 1 (lead.toNat % 32) rest
  | some (2, lo, hi) => continueChar 2 lo hi 1 (lead.toNat % 16) rest
  | some (_, lo, hi) => continueChar 3 lo hi 1 (lead.toNat % 8) rest

/-- The first fault, from a given position on; the first `skip` bytes belong to what was read
before. -/
def faultFrom (position skip : Nat) : List UInt8 → Option Fault
  | [] => none
  | b :: rest =>
    match skip with
    | skip + 1 => faultFrom (position + 1) skip rest
    | 0 => match head b rest with
      | .char _ length => faultFrom (position + 1) (length - 1) rest
      | .fault length reason => some ⟨b, position, length, reason⟩

def replacement : Char := '\uFFFD'

/-- Reads bytes with a replacement character for every fault; the first `skip` bytes belong to what
was read before. -/
def replaceFrom (skip : Nat) : List UInt8 → List Char
  | [] => []
  | b :: rest =>
    match skip with
    | skip + 1 => replaceFrom skip rest
    | 0 => match head b rest with
      | .char value length => Char.ofNat value :: replaceFrom (length - 1) rest
      | .fault length _ => replacement :: replaceFrom (length - 1) rest

def decode (bytes : ByteArray) : Except Fault String :=
  match String.fromUTF8? bytes with
  | some s => .ok s
  | none => .error ((faultFrom 0 0 bytes.toList).getD default)

/-- The text that the bytes encode, with a replacement character for every fault. -/
def decodeLossy (bytes : ByteArray) : String :=
  match String.fromUTF8? bytes with
  | some s => s
  | none => String.ofList (replaceFrom 0 bytes.toList)

theorem fromUTF8?_toUTF8 (s : String) : String.fromUTF8? s.toUTF8 = some s :=
  dif_pos s.isValidUTF8

theorem decode_toUTF8 (s : String) : decode s.toUTF8 = .ok s := by
  rw [decode, fromUTF8?_toUTF8]

theorem decodeLossy_toUTF8 (s : String) : decodeLossy s.toUTF8 = s := by
  rw [decodeLossy, fromUTF8?_toUTF8]

end ClassBrowser.Text.Utf8
