import Mathlib.Algebra.Group.Int.Defs
import Mathlib.Algebra.Group.Nat.Defs
import Mathlib.Data.List.Basic

/-!
# The wire format

A frame is four header characters with the payload's length in hexadecimal, then the payload
(`libs/communication.cpp`). The encoder is the `%04x` of `send_frame`; the decoder is the second
loop of `recv_frame`, which reads the header with `std::stoul(…, nullptr, 16)` and so accepts
whatever that accepts: white space, a sign and a `0x` in front of the digits, anything behind
them.

Bytes are `List UInt8`.
-/

set_option autoImplicit false

namespace ChatChannel

abbrev Bytes := List UInt8

/-- The bytes of an ASCII literal. -/
def ascii (s : String) : Bytes := s.toList.map fun c => c.toNat.toUInt8

/-- `MAX_FRAME_SIZE`. -/
def maxFrameSize : Nat := 16 * 1024

/-! ## `std::stoul` with base 16 -/

/-- `isspace` of the C locale. -/
def isSpace (c : UInt8) : Bool := c == 32 || (9 ≤ c && c ≤ 13)

/-- The value of a hexadecimal digit. -/
def hexVal? (c : UInt8) : Option Nat :=
  if 48 ≤ c ∧ c ≤ 57 then some (c.toNat - 48)
  else if 97 ≤ c ∧ c ≤ 102 then some (c.toNat - 87)
  else if 65 ≤ c ∧ c ≤ 70 then some (c.toNat - 55)
  else none

/-- The longest run of digits in front, read onto `acc`. -/
def hexRun (acc : Nat) : Bytes → Nat
  | [] => acc
  | c :: cs =>
    match hexVal? c with
    | some d => hexRun (16 * acc + d) cs
    | none => acc

/-- The digits, at least one; a `0x` in front of a digit is skipped. -/
def hexDigits (s : Bytes) : Option Nat :=
  match s with
  | 48 :: x :: d :: cs =>
    if (x == 120 || x == 88) && (hexVal? d).isSome then some (hexRun 0 (d :: cs))
    else some (hexRun 0 s)
  | c :: _ => (hexVal? c).map fun _ => hexRun 0 s
  | [] => none

/-- `std::stoul(s, nullptr, 16)` on a string too short to overflow; `none` is
`std::invalid_argument`. A minus sign negates in 64-bit arithmetic. -/
def stoul16 (s : Bytes) : Option Nat :=
  match s.dropWhile isSpace with
  | 43 :: cs => hexDigits cs
  | 45 :: cs => (hexDigits cs).map fun v => (2 ^ 64 - v) % 2 ^ 64
  | cs => hexDigits cs

/-! ## Decoding -/

inductive FrameErr
  | invalidHeader
  | tooLarge
  deriving DecidableEq

/-- What one round of the parsing loop does with the accumulated bytes. -/
inductive Head
  /-- Fewer than four bytes, or a header whose payload is not complete: leave the loop. -/
  | wait
  /-- A header of length zero: drop it. -/
  | skip (rest : Bytes)
  | frame (payload rest : Bytes)
  | bad (e : FrameErr)
  deriving DecidableEq

/-- One round of `while (acc.size() >= 4)`. The parsed length is narrowed to `uint32_t`. -/
def decodeHead (acc : Bytes) : Head :=
  if acc.length < 4 then .wait
  else
    match stoul16 (acc.take 4) with
    | none => .bad .invalidHeader
    | some v =>
      let len := v % 2 ^ 32
      if maxFrameSize < len then .bad .tooLarge
      else if len = 0 then .skip (acc.drop 4)
      else if acc.length < 4 + len then .wait
      else .frame ((acc.drop 4).take len) (acc.drop (4 + len))

/-- The loop, with fuel for as many rounds as there are bytes. The accumulator is returned also
when the loop throws: the frames before the bad header have been erased from it. -/
def decodeLoop : Nat → Bytes → List Bytes → Except FrameErr (List Bytes) × Bytes
  | 0, acc, frames => (.ok frames, acc)
  | fuel + 1, acc, frames =>
    match decodeHead acc with
    | .wait => (.ok frames, acc)
    | .skip rest => decodeLoop fuel rest frames
    | .frame payload rest => decodeLoop fuel rest (frames ++ [payload])
    | .bad e => (.error e, acc)

/-- The parsing half of `Communication::recv_frame`. -/
def decodeFrames (acc : Bytes) : Except FrameErr (List Bytes) × Bytes :=
  decodeLoop acc.length acc []

/-! ## Encoding -/

/-- `%x`: lower-case digits, most significant first. -/
def hexChar (d : Nat) : UInt8 := if d < 10 then (48 + d).toUInt8 else (87 + d).toUInt8

/-- `%04x` of a value below `16 ^ 4`. -/
def hexHeader (len : Nat) : Bytes :=
  [hexChar (len / 4096 % 16), hexChar (len / 256 % 16), hexChar (len / 16 % 16), hexChar (len % 16)]

/-- What `send_frame` writes for a payload of legal length. -/
def encodeFrame (payload : Bytes) : Bytes := hexHeader payload.length ++ payload

example : decodeFrames (encodeFrame (ascii "hi") ++ ascii "000") =
    (.ok [ascii "hi"], ascii "000") := by decide

end ChatChannel
