import ChatChannel.Model.Client
import ChatChannel.Model.Types

/-!
# What the clients do with a payload

`display_message` of `client/client_win.cpp`, which takes a window apart without a JSON parser, and
the join handshake of `client/client.cpp`, which has one. Each of them may end the loop that reads the
frames: the first by an exception, the second with `return 1`.
-/

set_option autoImplicit false

namespace ChatChannel.Client

open Incremental

/-! ## The Windows client -/

/-- `json.find(search)` and what stands behind the match. -/
def behind? (search : Bytes) : Bytes → Option Bytes
  | [] => if search = [] then some [] else none
  | c :: cs =>
    if search <+: c :: cs then some ((c :: cs).drop search.length) else behind? search cs

/-- What stands behind `"key":`, white space skipped. -/
def member? (json key : Bytes) : Option Bytes :=
  (behind? (34 :: key ++ [34, 58]) json).map (·.dropWhile fun c => c == 32 || c == 9)

/-- The loop of `extract_json_string`. -/
def unquote : Bool → Bytes → Bytes
  | _, [] => []
  | true, c :: cs => c :: unquote false cs
  | false, c :: cs => if c = 92 then unquote true cs else if c = 34 then [] else c :: unquote false cs

def extractJsonString (json key : Bytes) : Bytes :=
  match member? json key with
  | some (34 :: cs) => unquote false cs
  | _ => []

def decimal (c : UInt8) : Bool := 48 ≤ c && c ≤ 57

/-- The value of decimal digits. -/
def digitsValue (ds : Bytes) : Nat := ds.foldl (fun v c => 10 * v + (c.toNat - 48)) 0

/-- `std::stoi` of digits and minus signs: a sign, digits, and anything behind them. It raises without
a digit and outside of the 32-bit range. -/
def stoi (s : Bytes) : Option Int :=
  let negative := s.head? = some 45
  let ds := (if negative then s.drop 1 else s).takeWhile decimal
  let v : Int := if negative then -digitsValue ds else digitsValue ds
  if ds = [] ∨ v < -2 ^ 31 ∨ 2 ^ 31 ≤ v then none else some v

def extractJsonInt (json key : Bytes) : Option Int :=
  match member? json key with
  | none => some 0
  | some s =>
    let number := s.takeWhile fun c => decimal c || c == 45
    if number = [] then some 0 else stoi number

/-- The arguments of `print_line`. -/
structure Line where
  type : Bytes
  user : Bytes
  event : Bytes
  message : Bytes
  channelId : Int
  deriving DecidableEq

/-- `parse_and_print`; `none` if `stoi` raises. -/
def parseAndPrint (json : Bytes) : Option Line :=
  (extractJsonInt json (ascii "channel_id")).map fun channelId =>
    { type := extractJsonString json (ascii "type")
      user := extractJsonString json (ascii "user_name")
      event := extractJsonString json (ascii "event")
      message := extractJsonString json (ascii "message")
      channelId := channelId }

/-- From each opening brace to the next closing one, with fuel for as many as there are bytes. -/
def objects : Nat → Bytes → List Bytes
  | 0, _ => []
  | fuel + 1, s =>
    let t := s.dropWhile (· ≠ 123)
    match t.dropWhile (· ≠ 125) with
    | [] => []
    | close :: rest => (t.takeWhile (· ≠ 125) ++ [close]) :: objects fuel rest

/-- `display_message`: the calls of `print_line`, or `none` if an exception leaves it. -/
def displayMessage (payload : Bytes) : Option (List Line) :=
  match payload.dropWhile isSpace with
  | 91 :: s => (objects s.length s).mapM parseAndPrint
  | _ => (parseAndPrint payload).map fun l => [l]

example : displayMessage (ascii
      "[\x7b\"type\": \"user\", \"user_name\": \"a\"\x7d, \x7b\"channel_id\": 7\x7d]") =
    some [⟨ascii "user", ascii "a", [], [], 0⟩, ⟨[], [], [], [], 7⟩] := by decide

/-! ## The Linux client's handshake -/

/-- How the Linux client reads JSON: `json_loadb`, the elements of an array, and the members of an
object that are strings or integers. -/
structure Reader where
  Json : Type
  loadb : Bytes → Option Json
  elements : Json → Option (List Json)
  str : Json → Bytes → Option Bytes
  int : Json → Bytes → Option Int

/-- `g_channel_id` and `joined`. -/
structure Handshake where
  channelId : Int
  joined : Bool

variable (rd : Reader)

/-- One object of the handshake; `none` is `return 1`. -/
def greet (h : Handshake) (value : rd.Json) : Option Handshake :=
  if rd.str value (ascii "type") = some (ascii "system") then
    let event := rd.str value (ascii "event")
    if event = some (ascii "join") ∨ event = some (ascii "rejoin") then
      match rd.int value (ascii "channel_id") with
      | some i => some ⟨i.bmod (2 ^ 32), true⟩
      | none => some { h with joined := true }
    else some h
  else if rd.str value (ascii "type") = some (ascii "error") then none
  else some h

/-- The payload of one frame in the handshake. -/
def handshake (h : Handshake) (payload : Bytes) : Option Handshake :=
  match rd.loadb payload with
  | none => some h
  | some obj =>
    match rd.elements obj with
    | some values => values.foldlM (greet rd) h
    | none => greet rd h obj

/-! ## The three loops -/

/-- The loops that take frames off an accumulator: `recv_frames` of either client, and the one in the
Linux client's `main`. -/
inductive Loop
  | recvFrames
  | recvFramesWin
  | handshake (rd : Reader)

/-- What is done with a payload leaves the loop. Whether the handshake does has nothing to do with what
it has found before. -/
def Loop.leaves : Loop → Bytes → Bool
  | .recvFrames, _ => false
  | .recvFramesWin, payload => (displayMessage payload).isNone
  | .handshake rd, payload => (Client.handshake rd ⟨0, false⟩ payload).isNone

/-- One round. -/
def Loop.round (l : Loop) (acc : Bytes) : Look UInt8 Bytes Unit :=
  match look acc with
  | .item payload rest => if l.leaves payload then .fail () else .item payload rest
  | other => other

end ChatChannel.Client
