import ChatChannel.Model.Action

/-!
# `Communication` and the dispatch of frames

`send_frame`, `broadcast` and `recv_frame` of `libs/communication.cpp` as programs over the calls,
and the tracker's two members as the throwing functions they are in the source.

The read loop of `recv_frame` has no bound in the source: it goes on as long as every `recv`
fills its buffer. `Params.maxReads` bounds it; a loop that would go on longer stalls, so that every
finite part of an unbounded loop is a part of a run for some bound.
-/

set_option autoImplicit false

namespace ChatChannel

open Conc

/-- What the programs are parametric in: the JSON library, the limits given on the command line,
and the bound of the read loop. -/
structure Params where
  js : Jansson
  lobbyMaxFd : Int32
  chMaxFd : Int32
  maxReads : Nat

abbrev Code (α : Type) := Prog sig α

/-- One call. -/
abbrev call (a : Act) : Code (Res a) := Prog.perform (S := sig) a

/-! ## `ConnectionTracker` -/

/-- `ConnectionTracker::add_client`. -/
def trackerAdd (n : Fd) : Code Unit := do
  match ← call (.addClient n) with
  | .ok => pure ()
  | .full => throw .poolFull
  | .failed => throw .addFailed

/-- `ConnectionTracker::delete_client`. -/
def trackerDelete (n : Fd) : Code Unit := do
  if ← call (.deleteClient n) then pure () else throw Err.deleteFailed

/-! ## `Communication` -/

/-- The payload loop of `send_frame`. Every round sends at least one byte, so the payload's length
is fuel enough. -/
def sendRest (n : Fd) : Nat → Bytes → Code Unit
  | 0, _ => pure ()
  | fuel + 1, rest =>
    if rest = [] then pure ()
    else do
      match ← call (.send n rest) with
      | some (k + 1) => sendRest n fuel (rest.drop (k + 1))
      | _ => throw Err.sendFailed

/-- `Communication::send_frame`. -/
def sendFrame (n : Fd) (payload : Bytes) : Code Unit :=
  let len := payload.length % 2 ^ 32
  if len = 0 then pure ()
  else if maxFrameSize < len then throw Err.sendTooLarge
  else do
    match ← call (.send n (hexHeader len)) with
    | some 4 => sendRest n payload.length payload
    | _ => throw Err.sendFailed

/-- `Communication::broadcast`: the descriptors whose frame could not be sent. -/
def broadcast (payload : Bytes) : List Fd → Code (List Fd)
  | [] => pure []
  | n :: ns => do
    let failed ← tryCatch (do sendFrame n payload; pure []) fun _ => pure [n]
    let rest ← broadcast payload ns
    pure (failed ++ rest)

/-- The read loop of `recv_frame`. -/
def recvLoop (n : Fd) : Nat → Code Unit
  | 0 => call .stall
  | fuel + 1 => do
    match ← call (.recv n) with
    | .again => pure ()
    | .error => throw Err.recvFailed
    | .fin => throw Err.disconnectedByFin
    | .chunk b => if b.length < 4096 then pure () else recvLoop n fuel

/-- `Communication::recv_frame`. -/
def recvFrame (P : Params) (n : Fd) : Code (List Bytes) := do
  recvLoop n P.maxReads
  match ← call (.decode n) with
  | .ok frames => pure frames
  | .error e => throw (Err.frame e)

/-! ## Requests

`switch (hash(target))` compares hash values, not strings. -/

/-- `static_cast<unsigned int>(char)`: `char` is signed. -/
def signExtend (c : UInt8) : UInt32 :=
  if c < 128 then c.toUInt32 else c.toUInt32 + 0xFFFFFF00

/-- `hash`: a 64-bit product and sum, truncated to 32 bits. -/
def hash : Bytes → UInt32
  | [] => 8603
  | c :: cs => ((signExtend c).toUInt64 + 0xEDB8832F * (hash cs).toUInt64).toUInt32

/-- `case hash("join"): case hash("Join"): case hash("JOIN"):` -/
def isJoin (target : Bytes) : Bool :=
  hash target == hash (ascii "join") || hash target == hash (ascii "Join") ||
    hash target == hash (ascii "JOIN")

/-- `case hash("message"): case hash("Message"): case hash("MESSAGE"):` -/
def isMessage (target : Bytes) : Bool :=
  hash target == hash (ascii "message") || hash target == hash (ascii "Message") ||
    hash target == hash (ascii "MESSAGE")

/-- A JSON integer read into a `ch_id_t`. -/
def toChId (i : Int) : ChId := .ofNat (i % 2 ^ 32).toNat

/-- A JSON integer read into a `msec64`. -/
def toMsec64 (i : Int) : Msec64 := .ofNat (i % 2 ^ 64).toNat

variable (js : Jansson)

/-- `json_unpack(root, "{s:I,s:I,s:s}", "channel_id", …, "timestamp", …, "user_name", …)`. -/
def unpackLobbyJoin (root : js.Json) : Option (ChId × Msec64 × Bytes) := do
  let ch ← js.int root (ascii "channel_id")
  let ts ← js.int root (ascii "timestamp")
  let u ← js.str root (ascii "user_name")
  pure (toChId ch, toMsec64 ts, u)

/-- `json_unpack(root, "{s:I,s:I}", "channel_id", …, "timestamp", …)`. -/
def unpackChannelJoin (root : js.Json) : Option (ChId × Msec64) := do
  let ch ← js.int root (ascii "channel_id")
  let ts ← js.int root (ascii "timestamp")
  pure (toChId ch, toMsec64 ts)

/-- `json_unpack(root, "{s:s,s:I}", "text", …, "timestamp", …)`. -/
def unpackMessage (root : js.Json) : Option (Bytes × Msec64) := do
  let text ← js.str root (ascii "text")
  let ts ← js.int root (ascii "timestamp")
  pure (text, toMsec64 ts)

/-- `json_loads(frame.c_str(), …)` and the unpacking of `type`, as in
`TypedFrameServer::on_frame`: the request a frame holds. -/
def requestOf (f : Bytes) : Option (Bytes × js.Json) := do
  let root ← js.loads (f.takeWhile (· ≠ 0))
  let target ← js.str root (ascii "type")
  pure (target, root)

end ChatChannel
