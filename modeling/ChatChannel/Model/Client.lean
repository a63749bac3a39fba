import ChatChannel.Model.Communication
import ChatChannel.Wire.Incremental

/-!
# The clients' ends of the wire

`send_frame` and `recv_frames` of `client/client.cpp`. `client/client_win.cpp` has the same two
functions over Winsock; where they differ is how a failed `recv` is told from an interrupted one.
-/

set_option autoImplicit false

namespace ChatChannel.Client

open Conc Incremental

/-! ## Sending -/

/-- `%x` of a 32-bit value, with fuel for its digits. -/
def hexText : Nat → Nat → Bytes
  | 0, _ => []
  | fuel + 1, len => (if len < 16 then [] else hexText fuel (len / 16)) ++ [hexChar (len % 16)]

/-- `snprintf(header, 5, "%04x", len)`: padded to four digits, cut after four. -/
def header (len : Nat) : Bytes :=
  let digits := hexText 8 len
  (List.replicate (4 - digits.length) (hexChar 0) ++ digits).take 4

/-- The payload loop. Every round sends at least one byte. -/
def sendRest (n : Fd) : Nat → Bytes → Code Bool
  | 0, _ => pure true
  | fuel + 1, rest =>
    if rest = [] then pure true
    else do
      match ← call (.send n rest) with
      | some (k + 1) => sendRest n fuel (rest.drop (k + 1))
      | _ => pure false

/-- `send_frame`. -/
def sendFrame (n : Fd) (payload : Bytes) : Code Bool := do
  match ← call (.send n (header (payload.length % 2 ^ 32))) with
  | some 4 => sendRest n payload.length payload
  | _ => pure false

/-! ## Receiving -/

/-- One round of the loop of `recv_frames`. `4 + len` is computed in 32 bits; `substr` takes what is
there. -/
def look (acc : Bytes) : Look UInt8 Bytes Unit :=
  if acc.length < 4 then .wait
  else
    match stoul16 (acc.take 4) with
    | none => .fail ()
    | some v =>
      let len := v % 2 ^ 32
      let total := (4 + len) % 2 ^ 32
      if acc.length < total then .wait
      else .item ((acc.drop 4).take len) (acc.drop total)

/-- `recv_frames(fd, acc)`, with the answer of `recv` in it, the payloads handed to `display_message`,
the new `acc` and the value returned. The loop is a relation: with a length of `-4` it does not
end. -/
inductive RecvFrames (acc : Bytes) : RecvRes → List Bytes → Bytes → Bool → Prop
  | interrupted : RecvFrames acc .again [] acc true
  | failed : RecvFrames acc .error [] acc false
  | closed : RecvFrames acc .fin [] acc false
  | read {b rest : Bytes} {shown : List Bytes} {o : Option Unit} :
      Drains look (acc ++ b) shown o rest → RecvFrames acc (.chunk b) shown rest o.isNone

end ChatChannel.Client
