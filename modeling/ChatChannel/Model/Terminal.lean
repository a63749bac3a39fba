import ChatChannel.Model.Channel
import ChatChannel.Model.Display
import ChatChannel.Model.FlatJson

/-!
# The clients' terminals

The main loops of `client/client.cpp` and `client/client_win.cpp` behind the handshake: keys go into
`g_input_buffer`, a line becomes a request, and what comes from the server is printed above the prompt. The clients
share the output of `print_line` and what is done with a line; they differ in the keyboard and in how they read and
write JSON.
-/

set_option autoImplicit false

namespace ChatChannel.Client

open Incremental

/-! ## Output -/

def ec : Bytes := ascii "\x1b[0m"
def cr : Bytes := ascii "\x1b[0;31m"
def cb : Bytes := ascii "\x1b[0;34m"
def cy : Bytes := ascii "\x1b[0;33m"

/-- `"\r\033[K"`: the line is cleared. -/
def clearLine : Bytes := ascii "\r\x1b[K"

/-- A number on `std::cout`, or in `std::to_string`. -/
def decimalText (i : Int) : Bytes := (if i < 0 then [45] else []) ++ FlatJson.digits i.natAbs

/-- `refresh_line`. -/
def refreshLine (channelId : Int) (input : Bytes) : Bytes :=
  clearLine ++ ec ++ ascii "[Ch " ++ decimalText channelId ++ ascii "] > " ++ input

/-- `(int)msg.length()`. -/
def lengthInt (msg : Bytes) : Int := (msg.length : Int).bmod (2 ^ 32)

/-- A line in colour, behind `pad` blanks. -/
def padded (pad : Int) (colour msg : Bytes) : Bytes :=
  List.replicate pad.toNat 32 ++ colour ++ msg ++ ec ++ ascii "\r\n"

/-- A line in the middle of the terminal. -/
def centred (width : Int) (colour msg : Bytes) : Bytes := padded ((width - lengthInt msg).tdiv 2) colour msg

/-- What `print_line` writes for `me`, when `none` stands for what is missing. -/
def lineText (width : Int) (me type : Bytes) (user event message : Option Bytes) : Bytes :=
  if type = ascii "system" then
    match event, user with
    | some event, some user => centred width cy (ascii "[System] " ++ user ++ ascii " " ++ event)
    | _, _ => []
  else if type = ascii "user" then
    match user, event with
    | some user, some text =>
      if me = user then
        let msg := text ++ ascii " (Me)"
        padded (width - lengthInt msg) cb msg
      else user ++ ascii ": " ++ text ++ ascii "\r\n"
    | _, _ => []
  else if type = ascii "error" then
    match message with
    | some message => centred width cr (ascii "[Error] " ++ message)
    | none => []
  else []

/-- The event tells `me` that it has come into a channel. -/
def arrives (me : Bytes) (user event : Option Bytes) : Bool :=
  user == some me && (event == some (ascii "join") || event == some (ascii "rejoin"))

/-! ## The keyboard -/

/-- `std::stoi`: white space, a sign, digits, and anything behind them. -/
def stoiText (s : Bytes) : Option Int :=
  match s.dropWhile isSpace with
  | 43 :: ds => if ds.head? = some 45 then none else stoi ds
  | s => stoi s

/-- What happens to a line: it makes a request, it is ignored, or an exception leaves `main`. -/
inductive Submission
  | sent (payload : Bytes)
  | ignored
  | raised
  deriving DecidableEq

/-- A key of the Linux client: the buffer after it, and a line that was finished. -/
def edit (input : Bytes) (c : UInt8) : Bytes × Option Bytes :=
  if c = 10 ∨ c = 13 then ([], if input = [] then none else some input)
  else if c = 127 ∨ c = 8 then (input.dropLast, none)
  else if 32 ≤ c ∧ c ≤ 126 then (input ++ [c], none)
  else (input, none)

/-- What is done with a line. A number that `stoi` does not take is ignored; so is an exception of
`std::string(nullptr)` while the request to join is made. -/
def submit (join : Int → Option Bytes) (message : Option Bytes) (line : Bytes) : Submission :=
  if ascii "/join " <+: line then
    match stoiText (line.drop 6) with
    | none => .ignored
    | some channelId =>
      match join channelId with
      | some payload => .sent payload
      | none => .ignored
  else
    match message with
    | some payload => .sent payload
    | none => .raised

/-! ## The Linux client -/

/-- The JSON library as the Linux client uses it. -/
structure Library extends Reader where
  isObject : Json → Bool
  pack : List (Bytes × PackVal) → Option Json
  dumps : Json → Option Bytes

namespace Linux

variable (lib : Library)

/-- `print_line`: what is written, and `g_channel_id`. -/
def printLine (width : Int) (me : Bytes) (channelId : Int) (obj : lib.Json) : Bytes × Int :=
  match lib.str obj (ascii "type") with
  | none => ([], channelId)
  | some type =>
    let user := lib.str obj (ascii "user_name")
    let event := lib.str obj (ascii "event")
    let moved := if type = ascii "system" ∧ arrives me user event then lib.int obj (ascii "channel_id") else none
    (lineText width me type user event (lib.str obj (ascii "message")),
      match moved with
      | some i => i.bmod (2 ^ 32)
      | none => channelId)

/-- The objects of an array, one after the other. `widths k` is what the terminal says for the one in place `k`. -/
def printAll (widths : Nat → Int) (me : Bytes) (channelId : Int) : List lib.Json → Bytes × Int
  | [] => ([], channelId)
  | value :: values =>
    let p := if lib.isObject value then printLine lib (widths 0) me channelId value else ([], channelId)
    let q := printAll (fun k => widths (k + 1)) me p.2 values
    (p.1 ++ q.1, q.2)

/-- `display_message`. -/
def displayMessage (widths : Nat → Int) (me input : Bytes) (channelId : Int) (payload : Bytes) : Bytes × Int :=
  match lib.loadb payload with
  | none => ([], channelId)
  | some obj =>
    let p := match lib.elements obj with
      | some values => printAll lib widths me channelId values
      | none => if lib.isObject obj then printLine lib (widths 0) me channelId obj else ([], channelId)
    (clearLine ++ p.1 ++ refreshLine p.2 input, p.2)

/-- The members of the requests. -/
def joinRequest (channelId : Int) (now : Msec64) : List (Bytes × PackVal) :=
  [(ascii "type", .str (ascii "join")), (ascii "channel_id", .int channelId), (ascii "timestamp", .int (asJsonInt now))]

def messageRequest (text : Bytes) (now : Msec64) : List (Bytes × PackVal) :=
  [(ascii "type", .str (ascii "message")), (ascii "text", .str text), (ascii "timestamp", .int (asJsonInt now))]

/-- The first request, made before the handshake. -/
def helloRequest (me : Bytes) (now : Msec64) : List (Bytes × PackVal) :=
  [(ascii "type", .str (ascii "join")), (ascii "channel_id", .int 1), (ascii "user_name", .str me),
    (ascii "timestamp", .int (asJsonInt now))]

/-- `json_pack` and `json_dumps`. -/
def render (members : List (Bytes × PackVal)) : Option Bytes := (lib.pack members).bind lib.dumps

/-- What the Linux client does with a line. -/
def submitLine (now : Msec64) (line : Bytes) : Submission :=
  submit (fun channelId => render lib (joinRequest channelId now)) (render lib (messageRequest line now)) line

/-! ### The main loop -/

/-- `acc`, `g_input_buffer`, `g_channel_id` and `running`. -/
structure Session where
  acc : Bytes
  input : Bytes
  channelId : Int
  running : Bool

/-- What a round gets: the answer of `recv` if the socket is readable, a byte from the standard input if there is
one, the time, and what the terminal says about its width for each object of each payload. -/
structure Poll where
  recv : Option RecvRes
  key : Option UInt8
  now : Msec64
  widths : Nat → Nat → Int

/-- The payloads of one `recv_frames`, displayed one after the other. -/
def displayAll (widths : Nat → Nat → Int) (me input : Bytes) (channelId : Int) : List Bytes → Bytes × Int
  | [] => ([], channelId)
  | payload :: payloads =>
    let p := displayMessage lib (widths 0) me input channelId payload
    let q := displayAll (fun k => widths (k + 1)) me input p.2 payloads
    (p.1 ++ q.1, q.2)

/-- What a round did: the state after it, what it wrote to the terminal, the payloads it displayed and those it gave
to `send_frame`. -/
structure Deed where
  session : Session
  out : Bytes
  shown : List Bytes
  sent : List Bytes

/-- The socket's part of a round. -/
inductive Receives (me : Bytes) (s : Session) (i : Poll) : Deed → Prop
  | quiet : i.recv = none → Receives me s i ⟨s, [], [], []⟩
  | frames {r : RecvRes} {shown : List Bytes} {acc : Bytes} {ok : Bool} : i.recv = some r →
      RecvFrames s.acc r shown acc ok →
      Receives me s i
        ⟨{ s with acc := acc, channelId := (displayAll lib i.widths me s.input s.channelId shown).2, running := ok },
          (displayAll lib i.widths me s.input s.channelId shown).1, shown, []⟩

/-- The keyboard's part of a round; `none` if an exception leaves `main`. -/
def press (s : Session) (i : Poll) : Option Deed :=
  match i.key with
  | none => some ⟨s, [], [], []⟩
  | some c =>
    let p := edit s.input c
    let done (sent : List Bytes) : Option Deed :=
      some ⟨{ s with input := p.1 }, refreshLine s.channelId p.1, [], sent⟩
    match p.2.map (submitLine lib i.now) with
    | some .raised => none
    | some (.sent payload) => done [payload]
    | _ => done []

/-- One round of the loop. -/
inductive Round (me : Bytes) (s : Session) (i : Poll) : Deed → Prop
  | mk {d e : Deed} : s.running = true → Receives lib me s i d → press lib d.session i = some e →
      Round me s i ⟨e.session, d.out ++ e.out, d.shown, e.sent⟩

/-- Rounds, one after the other. -/
inductive Rounds (me : Bytes) : Session → List Poll → Deed → Prop
  | nil (s : Session) : Rounds me s [] ⟨s, [], [], []⟩
  | snoc {s : Session} {is : List Poll} {i : Poll} {d e : Deed} : Rounds me s is d → Round lib me d.session i e →
      Rounds me s (is ++ [i]) ⟨e.session, d.out ++ e.out, d.shown ++ e.shown, d.sent ++ e.sent⟩

end Linux

/-! ## The Windows client -/

namespace Windows

/-- A code of `_getch` that announces no other: the buffer after it, and a line that was finished. -/
def edit (input : Bytes) (c : Int) : Bytes × Option Bytes :=
  let c := if c = 13 then 10 else c
  if c = 10 then ([], if input = [] then none else some input)
  else if c = 8 ∨ c = 127 then (input.dropLast, none)
  else if 32 ≤ c ∧ c ≤ 126 then (input ++ [c.toNat.toUInt8], none)
  else (input, none)

/-- The codes of `_getch` with the times at which they are read: the buffer after them, and the lines they finish. -/
def typed (input : Bytes) : List (Msec64 × Int) → Bytes × List (Msec64 × Bytes)
  | [] => (input, [])
  | (now, c) :: codes =>
    -- a special key has a second code, which is read and dropped
    if c = 0 ∨ c = 224 then
      match codes with
      | [] => (input, [])
      | _ :: codes => typed input codes
    else
      let p := edit input c
      let q := typed p.1 codes
      (q.1, (p.2.map fun line => (now, line)).toList ++ q.2)

/-- A character in `json_escape`. -/
def escaped (c : UInt8) : Bytes :=
  if c = 34 then [92, 34]
  else if c = 92 then [92, 92]
  else if c = 8 then [92, 98]
  else if c = 12 then [92, 102]
  else if c = 10 then [92, 110]
  else if c = 13 then [92, 114]
  else if c = 9 then [92, 116]
  else [c]

/-- `json_escape`. -/
def jsonEscape (s : Bytes) : Bytes := s.flatMap escaped

/-- The requests, put together from pieces. -/
def helloRequest (me : Bytes) (now : Msec64) : Bytes :=
  ascii "\x7b\"type\":\"join\", \"channel_id\":1, \"user_name\":\"" ++ jsonEscape me ++ ascii "\", \"timestamp\":" ++
    decimalText now.toNat ++ ascii "\x7d"

def joinRequest (channelId : Int) (now : Msec64) : Bytes :=
  ascii "\x7b\"type\":\"join\", \"channel_id\":" ++ decimalText channelId ++ ascii ", \"timestamp\":" ++
    decimalText now.toNat ++ ascii "\x7d"

def messageRequest (text : Bytes) (now : Msec64) : Bytes :=
  ascii "\x7b\"type\":\"message\", \"text\":\"" ++ jsonEscape text ++ ascii "\", \"timestamp\":" ++
    decimalText now.toNat ++ ascii "\x7d"

def submitLine (now : Msec64) (line : Bytes) : Submission :=
  submit (fun channelId => some (joinRequest channelId now)) (some (messageRequest line now)) line

end Windows

end ChatChannel.Client
