import ChatChannel.Model.Communication

/-!
# `ChatServer` and `Channel`

`server/chat_server.cpp` and `server/channel.cpp`. The members `leave`, `join`, `ping_pool` and the
like are called by the lobby thread on any channel and so take the channel; the others run on the
channel's own worker.
-/

set_option autoImplicit false

namespace ChatChannel

open Conc

/-! ## Members the lobby calls -/

/-- `Channel::leave`. -/
def leave (c : ChId) (n : Fd) (m : MessageReqDto) : Code Unit := call (.emplaceLeave c n m)

/-- `Channel::join`. A stopped channel gets a new worker thread before its flag is cleared. -/
def join (c : ChId) (n : Fd) (m : MessageReqDto) : Code Unit := do
  if ← call (.loadStop c) then
    if ← call (.joinable c) then call (.joinWorker c)
    unless ← call (.startWorker c) do throw Err.threadFailed
    call (.storeStop c false)
    call (.storeEmptySince c 0)
  call (.emplaceJoin c n m)

/-- The system message of `Channel`'s events. -/
def sysMsg (c : ChId) (text : Bytes) (timestamp : Msec64) (userName : Bytes) : MessageReqDto :=
  { type := .system, text, timestamp, userName, channelId := c }

/-- `Channel::leave_and_logging`. -/
def leaveAndLogging (c : ChId) (n : Fd) (timestamp : Msec64) : Code Unit :=
  tryCatch (do
    match ← call (.getUserName n) with
    | none => call (.insertDeletionAt c n)
    | some u => leave c n (sysMsg c (ascii "leave") timestamp u))
    fun _ => pure ()

/-- `Channel::join_and_logging`. -/
def joinAndLogging (c : ChId) (n : Fd) (timestamp : Msec64) (re : Bool) : Code Unit :=
  tryCatch (do
    match ← call (.getUserName n) with
    | none => pure ()
    | some u => join c n (sysMsg c (if re then ascii "rejoin" else ascii "join") timestamp u))
    fun _ => pure ()

/-- `Channel::ping_pool`: there is room. Both numbers are read under locks the caller holds or the
tracker takes, so the test is one step. -/
def pingPool (c : ChId) : Code Bool := call (.pingPool c)

/-- `Channel::wait_stop_pooling`. -/
def waitStopPooling (c : ChId) : Code Unit := call (.lockPool c)

/-- `Channel::start_pooling`. -/
def startPooling (c : ChId) : Code Unit := call (.unlockPool c)

/-! ## Tasks of the worker -/

/-- `Channel::resolve_deletion`: a failed `delete_client` is ignored. -/
def channelResolveDeletion (c : ChId) : Code Unit := do
  let doomed ← call .getDeletion
  Prog.forEach (fun n => do
    call (.setCursor (some n))
    let timestamp ← call .systemNow
    let userName ← call (.getUserName n)
    call (.pushMq n (sysMsg c (ascii "leave") timestamp (userName.getD (ascii "unknown"))))
    tryCatch (trackerDelete n) fun _ => pure ()
    call (.removeUserName n)
    call (.close n)
    call (.clearBuffer n)) doomed
  call (.setCursor none)

/-- One entry of `join_pool`: registered and announced, or dropped. -/
def admitOne (p : Fd × MessageReqDto) : Code Unit :=
  tryCatch (do trackerAdd p.1; call (.pushMq p.1 p.2)) fun _ => pure ()

/-- One entry of `leave_pool`. -/
def dismissOne (p : Fd × MessageReqDto) : Code Unit :=
  tryCatch (do trackerDelete p.1; call (.pushMq p.1 p.2)) fun _ => pure ()

/-- The critical section of `Channel::resolve_pool`. -/
def resolvePoolBody (c : ChId) : Code Unit := do
  let joins ← call .takeJoinPool
  Prog.forEach admitOne joins
  let leaves ← call .takeLeavePool
  Prog.forEach dismissOne leaves
  if (← call .getClientCount) = 0 then
    if ← call .joinPoolEmpty then
      call (.storeStop c true)
      let now ← call .systemNow
      call (.storeEmptySince c now)

/-- `Channel::resolve_pool`: the lock guard unlocks on every way out. -/
def resolvePool (c : ChId) : Code Unit := do
  call (.lockPool c)
  tryCatch (resolvePoolBody c) fun e => do
    call (.unlockPool c)
    throw e
  call (.unlockPool c)

/-- `ChatServer::resolve_timestamps`. -/
def resolveTimestamps : Code Unit := do
  let q ← call .popMq
  Prog.forEach (fun p => call (.emplaceCurMsg p.2.timestamp p.1 p.2)) q

/-- `timestamp` as `json_pack` reads it: a signed 64-bit integer. -/
def asJsonInt (t : Msec64) : Int := if t.toNat < 2 ^ 63 then t.toNat else t.toNat - 2 ^ 64

/-- The members `resolve_broadcast` packs for a message. -/
def windowEntry (timestamp : Msec64) (m : MessageReqDto) : List (Bytes × PackVal) :=
  match m.type with
  | .user =>
    [(ascii "type", .str (ascii "user")), (ascii "user_name", .str m.userName),
      (ascii "event", .str m.text), (ascii "timestamp", .int (asJsonInt timestamp))]
  | .system =>
    [(ascii "type", .str (ascii "system")), (ascii "user_name", .str m.userName),
      (ascii "event", .str m.text), (ascii "timestamp", .int (asJsonInt timestamp)),
      (ascii "channel_id", .int m.channelId.toNat)]

/-- `ChatServer::resolve_broadcast`. Messages that `json_pack` refuses are left out. -/
def resolveBroadcast (js : Jansson) : Code Unit := do
  let cur ← call .getCurMsgs
  match js.dumpArray (cur.filterMap fun p => js.pack (windowEntry p.1 p.2.2)) with
  | none => pure ()
  | some dumped => do
    let clients ← call .getClients
    let failed ← broadcast dumped clients
    Prog.forEach (fun n => call (.insertDeletion n)) failed

/-- The task of `ChatServer::ChatServer`. -/
def chatTask (js : Jansson) : Code Unit := do
  resolveTimestamps
  resolveBroadcast js

/-! ## Requests -/

/-- `ChatServer::on_req`. -/
def chatOnReq (js : Jansson) (n : Fd) (target : Bytes) (root : js.Json) : Code Unit :=
  if isMessage target then
    match unpackMessage js root with
    | none => pure ()
    | some (text, timestamp) => do
      match ← call (.getUserName n) with
      | none => pure ()
      | some userName =>
        call (.pushMq n { type := .user, text, timestamp, userName, channelId := 0 })
  else pure ()

/-- `Channel::on_req`. -/
def channelOnReq (js : Jansson) (c : ChId) (n : Fd) (target : Bytes) (root : js.Json) :
    Code Unit :=
  if isMessage target then chatOnReq js n target root
  else if isJoin target then
    match unpackChannelJoin js root with
    | none => pure ()
    | some (chTo, timestamp) =>
      if chTo = c then pure ()
      else do
        let ptr ← call .newJoinReq
        call (.report n ptr ⟨c, chTo, timestamp⟩)
  else pure ()

end ChatChannel
