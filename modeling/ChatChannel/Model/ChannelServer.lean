import ChatChannel.Model.Channel

/-!
# `ChannelServer`

`server/channel_server.cpp`: the lobby's requests, the consumption of the channels' reports, the
management of channels, and the construction and destruction of a `Channel` with its base classes.
-/

set_option autoImplicit false

namespace ChatChannel

open Conc

/-! ## Construction and destruction of a channel -/

/-- `ServerBase::set_network`. -/
def setNetwork : Code Unit := do
  match ← call .listenSocket with
  | none => throw Err.initFailed
  | some _ => unless ← call .bindListen do throw Err.initFailed

/-- `ConnectionTracker::init`. -/
def trackerInit (c : ChId) : Code Unit := do
  match ← call (.epollCreate c) with
  | none => throw Err.initFailed
  | some _ => unless ← call (.epollAddListener c) do throw Err.initFailed

/-- `TaskRunner::pushb`. -/
def pushb (c : ChId) (which : Nat) (t : Task) : Code Unit := do
  unless ← call (.pushBack c which t) do throw Err.sessionOutOfRange

/-- `TaskRunner::pushf`. -/
def pushf (c : ChId) (which : Nat) (t : Task) : Code Unit := do
  unless ← call (.pushFront c which t) do throw Err.sessionOutOfRange

/-- `ServerBase::ServerBase`, which catches what goes wrong and leaves the object without
sessions. -/
def serverBase (c : ChId) (maxFd : Int32) : Code Unit := do
  call (.newTracker c maxFd)
  tryCatch (do
    if (← call .getListenFd) = fdErr then setNetwork
    trackerInit c
    call (.newSession c tsCount)
    pushb c tsPre .clearDeletion
    pushb c tsPoll .polling
    pushb c tsPoll .handleEvents
    pushb c tsLogic .resolveDeletion)
    fun _ => pure ()

/-- `ServerBase::~ServerBase`, with the destructor of the tracker: the clients and the epoll
instance are closed, then the listening socket. -/
def destroyServerBase (c : ChId) : Code Unit := do
  let efd ← call (.getEfd c)
  let clients ← call (.trackedBy c)
  if efd ≠ fdErr then
    Prog.forEach (fun n => do
      call (.epollDel c n)
      if n ≠ fdErr then call (.close n)) clients
    call (.close efd)
  else Prog.forEach (fun n => if n ≠ fdErr then call (.close n) else pure ()) clients
  if (← call .getListenFd) ≠ fdErr then call .closeListener
  call (.dropTracker c)

/-- `Channel::Channel` after its base classes: the worker starts before `resolve_pool` is among its
tasks. `ChatServer::ChatServer` throws when `ServerBase` left no sessions; the base part is then
destroyed again. -/
def newChannel (c : ChId) (maxFd : Int32) : Code Unit := do
  serverBase c maxFd
  tryCatch (do
    pushb c tsPre .clearCurMsgs
    pushf c tsLogic .chat
    call (.storeStop c false)
    unless ← call (.startWorker c) do throw Err.threadFailed
    pushf c tsLogic .resolvePool)
    fun e => do
      destroyServerBase c
      throw e

/-- `Channel::~Channel`. -/
def deleteChannel (c : ChId) : Code Unit := do
  call (.storeStop c true)
  if ← call (.joinable c) then call (.joinWorker c)
  destroyServerBase c

/-! ## The map of channels -/

/-- `ChannelServer::get_channel`. A channel is named by its key. -/
def getChannel (P : Params) (c : ChId) : Code Unit := do
  unless ← call (.findChannel c) do
    newChannel c P.chMaxFd
    call (.insertChannel c)

/-- `while (channels.find(new_id) != channels.end()) new_id++;` The number of channels bounds the
number of rounds as long as the ids do not wrap around. -/
def freshId : Nat → ChId → Code ChId
  | 0, c => do
    call .stall
    pure c
  | fuel + 1, c => do
    if ← call (.findChannel c) then freshId fuel (c + 1) else pure c

/-- One candidate of `find_or_create_channel`: kept locked if it has room. -/
def tryChannel (P : Params) (preferred c : ChId) : Code (Option ChId) :=
  if c = preferred then pure none
  else do
    getChannel P c
    waitStopPooling c
    if ← pingPool c then pure (some c)
    else do
      startPooling c
      pure none

/-- `ChannelServer::find_or_create_channel`: the pool of the returned channel is locked. -/
def findOrCreateChannel (P : Params) (preferred : ChId) : Code ChId := do
  getChannel P preferred
  waitStopPooling preferred
  if ← pingPool preferred then pure preferred
  else do
    startPooling preferred
    let ids ← call .channelIds
    match ← Prog.firstSome (tryChannel P preferred) ids with
    | some c => pure c
    | none => do
      let newId ← freshId (ids.length + 1) 1
      getChannel P newId
      waitStopPooling newId
      pure newId

/-- `ChannelServer::check_lobby`, on nanoseconds of the steady clock. -/
def checkLobby : Code Unit := do
  let now ← call .steadyNow
  let acts ← call .getLastAct
  let early := fun p : Fd × Int => decide ((now - p.2).tdiv 1000000 < 5000)
  Prog.forEach (fun p => if early p then pure () else call (.insertDeletion p.1)) acts
  call (.assignLastAct (acts.filter early))

/-- `ChannelServer::check_channels`. -/
def checkChannels : Code Unit := do
  let now ← call .systemNow
  let ids ← call .channelIds
  Prog.forEach (fun c => do
    if ← call (.loadStop c) then
      let emptyTime ← call (.loadEmptySince c)
      if 0 < emptyTime ∧ 300000 < now - emptyTime then
        deleteChannel c
        call (.eraseChannel c)) ids

/-- The task of `ChannelServer::ChannelServer`, under `AsThrottle(…, 1000)`. -/
def housekeeping : Code Unit := do
  let now ← call .systemNow
  let last ← call .loadThrottle
  if now - last < 1000 then pure ()
  else do
    call (.storeThrottle now)
    checkLobby
    checkChannels

/-! ## Requests and reports -/

def serverFull : Bytes := ascii "\x7b\"type\":\"error\",\"message\":\"Server is full.\"\x7d"

def channelFull : Bytes := ascii "\x7b\"type\":\"error\",\"message\":\"The channel is full.\"\x7d"

/-- `"user_" + std::to_string(client)`. -/
def tempName (n : Fd) : Bytes :=
  ascii "user_" ++ (if n < 0 then ascii "-" else []) ++
    (Nat.toDigits 10 n.natAbs).map fun c => c.toNat.toUInt8

/-- `ChannelServer::on_accept`. -/
def lobbyOnAccept (client : Fd) : Code Unit :=
  tryCatch (do
    trackerAdd client
    call (.setUserName client (tempName client))
    let now ← call .steadyNow
    call (.setLastAct client now))
    fun e => do
      if e = Err.poolFull then sendFrame client serverFull
      call (.insertDeletion client)

/-- `ChannelServer::on_req`. -/
def lobbyOnReq (P : Params) (n : Fd) (target : Bytes) (root : P.js.Json) : Code Unit :=
  if isJoin target then
    match unpackLobbyJoin P.js root with
    | none => pure ()
    | some (channelId, timestamp, userName) => do
      call (.setUserName n userName)
      let target ← findOrCreateChannel P channelId
      joinAndLogging target n timestamp false
      trackerDelete n
      call (.eraseLastAct n)
      startPooling target
  else pure ()

/-- One report of `consume_report`. -/
def consumeOne (P : Params) (r : ChannelReport) : Code Unit := do
  getChannel P r.join.chFrom
  getChannel P r.join.chTo
  waitStopPooling r.join.chTo
  if ← pingPool r.join.chTo then
    joinAndLogging r.join.chTo r.from' r.join.timestamp true
    leaveAndLogging r.join.chFrom r.from' r.join.timestamp
    startPooling r.join.chTo
    call (.deleteJoinReq r.ptr)
  else
    sendFrame r.from' channelFull
    startPooling r.join.chTo

/-- The loop of `consume_report` over the `k` reports it took. -/
def consumeLoop (P : Params) : Nat → Code Unit
  | 0 => do let _ ← call .nextReport
  | k + 1 => do
    match ← call .nextReport with
    | none => pure ()
    | some r => do
      consumeOne P r
      consumeLoop P k

/-- `ChannelServer::consume_report`. The local queue is destroyed on an exception too. -/
def consumeReport (P : Params) : Code Unit := do
  let k ← call .popReports
  tryCatch (consumeLoop P k) fun e => do
    call .dropReports
    throw e

/-- The loop of the destructor over the `k` reports that were left. -/
def releaseLoop : Nat → Code Unit
  | 0 => do let _ ← call .nextReport
  | k + 1 => do
    match ← call .nextReport with
    | none => pure ()
    | some r => do
      call (.deleteJoinReq r.ptr)
      releaseLoop k

/-- `ChannelServer::~ChannelServer`, without the destructors of its base classes. -/
def destroyChannelServer : Code Unit := do
  let ids ← call .channelIds
  Prog.forEach deleteChannel ids
  let k ← call .popReports
  releaseLoop k
  Prog.forEach (fun c => call (.eraseChannel c)) ids

/-- `ChannelServer::resolve_deletion`: a failed `delete_client` skips the rest. -/
def lobbyResolveDeletion : Code Unit := do
  let doomed ← call .getDeletion
  Prog.forEach (fun n => do
    call (.setCursor (some n))
    let deleted ← tryCatch (do trackerDelete n; pure true) fun _ => pure false
    if deleted then
      call (.removeUserName n)
      call (.close n)
      call (.clearBuffer n)) doomed
  call (.setCursor none)

end ChatChannel
