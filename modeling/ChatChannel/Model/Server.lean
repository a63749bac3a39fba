import ChatChannel.Conc.Exec
import ChatChannel.Model.ChannelServer

/-!
# The running server

`server/server_base.cpp` with its virtual functions resolved: event handling, the tasks, and the
loops `ServerBase::proc` and `Channel::proc`. The last section is the system these threads form and
the state in which `ChannelServer`'s constructor leaves it.
-/

set_option autoImplicit false

namespace ChatChannel

open Conc

variable (P : Params)

/-! ## Events -/

/-- `TypedFrameServer::on_frame`. -/
def onFrame (v : Srv) (n : Fd) (f : Bytes) : Code Unit := do
  call (.onFrame n f)
  match requestOf P.js f with
  | none => pure ()
  | some (target, root) =>
    match v with
    | .lobby => lobbyOnReq P n target root
    | .chan c => channelOnReq P.js c n target root

/-- `ServerBase::on_recv`. -/
def onRecv (v : Srv) (n : Fd) : Code Unit :=
  tryCatch (do
    let frames ← recvFrame P n
    Prog.forEach (onFrame P v n) frames
    call .endRecv)
    fun _ => do
      call .endRecv
      call (.insertDeletion n)

/-- `on_accept`: `Channel::on_accept` does nothing. -/
def onAccept : Srv → Fd → Code Unit
  | .lobby, client => lobbyOnAccept client
  | .chan _, _ => pure ()

/-- `ServerBase::handle_events`. -/
def handleEvents (v : Srv) (ev : PollEv) : Code Unit := do
  if ← call (.isListener ev.fd) then
    match ← call .accept with
    | none => pure ()
    | some client => onAccept v client
  else if ev.hup then call (.insertDeletion ev.fd)
  else if ev.inp then onRecv P v ev.fd
  else pure ()

/-! ## Tasks and loops -/

/-- `resolve_deletion`. -/
def resolveDeletion : Srv → Code Unit
  | .lobby => lobbyResolveDeletion
  | .chan c => channelResolveDeletion c

/-- The lambdas of the constructors. -/
def runTask (v : Srv) : Task → Code Unit
  | .clearDeletion => call .clearDeletion
  | .polling => do
    match ← call .epollWait with
    | none => throw Err.pollFailed
    | some _ => pure ()
  | .handleEvents => do
    let evs ← call .getEv
    Prog.forEach (handleEvents P v) evs
  | .resolveDeletion => resolveDeletion v
  | .clearCurMsgs => call .clearCurMsgs
  | .chat => chatTask P.js
  | .resolvePool => resolvePool (own v)
  | .consumeReport => consumeReport P
  | .housekeeping => housekeeping

/-- `TaskRunner::run`: one tick. The lock guard on its mutex is released on every way out. -/
def run (v : Srv) : Code Unit := do
  let sessions ← call .beginRun
  tryCatch (Prog.forEach (Prog.forEach (runTask P v)) sessions) fun e => do
    call .endRun
    throw e
  call .endRun

/-- One round of the loop of `proc`. A channel's thread ends when it finds its flag set. -/
def proc : Srv → Code Unit
  | .lobby => do
    if ← call .loadRunning then tryCatch (run P .lobby) fun _ => pure ()
  | .chan c => do
    if ← call (.loadStop c) then call .exitThread
    else tryCatch (run P (.chan c)) fun _ => pure ()

/-! ## The system -/

/-- The threads of the server, over its calls. -/
def server : Sys sig Srv St where
  body := proc P
  step t a r s s' := exec t a r s = some s'

/-- Thread `t` on its own, with what the other threads may do meanwhile. -/
def lone (t : Srv) (rely : St → St → Prop) : Solo sig St where
  step a r s s' := exec t a r s = some s'
  rely := rely

/-- The descriptors of the lobby's listening socket and epoll instance. -/
def lobbyListener : Fd := 3
def lobbyEpoll : Fd := 4

/-- The tasks of the lobby, in the order its constructors push them. -/
def lobbyTasks : List (List Task) :=
  pushTask true tsLogic .housekeeping <| pushTask false tsPre .consumeReport <|
    pushTask false tsLogic .resolveDeletion <| pushTask false tsPoll .handleEvents <|
      pushTask false tsPoll .polling <| pushTask false tsPre .clearDeletion <|
        List.replicate tsCount []

/-- The state after `ChannelServer::ChannelServer` on a process with three open standard
streams. -/
def init : St where
  file := fun n =>
    if n = lobbyListener then some (.listener 0)
    else if n = lobbyEpoll then some (.epoll {lobbyListener})
    else if 0 ≤ n ∧ n < 3 then some .other
    else none
  nextConn := 0
  nextListener := 1
  listenFd := lobbyListener
  names := fun _ => none
  base := fun v =>
    match v with
    | .lobby => { Base.fresh P.lobbyMaxFd with efd := lobbyEpoll, runner := lobbyTasks }
    | .chan _ => Base.fresh P.chMaxFd
  chan := fun _ => Chan.fresh
  lobby :=
    { ids := [], reports := [], localQ := [], req := none, lastAct := [], throttle := 0,
      isRunning := true }
  joinReqs := []
  nextPtr := 0
  log := []

example : lobbyTasks =
    [[.clearDeletion, .consumeReport], [.polling, .handleEvents],
      [.housekeeping, .resolveDeletion]] := by decide

end ChatChannel
