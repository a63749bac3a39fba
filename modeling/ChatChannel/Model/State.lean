import Mathlib.Data.Finset.Basic
import Mathlib.Data.Finset.Card
import ChatChannel.Model.Types

/-!
# The shared state

One record per object of the program: `Base` for the members every server inherits from
`ServerBase` (with its `ConnectionTracker` and `Communication`), `Chan` for those of `ChatServer`
and `Channel`, `Lobby` for those of `ChannelServer`, and `St` for all of them together with the
statics and the kernel's descriptor table.

Local variables that other threads' actions have to be compared with are part of the state as well:
the queue and the report of `consume_report` (`localQ`, `req`), and the part of `local_q` that
`resolve_pool` has not visited yet (`joining`, `leaving`). What a thread is in the middle of is
written down in its `Aux`; with `unpublished`, `log` and the `author` of a report these are
for specifications only: no program reads them, and no call depends on them.
-/

set_option autoImplicit false

namespace ChatChannel

/-! ## The kernel -/

/-- An open file description: a standard stream, a socket that does not listen yet, a listening
one, a connection, an epoll instance. Connections and listening sockets carry an identity that is
never used twice, so that a descriptor number can be told from what is behind it. An epoll instance
is its interest list; descriptors are not duplicated, so a number stands for one description as long
as it is open, and closing it takes it off every interest list. -/
inductive File
  | other
  | socket
  | listener (i : Nat)
  | conn (k : Nat)
  | epoll (interest : Finset Fd)
  deriving DecidableEq

namespace File

/-- Closing a description takes it off the interest lists. -/
def forget (n : Fd) : File → File
  | epoll i => epoll (i.erase n)
  | x => x

/-- The connection behind a descriptor. -/
def conn? : Option File → Option Nat
  | some (conn k) => some k
  | _ => none

/-- The interest list behind a descriptor, empty when it is no epoll instance. -/
def interest : Option File → Finset Fd
  | some (epoll i) => i
  | _ => ∅

def mapInterest (f : Finset Fd → Finset Fd) : File → File
  | epoll i => epoll (f i)
  | x => x

def isEpoll : Option File → Bool
  | some (epoll _) => true
  | _ => false

def isListener : Option File → Bool
  | some (listener _) => true
  | _ => false

end File

/-! ## The servers -/

/-- How far `resolve_deletion` has come with a descriptor: it was taken from the set, closing it is
inevitable now, it is closed and its buffer is not cleared yet. -/
inductive Stage
  | picked
  | doomed
  | closed
  deriving DecidableEq

/-- The connections behind the descriptors, and the clients of every server, at some moment. -/
structure Snapshot where
  conn : Fd → Option Nat
  clients : Srv → Finset Fd

/-- What a server's thread is in the middle of. -/
structure Aux where
  /-- What a `resolve_deletion` that has begun has not visited yet; `none` from the clearing of
  `next_deletion` to the beginning of the next one. -/
  remaining : Option (List Fd)
  /-- The moment the last `resolve_deletion` began. -/
  start : Snapshot
  cursor : Option (Fd × Stage)
  /-- What `accept` returned, until the tracker is asked to add it. -/
  arrived : Option Fd
  /-- The argument of `on_recv`, with the connection its last `recv` found behind it. -/
  source : Option (Fd × Nat)
  /-- The frames `on_recv` has not dispatched yet, and the one whose request it is at. -/
  batch : List Bytes
  current : Option Bytes
  /-- The descriptor whose name the thread's last look-up found, until the name is used. -/
  known : Option Fd
  /-- The lobby's last entry in a `join_pool`, as long as it has not released or taken another lock,
  and whether the descriptor was taken from its old server, or put in its `leave_pool`, since. -/
  placed : Option (ChId × Fd × Bool)
  /-- The channel whose epoll instance is about to be closed, and whether that was done. -/
  scrapped : Option (ChId × Bool)

/-- The members of `ServerBase`, of its tracker and of its communication object. -/
structure Base where
  /-- `ConnectionTracker::max_fd`. -/
  maxFd : Int32
  /-- `ConnectionTracker::efd`. -/
  efd : Fd
  /-- `ConnectionTracker::clients`. -/
  clients : Finset Fd
  /-- `ConnectionTracker::events`, the first `evcnt` of them. -/
  events : List PollEv
  /-- `Communication::rbuf`. -/
  rbuf : Fd → Option Bytes
  /-- `next_deletion`. -/
  nextDeletion : Finset Fd
  /-- `task_runner`: a list of tasks per session. -/
  runner : List (List Task)
  aux : Aux

/-- The thread object of a channel: none attached, running, or ended and not joined yet. -/
inductive Worker
  | absent
  | running
  | ended
  deriving DecidableEq

/-- The members of `ChatServer` and `Channel`. -/
structure Chan where
  joinPool : List (Fd × MessageReqDto)
  leavePool : List (Fd × MessageReqDto)
  /-- What `resolve_pool` moved out of `join_pool` and has not offered to the tracker yet. -/
  joining : List Fd
  /-- What it moved out of `leave_pool` and has not taken from the tracker yet. -/
  leaving : List Fd
  /-- Entries of `join_pool` made since the lobby took `pool_mtx`. -/
  unpublished : Finset Fd
  /-- The holder of `pool_mtx`. -/
  mtx : Option Srv
  stopFlag : Bool
  emptySince : Msec64
  worker : Worker
  /-- `task_runner`'s mutex is held by a running tick. -/
  ticking : Bool
  /-- `ChatServer::mq`. -/
  mq : List (Fd × MessageReqDto)
  /-- `ChatServer::cur_msgs`, in the order of the multimap. -/
  curMsgs : List (Msec64 × Fd × MessageReqDto)

/-- The members of `ChannelServer`. `ids` are the keys of `channels`. -/
structure Lobby where
  ids : List ChId
  reports : List ChannelReport
  localQ : List ChannelReport
  req : Option ChannelReport
  lastAct : List (Fd × Int)
  /-- `last` of the throttled task. -/
  throttle : Msec64
  isRunning : Bool

/-- What specifications remember of a run. -/
inductive LogEv
  /-- The lobby's tracker took the connection. -/
  | admitted (k : Nat)
  /-- The connection was closed by a thread of the process. -/
  | closed (s : Srv) (k : Nat)
  /-- A server read bytes from the connection. -/
  | read (s : Srv) (k : Nat) (b : Bytes)
  /-- A server parsed its buffer of the connection. -/
  | decoded (s : Srv) (k : Nat) (r : Except FrameErr (List Bytes))
  /-- A server's `on_frame` was called. -/
  | handled (s : Srv) (k : Nat) (f : Bytes)
  /-- A channel's `Communication` was created or destroyed. -/
  | renewed (s : Srv)
  /-- A channel could not get a thread, and whether the channel was in the map. -/
  | spawnFailed (c : ChId) (mapped : Bool)
  /-- `leave_and_logging` did not find a name and scheduled the descriptor for deletion. -/
  | evicted (c : ChId) (n : Fd)
  deriving DecidableEq

structure St where
  /-- The descriptor table of the process. -/
  file : Fd → Option File
  /-- The next connection and the next listening socket. -/
  nextConn : Nat
  nextListener : Nat
  /-- `ServerBase::fd`. -/
  listenFd : Fd
  /-- `UserManager::name_map`. -/
  names : Fd → Option Bytes
  base : Srv → Base
  chan : ChId → Chan
  lobby : Lobby
  /-- The `JoinReqDto` objects that were allocated and not deleted, and the next address. -/
  joinReqs : List Nat
  nextPtr : Nat
  log : List LogEv

/-! ## Fresh objects -/

def Aux.fresh : Aux where
  remaining := none
  start := ⟨fun _ => none, fun _ => ∅⟩
  cursor := none
  arrived := none
  source := none
  batch := []
  current := none
  known := none
  placed := none
  scrapped := none

/-- The members as the constructors leave them before the tracker is initialised. -/
def Base.fresh (maxFd : Int32) : Base where
  maxFd := maxFd
  efd := fdErr
  clients := ∅
  events := []
  rbuf := fun _ => none
  nextDeletion := ∅
  runner := []
  aux := Aux.fresh

def Chan.fresh : Chan where
  joinPool := []
  leavePool := []
  joining := []
  leaving := []
  unpublished := ∅
  mtx := none
  stopFlag := false
  emptySince := 0
  worker := .absent
  ticking := false
  mq := []
  curMsgs := []

/-! ## Updates

One per record, with the equations that read every field back through it. -/

namespace St

def onBase (s : St) (v : Srv) (f : Base → Base) : St :=
  { s with base := Function.update s.base v (f (s.base v)) }

def onChan (s : St) (c : ChId) (f : Chan → Chan) : St :=
  { s with chan := Function.update s.chan c (f (s.chan c)) }

def onLobby (s : St) (f : Lobby → Lobby) : St := { s with lobby := f s.lobby }

/-- Open a description under a free number. -/
def openFile (s : St) (n : Fd) (f : File) : St :=
  { s with file := Function.update s.file n (some f) }

/-- `close(n)`. -/
def closeFile (s : St) (n : Fd) : St :=
  { s with file := Function.update (fun m => (s.file m).map (File.forget n)) n none }

/-- Change the interest list of the tracker of `v`, if its instance is open. -/
def onInterest (s : St) (v : Srv) (f : Finset Fd → Finset Fd) : St :=
  let e := (s.base v).efd
  { s with file := Function.update s.file e ((s.file e).map (File.mapInterest f)) }

def addLog (s : St) (e : LogEv) : St := { s with log := s.log ++ [e] }

/-- Change what the thread of `v` is in the middle of. -/
def onAux (s : St) (v : Srv) (f : Aux → Aux) : St := s.onBase v fun b => { b with aux := f b.aux }

def snapshot (s : St) : Snapshot := ⟨fun n => File.conn? (s.file n), fun v => (s.base v).clients⟩

/-- The descriptors registered in the epoll instance of `v`. -/
def registered (s : St) (v : Srv) : Finset Fd := File.interest (s.file (s.base v).efd)

variable (s : St) (v : Srv) (c : ChId) (n : Fd) (e : LogEv)

section
variable (f : Base → Base)

@[simp] theorem onBase_base : (s.onBase v f).base = Function.update s.base v (f (s.base v)) := rfl
@[simp] theorem onBase_file : (s.onBase v f).file = s.file := rfl
@[simp] theorem onBase_nextConn : (s.onBase v f).nextConn = s.nextConn := rfl
@[simp] theorem onBase_nextListener : (s.onBase v f).nextListener = s.nextListener := rfl
@[simp] theorem onBase_listenFd : (s.onBase v f).listenFd = s.listenFd := rfl
@[simp] theorem onBase_names : (s.onBase v f).names = s.names := rfl
@[simp] theorem onBase_chan : (s.onBase v f).chan = s.chan := rfl
@[simp] theorem onBase_lobby : (s.onBase v f).lobby = s.lobby := rfl
@[simp] theorem onBase_joinReqs : (s.onBase v f).joinReqs = s.joinReqs := rfl
@[simp] theorem onBase_nextPtr : (s.onBase v f).nextPtr = s.nextPtr := rfl
@[simp] theorem onBase_log : (s.onBase v f).log = s.log := rfl

end

section
variable (f : Aux → Aux)

@[simp] theorem onAux_base : (s.onAux v f).base =
    Function.update s.base v { s.base v with aux := f (s.base v).aux } := rfl
@[simp] theorem onAux_file : (s.onAux v f).file = s.file := rfl
@[simp] theorem onAux_nextConn : (s.onAux v f).nextConn = s.nextConn := rfl
@[simp] theorem onAux_nextListener : (s.onAux v f).nextListener = s.nextListener := rfl
@[simp] theorem onAux_listenFd : (s.onAux v f).listenFd = s.listenFd := rfl
@[simp] theorem onAux_names : (s.onAux v f).names = s.names := rfl
@[simp] theorem onAux_chan : (s.onAux v f).chan = s.chan := rfl
@[simp] theorem onAux_lobby : (s.onAux v f).lobby = s.lobby := rfl
@[simp] theorem onAux_joinReqs : (s.onAux v f).joinReqs = s.joinReqs := rfl
@[simp] theorem onAux_nextPtr : (s.onAux v f).nextPtr = s.nextPtr := rfl
@[simp] theorem onAux_log : (s.onAux v f).log = s.log := rfl

end

section
variable (f : Chan → Chan)

@[simp] theorem onChan_chan : (s.onChan c f).chan = Function.update s.chan c (f (s.chan c)) := rfl
@[simp] theorem onChan_file : (s.onChan c f).file = s.file := rfl
@[simp] theorem onChan_nextConn : (s.onChan c f).nextConn = s.nextConn := rfl
@[simp] theorem onChan_nextListener : (s.onChan c f).nextListener = s.nextListener := rfl
@[simp] theorem onChan_listenFd : (s.onChan c f).listenFd = s.listenFd := rfl
@[simp] theorem onChan_names : (s.onChan c f).names = s.names := rfl
@[simp] theorem onChan_base : (s.onChan c f).base = s.base := rfl
@[simp] theorem onChan_lobby : (s.onChan c f).lobby = s.lobby := rfl
@[simp] theorem onChan_joinReqs : (s.onChan c f).joinReqs = s.joinReqs := rfl
@[simp] theorem onChan_nextPtr : (s.onChan c f).nextPtr = s.nextPtr := rfl
@[simp] theorem onChan_log : (s.onChan c f).log = s.log := rfl

end

section
variable (f : Lobby → Lobby)

@[simp] theorem onLobby_lobby : (s.onLobby f).lobby = f s.lobby := rfl
@[simp] theorem onLobby_file : (s.onLobby f).file = s.file := rfl
@[simp] theorem onLobby_nextConn : (s.onLobby f).nextConn = s.nextConn := rfl
@[simp] theorem onLobby_nextListener : (s.onLobby f).nextListener = s.nextListener := rfl
@[simp] theorem onLobby_listenFd : (s.onLobby f).listenFd = s.listenFd := rfl
@[simp] theorem onLobby_names : (s.onLobby f).names = s.names := rfl
@[simp] theorem onLobby_base : (s.onLobby f).base = s.base := rfl
@[simp] theorem onLobby_chan : (s.onLobby f).chan = s.chan := rfl
@[simp] theorem onLobby_joinReqs : (s.onLobby f).joinReqs = s.joinReqs := rfl
@[simp] theorem onLobby_nextPtr : (s.onLobby f).nextPtr = s.nextPtr := rfl
@[simp] theorem onLobby_log : (s.onLobby f).log = s.log := rfl

end

section
variable (f : File)

@[simp] theorem openFile_file : (s.openFile n f).file = Function.update s.file n (some f) := rfl
@[simp] theorem openFile_nextConn : (s.openFile n f).nextConn = s.nextConn := rfl
@[simp] theorem openFile_nextListener : (s.openFile n f).nextListener = s.nextListener := rfl
@[simp] theorem openFile_listenFd : (s.openFile n f).listenFd = s.listenFd := rfl
@[simp] theorem openFile_names : (s.openFile n f).names = s.names := rfl
@[simp] theorem openFile_base : (s.openFile n f).base = s.base := rfl
@[simp] theorem openFile_chan : (s.openFile n f).chan = s.chan := rfl
@[simp] theorem openFile_lobby : (s.openFile n f).lobby = s.lobby := rfl
@[simp] theorem openFile_joinReqs : (s.openFile n f).joinReqs = s.joinReqs := rfl
@[simp] theorem openFile_nextPtr : (s.openFile n f).nextPtr = s.nextPtr := rfl
@[simp] theorem openFile_log : (s.openFile n f).log = s.log := rfl

end

@[simp] theorem closeFile_file : (s.closeFile n).file =
    Function.update (fun m => (s.file m).map (File.forget n)) n none := rfl
@[simp] theorem closeFile_nextConn : (s.closeFile n).nextConn = s.nextConn := rfl
@[simp] theorem closeFile_nextListener : (s.closeFile n).nextListener = s.nextListener := rfl
@[simp] theorem closeFile_listenFd : (s.closeFile n).listenFd = s.listenFd := rfl
@[simp] theorem closeFile_names : (s.closeFile n).names = s.names := rfl
@[simp] theorem closeFile_base : (s.closeFile n).base = s.base := rfl
@[simp] theorem closeFile_chan : (s.closeFile n).chan = s.chan := rfl
@[simp] theorem closeFile_lobby : (s.closeFile n).lobby = s.lobby := rfl
@[simp] theorem closeFile_joinReqs : (s.closeFile n).joinReqs = s.joinReqs := rfl
@[simp] theorem closeFile_nextPtr : (s.closeFile n).nextPtr = s.nextPtr := rfl
@[simp] theorem closeFile_log : (s.closeFile n).log = s.log := rfl

section
variable (f : Finset Fd → Finset Fd)

@[simp] theorem onInterest_file : (s.onInterest v f).file = Function.update s.file (s.base v).efd
    ((s.file (s.base v).efd).map (File.mapInterest f)) := rfl
@[simp] theorem onInterest_nextConn : (s.onInterest v f).nextConn = s.nextConn := rfl
@[simp] theorem onInterest_nextListener : (s.onInterest v f).nextListener = s.nextListener := rfl
@[simp] theorem onInterest_listenFd : (s.onInterest v f).listenFd = s.listenFd := rfl
@[simp] theorem onInterest_names : (s.onInterest v f).names = s.names := rfl
@[simp] theorem onInterest_base : (s.onInterest v f).base = s.base := rfl
@[simp] theorem onInterest_chan : (s.onInterest v f).chan = s.chan := rfl
@[simp] theorem onInterest_lobby : (s.onInterest v f).lobby = s.lobby := rfl
@[simp] theorem onInterest_joinReqs : (s.onInterest v f).joinReqs = s.joinReqs := rfl
@[simp] theorem onInterest_nextPtr : (s.onInterest v f).nextPtr = s.nextPtr := rfl
@[simp] theorem onInterest_log : (s.onInterest v f).log = s.log := rfl

end

@[simp] theorem addLog_log : (s.addLog e).log = s.log ++ [e] := rfl
@[simp] theorem addLog_file : (s.addLog e).file = s.file := rfl
@[simp] theorem addLog_nextConn : (s.addLog e).nextConn = s.nextConn := rfl
@[simp] theorem addLog_nextListener : (s.addLog e).nextListener = s.nextListener := rfl
@[simp] theorem addLog_listenFd : (s.addLog e).listenFd = s.listenFd := rfl
@[simp] theorem addLog_names : (s.addLog e).names = s.names := rfl
@[simp] theorem addLog_base : (s.addLog e).base = s.base := rfl
@[simp] theorem addLog_chan : (s.addLog e).chan = s.chan := rfl
@[simp] theorem addLog_lobby : (s.addLog e).lobby = s.lobby := rfl
@[simp] theorem addLog_joinReqs : (s.addLog e).joinReqs = s.joinReqs := rfl
@[simp] theorem addLog_nextPtr : (s.addLog e).nextPtr = s.nextPtr := rfl

end St

end ChatChannel
