import ChatChannel.Conc.System
import ChatChannel.Model.State

/-!
# Atomic calls

What a thread does in one step: a system call, a member function of an object that has its own
mutex (`ConnectionTracker`, `UserManager`, `ProducerConsumerQueue`), a load or store of an atomic,
a lock or unlock of `pool_mtx`, or one access to a member that another thread may touch. Everything
else (JSON, local variables, the order of the calls) is in the programs.

A call acts for the server whose thread makes it: `addClient` adds to the tracker of the executing
server. The calls on a channel that the lobby also makes name the channel.

`exec t a r s` is the state after thread `t` made call `a` in `s` and got the answer `r`; it is
`none` when the call cannot be answered so in `s`. Where the answer is up to the kernel or to the
peer, every answer its documentation allows is possible; where the call blocks, there is none.
-/

set_option autoImplicit false

namespace ChatChannel

inductive Act
  -- system calls
  | epollWait
  | accept
  | recv (n : Fd)
  | send (n : Fd) (b : Bytes)
  | close (n : Fd)
  | stall
  -- `ConnectionTracker` and `Communication` of the executing server
  | getEv
  | addClient (n : Fd)
  | deleteClient (n : Fd)
  | getClients
  | getClientCount
  | decode (n : Fd)
  | clearBuffer (n : Fd)
  | onFrame (n : Fd) (f : Bytes)
  | endRecv
  -- `ServerBase`
  | isListener (n : Fd)
  | clearDeletion
  | insertDeletion (n : Fd)
  | getDeletion
  | setCursor (o : Option Fd)
  | beginRun
  | endRun
  | loadRunning
  -- `UserManager`
  | getUserName (n : Fd)
  | setUserName (n : Fd) (u : Bytes)
  | removeUserName (n : Fd)
  -- clocks
  | systemNow
  | steadyNow
  -- reports and their objects
  | newJoinReq
  | deleteJoinReq (p : Nat)
  | report (n : Fd) (p : Nat) (j : JoinReqDto)
  | popReports
  | nextReport
  | dropReports
  -- the other members of `ChannelServer`
  | findChannel (c : ChId)
  | channelIds
  | insertChannel (c : ChId)
  | eraseChannel (c : ChId)
  | setLastAct (n : Fd) (t : Int)
  | eraseLastAct (n : Fd)
  | getLastAct
  | assignLastAct (l : List (Fd × Int))
  | loadThrottle
  | storeThrottle (v : Msec64)
  -- `Channel`
  | lockPool (c : ChId)
  | unlockPool (c : ChId)
  | pingPool (c : ChId)
  | emplaceJoin (c : ChId) (n : Fd) (m : MessageReqDto)
  | emplaceLeave (c : ChId) (n : Fd) (m : MessageReqDto)
  | insertDeletionAt (c : ChId) (n : Fd)
  | loadStop (c : ChId)
  | storeStop (c : ChId) (b : Bool)
  | loadEmptySince (c : ChId)
  | storeEmptySince (c : ChId) (v : Msec64)
  | joinable (c : ChId)
  | joinWorker (c : ChId)
  | startWorker (c : ChId)
  | exitThread
  | takeJoinPool
  | takeLeavePool
  | joinPoolEmpty
  -- `ChatServer`
  | pushMq (n : Fd) (m : MessageReqDto)
  | popMq
  | clearCurMsgs
  | emplaceCurMsg (t : Msec64) (n : Fd) (m : MessageReqDto)
  | getCurMsgs
  -- construction and destruction of a channel
  | newTracker (c : ChId) (maxFd : Int32)
  | getListenFd
  | listenSocket
  | bindListen
  | epollCreate (c : ChId)
  | epollAddListener (c : ChId)
  | newSession (c : ChId) (count : Nat)
  | pushBack (c : ChId) (which : Nat) (t : Task)
  | pushFront (c : ChId) (which : Nat) (t : Task)
  | getEfd (c : ChId)
  | trackedBy (c : ChId)
  | epollDel (c : ChId) (n : Fd)
  | dropTracker (c : ChId)
  | closeListener
  deriving DecidableEq

/-- The type of the answer. -/
abbrev Res : Act → Type
  | .epollWait => Option (List PollEv)
  | .accept => Option Fd
  | .recv _ => RecvRes
  | .send _ _ => Option Nat
  | .getEv => List PollEv
  | .addClient _ => AddRes
  | .deleteClient _ => Bool
  | .getClients => List Fd
  | .getClientCount => Nat
  | .decode _ => Except FrameErr (List Bytes)
  | .isListener _ => Bool
  | .getDeletion => List Fd
  | .beginRun => List (List Task)
  | .loadRunning => Bool
  | .getUserName _ => Option Bytes
  | .systemNow => Msec64
  | .steadyNow => Int
  | .newJoinReq => Nat
  | .popReports => Nat
  | .nextReport => Option ChannelReport
  | .findChannel _ => Bool
  | .channelIds => List ChId
  | .getLastAct => List (Fd × Int)
  | .loadThrottle => Msec64
  | .pingPool _ => Bool
  | .loadStop _ => Bool
  | .loadEmptySince _ => Msec64
  | .joinable _ => Bool
  | .startWorker _ => Bool
  | .takeJoinPool => List (Fd × MessageReqDto)
  | .takeLeavePool => List (Fd × MessageReqDto)
  | .joinPoolEmpty => Bool
  | .popMq => List (Fd × MessageReqDto)
  | .getCurMsgs => List (Msec64 × Fd × MessageReqDto)
  | .getListenFd => Fd
  | .listenSocket => Option Fd
  | .bindListen => Bool
  | .epollCreate _ => Option Fd
  | .epollAddListener _ => Bool
  | .pushBack _ _ _ => Bool
  | .pushFront _ _ _ => Bool
  | .getEfd _ => Fd
  | .trackedBy _ => List Fd
  | _ => Unit

/-- The calls of the server, for `Conc.Prog`. -/
abbrev sig : Conc.Sig := ⟨Act, Res, Err⟩

/-! ## Pieces of the calls -/

/-- `MAX_PEV`. -/
def maxPev : Nat := 1024

/-- Conversion of an `int` to `size_t`, as in `clients.size() >= max_fd`. -/
def asSize (m : Int32) : Nat := (m.toInt % 2 ^ 64).toNat

/-- `session.push_back` and `session.push_front`, out of range when the session does not exist. -/
def pushTask (front : Bool) (which : Nat) (t : Task) (l : List (List Task)) :
    List (List Task) :=
  l.modify which fun session => if front then t :: session else session ++ [t]

/-- `std::multimap::emplace`: behind the entries with a smaller or equal key. -/
def multimapEmplace {ν : Type} (t : Msec64) (x : ν) : List (Msec64 × ν) → List (Msec64 × ν)
  | [] => [(t, x)]
  | p :: l => if t < p.1 then (t, x) :: p :: l else p :: multimapEmplace t x l

/-- `some s` if `p` holds. -/
def need (p : Prop) [Decidable p] (s : St) : Option St := if p then some s else none

@[simp] theorem need_eq_some {p : Prop} [Decidable p] {s s' : St} :
    need p s = some s' ↔ p ∧ s = s' := by
  unfold need
  split <;> simp [*]

namespace St

variable (s : St) (t : Srv)

/-- `add_client` refuses before it asks epoll: an invalid number, or the listening socket. -/
def addRefused (n : Fd) : Prop := n = fdErr ∨ (s.base t).efd = fdErr ∨ n = s.listenFd

instance (n : Fd) : Decidable (s.addRefused t n) := by unfold addRefused; infer_instance

/-- `EPOLL_CTL_ADD` has to fail: the instance or the descriptor is not open, or the descriptor is
registered already. -/
def addImpossible (n : Fd) : Prop :=
  File.isEpoll (s.file (s.base t).efd) = false ∨ s.file n = none ∨ n ∈ s.registered t

instance (n : Fd) : Decidable (s.addImpossible t n) := by unfold addImpossible; infer_instance

/-- `clients.size() >= max_fd`. -/
def isFull : Prop := asSize (s.base t).maxFd ≤ (s.base t).clients.card

instance : Decidable (s.isFull t) := by unfold isFull; infer_instance

/-- `delete_client` succeeds: `EPOLL_CTL_DEL` finds the descriptor registered. -/
def deletable (n : Fd) : Prop := ¬ s.addRefused t n ∧ n ∈ s.registered t

instance (n : Fd) : Decidable (s.deletable t n) := by unfold deletable; infer_instance

/-- The tracker was asked to add the descriptor, or to delete it: `resolve_pool` is through with it,
and so is the lobby's `on_accept`. -/
def visited (n : Fd) (leave : Bool) : St :=
  match t with
  | .lobby => if leave then s else s.onAux t fun x => { x with arrived := none }
  | .chan c => s.onChan c fun ch =>
      if leave then { ch with leaving := ch.leaving.erase n }
      else { ch with joining := ch.joining.erase n }

/-- `delete_client` was asked for the descriptor. In a channel's `resolve_deletion` the answer does not
matter; in the lobby's a failure ends the matter. -/
def condemned (n : Fd) (deleted : Bool) : St :=
  s.onAux t fun x => { x with
    cursor :=
      if x.cursor = some (n, .picked) ∧ (deleted = true ∨ t ≠ .lobby) then some (n, .doomed)
      else x.cursor
    placed := x.placed.map fun p => if p.2.1 = n ∧ deleted = true then (p.1, n, true) else p }

/-- The cursor moves on from stage `i` to `o`, if it is there. -/
def advance (n : Fd) (i : Stage) (o : Option (Fd × Stage)) : St :=
  s.onAux t fun x => { x with cursor := if x.cursor = some (n, i) then o else x.cursor }

/-- Remember the connection behind `n`, if it is one. -/
def logConn (n : Fd) (f : Nat → LogEv) : St :=
  match File.conn? (s.file n) with
  | some k => s.addLog (f k)
  | none => s

/-- Remember the connection `on_recv` works on. -/
def logSource (f : Nat → LogEv) : St :=
  match (s.base t).aux.source with
  | some p => s.addLog (f p.2)
  | none => s

/-- The lobby's tracker took what is behind `n`. -/
def logAdmitted (n : Fd) : St := if t = .lobby then s.logConn n .admitted else s

/-- `rbuf[n]` is the string `b`. -/
def fill (n : Fd) (b : Bytes) : St :=
  s.onBase t fun x => { x with rbuf := Function.update x.rbuf n (some b) }

/-- A `recv` found a connection behind `n`. -/
def sourced (n : Fd) : St :=
  s.onAux t fun x => { x with source := (File.conn? (s.file n)).map fun k => (n, k) }

/-- `rbuf[n]` as `recv_frame` finds it. -/
def buffer (n : Fd) : Bytes := ((s.base t).rbuf n).getD []

/-- No tick of the server is running; the lobby's runner is its own thread's. -/
def idle : Prop :=
  match t with
  | .lobby => True
  | .chan c => (s.chan c).ticking = false

instance : Decidable (s.idle t) := by unfold idle; split <;> infer_instance

def setTicking (b : Bool) : St :=
  match t with
  | .lobby => s
  | .chan c => s.onChan c fun ch => { ch with ticking := b }

end St

/-- The channel of a worker. -/
def own : Srv → ChId
  | .lobby => 0
  | .chan c => c

/-! ## The calls -/

/-- The state after thread `t` made call `a` with answer `r`. An `accept` or a `send`, which the kernel may keep waiting,
is a step when it returns. -/
def exec (t : Srv) : (a : Act) → Res a → St → Option St
  | .epollWait, none, s => some s
  | .epollWait, some evs, s =>
    need (File.isEpoll (s.file (s.base t).efd) = true ∧ evs.length ≤ maxPev ∧
        (evs.map PollEv.fd).Nodup ∧ ∀ e ∈ evs, e.fd ∈ s.registered t)
      (s.onBase t fun b => { b with events := evs })
  | .accept, none, s => some s
  | .accept, some n, s =>
    need (File.isListener (s.file s.listenFd) = true ∧ 0 ≤ n ∧ s.file n = none)
      { (s.openFile n (.conn s.nextConn)).onAux t fun x => { x with arrived := some n } with
        nextConn := s.nextConn + 1 }
  | .recv n, .chunk b, s =>
    need ((File.conn? (s.file n)).isSome ∧ 1 ≤ b.length ∧ b.length ≤ 4096)
      (((s.fill t n (s.buffer t n ++ b)).sourced t n).logConn n fun k => .read t k b)
  | .recv n, .again, s =>
    need (File.conn? (s.file n)).isSome ((s.fill t n (s.buffer t n)).sourced t n)
  | .recv n, .fin, s => need (File.conn? (s.file n)).isSome (s.fill t n (s.buffer t n))
  | .recv n, .error, s => some (s.fill t n (s.buffer t n))
  | .send _ _, none, s => some s
  | .send n b, some k, s => need ((File.conn? (s.file n)).isSome ∧ k ≤ b.length) s
  | .close n, _, s =>
    some ((((s.logConn n (.closed t)).closeFile n).advance t n .doomed (some (n, .closed))).onAux t
      fun x => { x with scrapped := x.scrapped.map fun p => (p.1, true) })
  | .stall, _, _ => none
  | .getEv, r, s => need (r = (s.base t).events) s
  | .addClient n, .ok, s =>
    need (¬ s.addRefused t n ∧ ¬ s.isFull t ∧ ¬ s.addImpossible t n)
      ((((s.onInterest t fun i => insert n i).onBase t fun b =>
        { b with clients := insert n b.clients }).visited t n false).logAdmitted t n)
  | .addClient n, .full, s => need (¬ s.addRefused t n ∧ s.isFull t) (s.visited t n false)
  | .addClient n, .failed, s => need (s.addRefused t n ∨ ¬ s.isFull t) (s.visited t n false)
  | .deleteClient n, true, s =>
    need (s.deletable t n)
      ((((s.onInterest t fun i => i.erase n).onBase t fun b =>
        { b with clients := b.clients.erase n }).visited t n true).condemned t n true)
  | .deleteClient n, false, s =>
    need (¬ s.deletable t n) ((s.visited t n true).condemned t n false)
  | .getClients, r, s => need (r.Nodup ∧ r.toFinset = (s.base t).clients) s
  | .getClientCount, r, s => need (r = (s.base t).clients.card) s
  | .decode n, r, s =>
    let d := decodeFrames (s.buffer t n)
    need (r = d.1)
      (((s.fill t n d.2).onAux t fun x => { x with batch := r.toOption.getD [] }).logSource t
        fun k => .decoded t k r)
  | .clearBuffer n, _, s =>
    some ((s.onBase t fun b => { b with rbuf := Function.update b.rbuf n none }).advance t n
      .closed none)
  | .onFrame _ f, _, s =>
    some ((s.onAux t fun x => { x with batch := x.batch.tail, current := some f }).logSource t
      fun k => .handled t k f)
  | .endRecv, _, s =>
    some (s.onAux t fun x =>
      { x with source := none, batch := [], current := none, placed := none })
  | .isListener n, r, s => need (r = decide (n = s.listenFd)) s
  | .clearDeletion, _, s =>
    some (s.onBase t fun b => { b with
      nextDeletion := ∅, aux := { b.aux with remaining := none } })
  | .insertDeletion n, _, s =>
    some (s.onBase t fun b => { b with nextDeletion := insert n b.nextDeletion })
  | .getDeletion, r, s =>
    need (r.Nodup ∧ r.toFinset = (s.base t).nextDeletion)
      (s.onAux t fun x => { x with remaining := some r, start := s.snapshot })
  | .setCursor o, _, s =>
    some (s.onAux t fun x => { x with
      cursor := o.map fun n => (n, .picked)
      remaining := o.elim x.remaining fun n => x.remaining.map fun l => l.erase n
      placed := none })
  | .beginRun, r, s => need (r = (s.base t).runner ∧ s.idle t) (s.setTicking t true)
  | .endRun, _, s => some (s.setTicking t false)
  | .loadRunning, r, s =>
    need (r = true → s.lobby.isRunning = true) (s.onLobby fun l => { l with isRunning := r })
  | .getUserName n, r, s =>
    need (r = s.names n) (s.onAux t fun x => { x with known := r.map fun _ => n })
  | .setUserName n u, _, s => some { s with names := Function.update s.names n (some u) }
  | .removeUserName n, _, s => some { s with names := Function.update s.names n none }
  | .systemNow, _, s => some s
  | .steadyNow, _, s => some s
  | .newJoinReq, r, s =>
    need (r = s.nextPtr) { s with nextPtr := s.nextPtr + 1, joinReqs := s.joinReqs ++ [s.nextPtr] }
  | .deleteJoinReq p, _, s => some { s with joinReqs := s.joinReqs.erase p }
  | .report n p j, _, s =>
    some ((s.onLobby fun l => { l with
      reports := l.reports ++ [⟨n, p, j, (s.base t).aux.source.map Prod.snd⟩] }).onAux t fun x =>
        { x with current := none })
  | .popReports, r, s =>
    need (r = s.lobby.reports.length) (s.onLobby fun l => { l with
      localQ := l.reports, reports := [] })
  | .nextReport, r, s =>
    need (r = s.lobby.localQ.head?)
      ((s.onLobby fun l => { l with req := r, localQ := l.localQ.tail }).onAux t fun x =>
        { x with known := none, placed := none })
  | .dropReports, _, s =>
    some ((s.onLobby fun l => { l with localQ := [], req := none }).onAux t fun x =>
      { x with known := none, placed := none })
  | .findChannel c, r, s => need (r = decide (c ∈ s.lobby.ids)) s
  | .channelIds, r, s => need (r.Perm s.lobby.ids) s
  | .insertChannel c, _, s => some (s.onLobby fun l => { l with ids := l.ids ++ [c] })
  | .eraseChannel c, _, s => some (s.onLobby fun l => { l with ids := l.ids.erase c })
  | .setLastAct n x, _, s => some (s.onLobby fun l => { l with lastAct := assign n x l.lastAct })
  | .eraseLastAct n, _, s => some (s.onLobby fun l => { l with lastAct := eraseKey n l.lastAct })
  | .getLastAct, r, s => need (r.Perm s.lobby.lastAct) s
  | .assignLastAct x, _, s => some (s.onLobby fun l => { l with lastAct := x })
  | .loadThrottle, r, s => need (r = s.lobby.throttle) s
  | .storeThrottle v, _, s => some (s.onLobby fun l => { l with throttle := v })
  | .lockPool c, _, s =>
    need ((s.chan c).mtx = none)
      ((s.onChan c fun ch => { ch with mtx := some t, unpublished := ∅ }).onAux t fun x =>
        { x with placed := none })
  | .unlockPool c, _, s =>
    some ((s.onChan c fun ch => { ch with mtx := none, unpublished := ∅ }).onAux t fun x =>
      { x with placed := none })
  | .pingPool c, r, s =>
    need (r = decide ((s.base (.chan c)).clients.card + (s.chan c).joinPool.length
        < asSize (s.base (.chan c)).maxFd)) s
  | .emplaceJoin c n m, _, s =>
    some ((s.onChan c fun ch => { ch with
      joinPool := emplace n m ch.joinPool, unpublished := insert n ch.unpublished }).onAux t fun x =>
        { x with known := none, placed := some (c, n, false) })
  | .emplaceLeave c n m, _, s =>
    some ((s.onChan c fun ch => { ch with leavePool := emplace n m ch.leavePool }).onAux t fun x =>
      { x with
        known := none
        placed := x.placed.map fun p => if p.2.1 = n then (p.1, n, true) else p })
  | .insertDeletionAt c n, _, s =>
    some ((s.onBase (.chan c) fun b =>
      { b with nextDeletion := insert n b.nextDeletion }).addLog (.evicted c n))
  | .loadStop c, r, s =>
    need (r = (s.chan c).stopFlag ∧ (t = .chan c → (s.chan c).worker = .running)) s
  | .storeStop c b, _, s => some (s.onChan c fun ch => { ch with stopFlag := b })
  | .loadEmptySince c, r, s => need (r = (s.chan c).emptySince) s
  | .storeEmptySince c v, _, s => some (s.onChan c fun ch => { ch with emptySince := v })
  | .joinable c, r, s => need (r = decide ((s.chan c).worker ≠ .absent)) s
  | .joinWorker c, _, s =>
    need ((s.chan c).worker = .ended) (s.onChan c fun ch => { ch with worker := .absent })
  | .startWorker c, true, s => some (s.onChan c fun ch => { ch with worker := .running })
  | .startWorker c, false, s => some (s.addLog (.spawnFailed c (decide (c ∈ s.lobby.ids))))
  | .exitThread, _, s => some (s.onChan (own t) fun ch => { ch with worker := .ended })
  | .takeJoinPool, r, s =>
    need (r.Perm (s.chan (own t)).joinPool)
      (s.onChan (own t) fun ch => { ch with joinPool := [], joining := keys r })
  | .takeLeavePool, r, s =>
    need (r.Perm (s.chan (own t)).leavePool)
      (s.onChan (own t) fun ch => { ch with leavePool := [], leaving := keys r })
  | .joinPoolEmpty, r, s => need (r = (s.chan (own t)).joinPool.isEmpty) s
  | .pushMq n m, _, s => some (s.onChan (own t) fun ch => { ch with mq := ch.mq ++ [(n, m)] })
  | .popMq, r, s =>
    need (r = (s.chan (own t)).mq) (s.onChan (own t) fun ch => { ch with mq := [] })
  | .clearCurMsgs, _, s => some (s.onChan (own t) fun ch => { ch with curMsgs := [] })
  | .emplaceCurMsg x n m, _, s =>
    some (s.onChan (own t) fun ch => { ch with curMsgs := multimapEmplace x (n, m) ch.curMsgs })
  | .getCurMsgs, r, s => need (r = (s.chan (own t)).curMsgs) s
  | .newTracker c m, _, s =>
    some (((s.onBase (.chan c) fun _ => Base.fresh m).onChan c fun _ => Chan.fresh).addLog
      (.renewed (.chan c)))
  | .getListenFd, r, s => need (r = s.listenFd) s
  | .listenSocket, none, s => some s
  | .listenSocket, some n, s =>
    need (0 ≤ n ∧ s.file n = none) { s.openFile n .socket with listenFd := n }
  | .bindListen, true, s =>
    need (s.file s.listenFd = some .socket)
      { s.openFile s.listenFd (.listener s.nextListener) with nextListener := s.nextListener + 1 }
  | .bindListen, false, s => some s
  | .epollCreate _, none, s => some s
  | .epollCreate c, some e, s =>
    need (0 ≤ e ∧ s.file e = none)
      ((s.openFile e (.epoll ∅)).onBase (.chan c) fun b => { b with efd := e })
  | .epollAddListener c, true, s =>
    need (¬ s.addImpossible (.chan c) s.listenFd)
      (s.onInterest (.chan c) fun i => insert s.listenFd i)
  | .epollAddListener _, false, s => some s
  | .newSession c count, _, s =>
    some (s.onBase (.chan c) fun b => { b with runner := b.runner ++ List.replicate count [] })
  | .pushBack c which x, r, s =>
    need ((s.chan c).ticking = false ∧ r = decide (which < (s.base (.chan c)).runner.length))
      (s.onBase (.chan c) fun b => { b with runner := pushTask false which x b.runner })
  | .pushFront c which x, r, s =>
    need ((s.chan c).ticking = false ∧ r = decide (which < (s.base (.chan c)).runner.length))
      (s.onBase (.chan c) fun b => { b with runner := pushTask true which x b.runner })
  | .getEfd c, r, s =>
    need (r = (s.base (.chan c)).efd) (s.onAux t fun x => { x with scrapped := some (c, false) })
  | .trackedBy c, r, s => need (r.Nodup ∧ r.toFinset = (s.base (.chan c)).clients) s
  | .epollDel c n, _, s => some (s.onInterest (.chan c) fun i => i.erase n)
  | .dropTracker c, _, s =>
    some ((((s.onBase (.chan c) fun b => Base.fresh b.maxFd).onChan c fun _ => Chan.fresh).onAux t
      fun x => { x with scrapped := none }).addLog (.renewed (.chan c)))
  | .closeListener, _, s =>
    some { s.closeFile s.listenFd with listenFd := fdErr }

end ChatChannel
