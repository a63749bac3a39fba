import ChatChannel.Conc.Schedule
import ChatChannel.Model.FlatJson
import ChatChannel.Model.Server

/-!
# Scripted runs

Inputs for `Conc.plays`: a turn of a server lists the events its `epoll_wait` returns, the answers
of its `recv` calls and the time. Everything else is answered as an idle kernel would: the lowest
free number, whole buffers sent, no failures. The last section has the pieces concrete runs are
written with.
-/

set_option autoImplicit false

namespace ChatChannel

open Conc

/-- The outside world during a turn. -/
structure Input where
  evs : List PollEv := []
  recvs : List RecvRes := []
  now : Msec64 := 1

/-- The lowest free descriptor, among the first few. -/
def lowestFree (s : St) : Fd :=
  (((List.range 32).map Int.ofNat).find? fun n => (s.file n).isNone).getD 32

/-- The elements of a small set in ascending order. -/
def listed (s : Finset Fd) : List Fd := ((List.range 32).map Int.ofNat).filter (· ∈ s)

/-- The answer of a kernel that has nothing to refuse. -/
def choose (t : Srv) : (a : Act) → St → Input → Option (Res a × Input)
  | .epollWait, _, i => some (some i.evs, i)
  | .accept, s, i => some (some (lowestFree s), i)
  | .recv _, _, i =>
    match i.recvs with
    | [] => some (.again, i)
    | r :: rs => some (r, { i with recvs := rs })
  | .send _ b, _, i => some (some b.length, i)
  | .close _, _, i => some ((), i)
  | .stall, _, _ => none
  | .getEv, s, i => some ((s.base t).events, i)
  | .addClient n, s, i =>
    some (if s.addRefused t n then .failed
      else if s.isFull t then .full
      else if s.addImpossible t n then .failed else .ok, i)
  | .deleteClient n, s, i => some (decide (s.deletable t n), i)
  | .getClients, s, i => some (listed (s.base t).clients, i)
  | .getClientCount, s, i => some ((s.base t).clients.card, i)
  | .decode n, s, i => some ((decodeFrames (((s.base t).rbuf n).getD [])).1, i)
  | .clearBuffer _, _, i => some ((), i)
  | .onFrame _ _, _, i => some ((), i)
  | .endRecv, _, i => some ((), i)
  | .isListener n, s, i => some (decide (n = s.listenFd), i)
  | .clearDeletion, _, i => some ((), i)
  | .insertDeletion _, _, i => some ((), i)
  | .getDeletion, s, i => some (listed (s.base t).nextDeletion, i)
  | .setCursor _, _, i => some ((), i)
  | .beginRun, s, i => some ((s.base t).runner, i)
  | .endRun, _, i => some ((), i)
  | .loadRunning, s, i => some (s.lobby.isRunning, i)
  | .getUserName n, s, i => some (s.names n, i)
  | .setUserName _ _, _, i => some ((), i)
  | .removeUserName _, _, i => some ((), i)
  | .systemNow, _, i => some (i.now, i)
  | .steadyNow, _, i => some (i.now.toNat, i)
  | .newJoinReq, s, i => some (s.nextPtr, i)
  | .deleteJoinReq _, _, i => some ((), i)
  | .report _ _ _, _, i => some ((), i)
  | .popReports, s, i => some (s.lobby.reports.length, i)
  | .nextReport, s, i => some (s.lobby.localQ.head?, i)
  | .dropReports, _, i => some ((), i)
  | .findChannel c, s, i => some (decide (c ∈ s.lobby.ids), i)
  | .channelIds, s, i => some (s.lobby.ids, i)
  | .insertChannel _, _, i => some ((), i)
  | .eraseChannel _, _, i => some ((), i)
  | .setLastAct _ _, _, i => some ((), i)
  | .eraseLastAct _, _, i => some ((), i)
  | .getLastAct, s, i => some (s.lobby.lastAct, i)
  | .assignLastAct _, _, i => some ((), i)
  | .loadThrottle, s, i => some (s.lobby.throttle, i)
  | .storeThrottle _, _, i => some ((), i)
  | .lockPool _, _, i => some ((), i)
  | .unlockPool _, _, i => some ((), i)
  | .pingPool c, s, i =>
    some (decide ((s.base (.chan c)).clients.card + (s.chan c).joinPool.length
      < asSize (s.base (.chan c)).maxFd), i)
  | .emplaceJoin _ _ _, _, i => some ((), i)
  | .emplaceLeave _ _ _, _, i => some ((), i)
  | .insertDeletionAt _ _, _, i => some ((), i)
  | .loadStop c, s, i => some ((s.chan c).stopFlag, i)
  | .storeStop _ _, _, i => some ((), i)
  | .loadEmptySince c, s, i => some ((s.chan c).emptySince, i)
  | .storeEmptySince _ _, _, i => some ((), i)
  | .joinable c, s, i => some (decide ((s.chan c).worker ≠ .absent), i)
  | .joinWorker _, _, i => some ((), i)
  | .startWorker _, _, i => some (true, i)
  | .exitThread, _, i => some ((), i)
  | .takeJoinPool, s, i => some ((s.chan (own t)).joinPool, i)
  | .takeLeavePool, s, i => some ((s.chan (own t)).leavePool, i)
  | .joinPoolEmpty, s, i => some ((s.chan (own t)).joinPool.isEmpty, i)
  | .pushMq _ _, _, i => some ((), i)
  | .popMq, s, i => some ((s.chan (own t)).mq, i)
  | .clearCurMsgs, _, i => some ((), i)
  | .emplaceCurMsg _ _ _, _, i => some ((), i)
  | .getCurMsgs, s, i => some ((s.chan (own t)).curMsgs, i)
  | .newTracker _ _, _, i => some ((), i)
  | .getListenFd, s, i => some (s.listenFd, i)
  | .listenSocket, s, i => some (some (lowestFree s), i)
  | .bindListen, _, i => some (true, i)
  | .epollCreate _, s, i => some (some (lowestFree s), i)
  | .epollAddListener _, _, i => some (true, i)
  | .newSession _ _, _, i => some ((), i)
  | .pushBack c which _, s, i => some (decide (which < (s.base (.chan c)).runner.length), i)
  | .pushFront c which _, s, i => some (decide (which < (s.base (.chan c)).runner.length), i)
  | .getEfd c, s, i => some ((s.base (.chan c)).efd, i)
  | .trackedBy c, s, i => some (listed (s.base (.chan c)).clients, i)
  | .epollDel _ _, _, i => some ((), i)
  | .dropTracker _, _, i => some ((), i)
  | .closeListener, _, i => some ((), i)

/-- The run a script describes. -/
def scripted (P : Params) (us : List (Turn Srv Input)) : Option (Played sig Srv St) :=
  plays (proc P) exec choose us ([], (server P).start (init P))

theorem run_of_scripted {P : Params} {us : List (Turn Srv Input)} {x : Played sig Srv St}
    (h : scripted P us = some x) : (server P).Run (init P) x.1 x.2 :=
  plays_run (M := server P) (fun _ _ _ _ _ h => h) .start h

/-- A decidable property of a scripted run is one of some run. -/
theorem exists_run {P : Params} (us : List (Turn Srv Input))
    {p : List (Event sig Srv St) → Config sig Srv St → Prop} [∀ tr c, Decidable (p tr c)]
    (h : (scripted P us).any (fun x => decide (p x.1 x.2)) = true) :
    ∃ tr c, (server P).Run (init P) tr c ∧ p tr c := by
  cases hx : scripted P us with
  | none =>
    rw [hx] at h
    cases h
  | some x =>
    rw [hx] at h
    exact ⟨x.1, x.2, run_of_scripted hx, of_decide_eq_true h⟩

instance : ∀ a : Act, DecidableEq (Res a) := fun a => by cases a <;> infer_instance

/-- One program, run by thread `t` from a given state without interference. -/
def executed {α : Type} (t : Srv) (p : Code α) (s : St) (i : Input) :
    Option (Hist sig × Except Err α × St) :=
  Solo.execute (exec t) (choose t) p s i

/-- A decidable property of such an execution is one of some execution. -/
theorem exists_exec {α : Type} {t : Srv} {rely : St → St → Prop} (hrefl : ∀ s, rely s s) {p : Code α}
    {s : St} (i : Input) {q : Hist sig → Except Err α → St → Prop} [∀ es out s', Decidable (q es out s')]
    (h : (executed t p s i).any (fun x => decide (q x.1 x.2.1 x.2.2)) = true) :
    ∃ es out s', (lone t rely).Exec p s es out s' ∧ q es out s' := by
  cases hx : executed t p s i with
  | none =>
    rw [hx] at h
    cases h
  | some x =>
    rw [hx] at h
    exact ⟨x.1, x.2.1, x.2.2, Solo.exec_of_execute (W := lone t rely) (fun _ _ _ _ h => h) hrefl hx,
      of_decide_eq_true h⟩

/-- The same for an execution that makes only calls for which `F` holds, with other answers. -/
theorem exists_restricted {α X : Type} {t : Srv} {rely : St → St → Prop} {F : Act → St → Prop}
    [∀ a s, Decidable (F a s)] (hrefl : ∀ s, rely s s)
    (answer : (a : Act) → St → X → Option (Res a × X)) {p : Code α} {s : St} (i : X)
    {q : Hist sig → Except Err α → St → Prop} [∀ es out s', Decidable (q es out s')]
    (h : (Solo.execute (fun a r s => if F a s then exec t a r s else none) answer p s i).any
      (fun x => decide (q x.1 x.2.1 x.2.2)) = true) :
    ∃ es out s', ((lone t rely).restrict F).Exec p s es out s' ∧ q es out s' := by
  obtain ⟨⟨es, out, s'⟩, hx, hq⟩ := (Option.any_eq_true _ _).mp h
  refine ⟨es, out, s', Solo.exec_of_execute (W := (lone t rely).restrict F) (fun a r s s' hs => ?_) hrefl
    hx, of_decide_eq_true hq⟩
  split at hs
  · rename_i hF
    exact ⟨hF, hs⟩
  · cases hs

/-- The same for an execution during which other threads act: before call `a` they make `meddle a s` of
the state `s`. -/
theorem exists_disturbed {α : Type} {t : Srv} {rely : St → St → Prop} {meddle : Act → St → St}
    (hmeddle : ∀ a s, rely s (meddle a s)) {p : Code α} {s : St} (i : Input)
    {q : Hist sig → Except Err α → St → Prop} [∀ es out s', Decidable (q es out s')]
    (h : (Solo.execute (fun a r s => exec t a r (meddle a s)) (fun a s => choose t a (meddle a s)) p s i).any
      (fun x => decide (q x.1 x.2.1 x.2.2)) = true) :
    ∃ es out s', (lone t rely).Exec p s es out s' ∧ q es out s' := by
  obtain ⟨⟨es, out, s'⟩, hx, hq⟩ := (Option.any_eq_true _ _).mp h
  have hrun := Solo.exec_of_execute (W := ⟨fun a r s s' => exec t a r (meddle a s) = some s', Eq⟩)
    (fun _ _ _ _ h => h) (fun _ => rfl) hx
  refine ⟨es, out, s', hrun.imp fun a r s s₁ s₂ hr hs => ?_, of_decide_eq_true hq⟩
  cases hr
  exact ⟨meddle a s, hmeddle a s, hs⟩

/-! ## Pieces of concrete runs -/

/-- The server as `main` starts it without arguments. -/
def sample : Params where
  js := FlatJson.js
  lobbyMaxFd := 32
  chMaxFd := 32
  maxReads := 4

/-- A whole tick. -/
def tick (v : Srv) (i : Input) : Turn Srv Input := ⟨v, 1000, i⟩

/-- A client connects. -/
def connects : Input := { evs := [⟨lobbyListener, false, true⟩] }

/-- Bytes arrive on a descriptor. -/
def sends (n : Fd) (b : Bytes) : Input := { evs := [⟨n, false, true⟩], recvs := [.chunk b] }

/-- The peer resets the connection. -/
def hangsUp (n : Fd) : Input := { evs := [⟨n, true, true⟩] }

/-- The first join of a client, sent to the lobby. -/
def joinFrame (c : Nat) : Bytes :=
  encodeFrame (ascii "\x7b\"type\":\"join\",\"channel_id\":" ++ FlatJson.digits c ++
    ascii ",\"timestamp\":1,\"user_name\":\"ann\"\x7d")

/-- A later join, sent to a channel. -/
def switchFrame (c : Nat) : Bytes :=
  encodeFrame (ascii "\x7b\"type\":\"join\",\"channel_id\":" ++ FlatJson.digits c ++
    ascii ",\"timestamp\":2\x7d")

def messageFrame : Bytes :=
  encodeFrame (ascii "\x7b\"type\":\"message\",\"text\":\"hi\",\"timestamp\":3\x7d")

/-- A client connects and joins channel `c`; the channel takes it in. -/
def settles (n : Fd) (c : Nat) : List (Turn Srv Input) :=
  [tick .lobby connects, tick .lobby (sends n (joinFrame c)), tick (.chan (.ofNat c)) {}]

end ChatChannel
