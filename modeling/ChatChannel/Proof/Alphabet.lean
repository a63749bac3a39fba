import ChatChannel.Model.Server

/-!
# Which calls are made where

The functions below `find_or_create_channel`, `join_and_logging` and `leave_and_logging` make calls of
one kind only, and so do the requests. Whatever these calls leave alone, the functions do.
-/

set_option autoImplicit false

namespace ChatChannel

open Conc

/-- The calls that make, restart, destroy and fill channels. -/
def Managing : Act → Prop
  | .findChannel _ | .insertChannel _ | .newTracker _ _ | .getListenFd | .listenSocket | .bindListen
  | .epollCreate _ | .epollAddListener _ | .newSession _ _ | .pushBack _ _ _ | .pushFront _ _ _
  | .getEfd _ | .trackedBy _ | .epollDel _ _ | .close _ | .closeListener | .dropTracker _
  | .loadStop _ | .storeStop _ _ | .storeEmptySince _ _ | .joinable _ | .joinWorker _
  | .startWorker _ | .getUserName _ | .emplaceJoin _ _ _ | .emplaceLeave _ _ _
  | .insertDeletionAt _ _ | .stall => True
  | _ => False

/-- Of these, the ones that make a channel, or destroy it again. -/
def Founding : Act → Prop
  | .findChannel _ | .insertChannel _ | .newTracker _ _ | .getListenFd | .listenSocket | .bindListen
  | .epollCreate _ | .epollAddListener _ | .newSession _ _ | .pushBack _ _ _ | .pushFront _ _ _
  | .getEfd _ | .trackedBy _ | .epollDel _ _ | .close _ | .closeListener | .dropTracker _
  | .storeStop _ _ | .startWorker _ | .stall => True
  | _ => False

/-- Of these, the ones that take a client in, or let go of it. -/
def Enrolling : Act → Prop
  | .loadStop _ | .storeStop _ _ | .storeEmptySince _ _ | .joinable _ | .joinWorker _
  | .startWorker _ | .getUserName _ | .emplaceJoin _ _ _ | .emplaceLeave _ _ _
  | .insertDeletionAt _ _ => True
  | _ => False

/-- Of these, the ones that a constructor makes on its object and on the listening socket. -/
def Building : Act → Prop
  | .getListenFd | .listenSocket | .bindListen | .epollCreate _ | .epollAddListener _
  | .newSession _ _ | .pushBack _ _ _ | .pushFront _ _ _ => True
  | _ => False

/-- What the constructor and the destructor of channel `c` call, when it is to take `m` clients. -/
def FoundingOf (c : ChId) (m : Int32) : Act → Prop
  | .newTracker d k => d = c ∧ k = m
  | .dropTracker d => d = c
  | .storeStop d b => d = c ∧ b = false
  | .findChannel _ | .insertChannel _ | .stall => False
  | a => Founding a

section

variable (P : Params)

theorem Founding.managing {a : Act} (ha : Founding a) : Managing a := by
  cases a <;> first | exact trivial | exact ha.elim

theorem FoundingOf.founding {c : ChId} {m : Int32} {a : Act} (ha : FoundingOf c m a) : Founding a := by
  cases a <;> first | exact trivial | exact ha

theorem building_trackerInit (c : ChId) : (trackerInit c).All Building := by
  refine .bind (.perform trivial) fun r => ?_
  cases r with
  | none => trivial
  | some n =>
    refine .bind (.perform trivial) fun b => ?_
    cases b <;> trivial

theorem building_setNetwork : setNetwork.All Building := by
  refine .bind (.perform trivial) fun r => ?_
  cases r with
  | none => trivial
  | some n =>
    refine .bind (.perform trivial) fun b => ?_
    cases b <;> trivial

theorem building_pushb (c : ChId) (w : Nat) (t : Task) : (pushb c w t).All Building := by
  refine .bind (.perform trivial) fun b => ?_
  cases b <;> trivial

theorem building_pushf (c : ChId) (w : Nat) (t : Task) : (pushf c w t).All Building := by
  refine .bind (.perform trivial) fun b => ?_
  cases b <;> trivial

/-- What the constructor of `ServerBase` does under its handler. -/
theorem building_init (c : ChId) : (do
    if (← call .getListenFd) = fdErr then setNetwork
    trackerInit c
    call (.newSession c tsCount)
    pushb c tsPre .clearDeletion
    pushb c tsPoll .polling
    pushb c tsPoll .handleEvents
    pushb c tsLogic .resolveDeletion : Code Unit).All Building := by
  refine .bind (.perform trivial) fun n => ?_
  have hrest : (do
      trackerInit c
      call (.newSession c tsCount)
      pushb c tsPre .clearDeletion
      pushb c tsPoll .polling
      pushb c tsPoll .handleEvents
      pushb c tsLogic .resolveDeletion : Code Unit).All Building :=
    .bind (building_trackerInit c) fun _ => .bind (.perform trivial) fun _ =>
      .bind (building_pushb c _ _) fun _ => .bind (building_pushb c _ _) fun _ =>
        .bind (building_pushb c _ _) fun _ => building_pushb c _ _
  split
  · exact .bind building_setNetwork fun _ => hrest
  · exact hrest

theorem foundingOf_of_building {c : ChId} {m : Int32} {α : Type} {p : Code α} (hp : p.All Building) :
    p.All (FoundingOf c m) :=
  hp.mono fun a ha => by cases a <;> first | exact trivial | exact ha.elim

theorem foundingOf_serverBase (c : ChId) (m : Int32) : (serverBase c m).All (FoundingOf c m) :=
  .bind (.perform ⟨rfl, rfl⟩) fun _ =>
    .handle (foundingOf_of_building (building_init c)) fun _ => trivial

theorem foundingOf_destroyServerBase (c : ChId) (m : Int32) :
    (destroyServerBase c).All (FoundingOf c m) := by
  refine .bind (.perform trivial) fun e => .bind (.perform trivial) fun l => ?_
  have hend : (do
      if (← call .getListenFd) ≠ fdErr then call .closeListener
      call (.dropTracker c) : Code Unit).All (FoundingOf c m) := by
    refine .bind (.perform trivial) fun n => ?_
    split
    · exact .bind (.perform trivial) fun _ => .perform rfl
    · exact .perform rfl
  split
  · refine .bind (.forEach (fun n => ?_) l) fun _ => .bind (.perform trivial) fun _ => hend
    refine .bind (.perform trivial) fun _ => ?_
    split <;> first | exact .perform trivial | trivial
  · refine .bind (.forEach (fun n => ?_) l) fun _ => hend
    split <;> first | exact .perform trivial | trivial

theorem foundingOf_newChannel (c : ChId) (m : Int32) : (newChannel c m).All (FoundingOf c m) := by
  refine .bind (foundingOf_serverBase c m) fun _ => .handle ?_ fun e =>
    .bind (foundingOf_destroyServerBase c m) fun _ => trivial
  refine .bind (foundingOf_of_building (building_pushb c _ _)) fun _ =>
    .bind (foundingOf_of_building (building_pushf c _ _)) fun _ =>
      .bind (.perform ⟨rfl, rfl⟩) fun _ => .bind (.perform trivial) fun b => ?_
  cases b
  · trivial
  · exact foundingOf_of_building (building_pushf c _ _)

theorem founding_destroyServerBase (c : ChId) : (destroyServerBase c).All Founding :=
  (foundingOf_destroyServerBase c 0).mono fun _ => FoundingOf.founding

theorem founding_newChannel (c : ChId) (m : Int32) : (newChannel c m).All Founding :=
  (foundingOf_newChannel c m).mono fun _ => FoundingOf.founding

theorem founding_getChannel (c : ChId) : (getChannel P c).All Founding := by
  refine .bind (.perform trivial) fun b => ?_
  cases b
  · exact .bind (founding_newChannel c _) fun _ => .perform trivial
  · trivial

theorem all_freshId {H : Act → Prop} (hfind : ∀ c, H (.findChannel c)) (hstall : H .stall) :
    ∀ (fuel : Nat) (c : ChId), (freshId fuel c).All H
  | 0, _ => .bind (.perform hstall) fun _ => trivial
  | fuel + 1, c => .bind (.perform (hfind c)) fun b => by
      cases b
      · trivial
      · exact all_freshId hfind hstall fuel (c + 1)

theorem managing_getChannel (c : ChId) : (getChannel P c).All Managing :=
  (founding_getChannel P c).mono fun _ => Founding.managing

theorem managing_freshId (fuel : Nat) (c : ChId) : (freshId fuel c).All Managing :=
  all_freshId (fun _ => trivial) trivial fuel c

theorem enrolling_join (c : ChId) (n : Fd) (m : MessageReqDto) : (join c n m).All Enrolling := by
  refine .bind (.perform trivial) fun b => ?_
  cases b
  · exact .perform trivial
  · have hstart : (do
        unless ← call (.startWorker c) do throw Err.threadFailed
        call (.storeStop c false)
        call (.storeEmptySince c 0)
        call (.emplaceJoin c n m) : Code Unit).All Enrolling := by
      refine .bind (.perform trivial) fun b => ?_
      cases b
      · trivial
      · exact .bind (.perform trivial) fun _ => .bind (.perform trivial) fun _ => .perform trivial
    refine .bind (.perform trivial) fun b => ?_
    cases b
    · exact hstart
    · exact .bind (.perform trivial) fun _ => hstart

theorem enrolling_hand_over (c : ChId) (n : Fd) (ts : Msec64) (re : Bool) :
    (joinAndLogging c n ts re).All Enrolling ∧ (leaveAndLogging c n ts).All Enrolling := by
  constructor
  · refine .handle (.bind (.perform trivial) fun o => ?_) fun _ => trivial
    cases o
    · trivial
    · exact enrolling_join c n _
  · refine .handle (.bind (.perform trivial) fun o => ?_) fun _ => trivial
    cases o <;> exact .perform trivial

theorem Enrolling.managing {a : Act} (ha : Enrolling a) : Managing a := by
  cases a <;> first | exact trivial | exact ha.elim

theorem managing_join (c : ChId) (n : Fd) (m : MessageReqDto) : (join c n m).All Managing :=
  (enrolling_join c n m).mono fun _ => Enrolling.managing

theorem managing_hand_over (c : ChId) (n : Fd) (ts : Msec64) (re : Bool) :
    (joinAndLogging c n ts re).All Managing ∧ (leaveAndLogging c n ts).All Managing :=
  ⟨(enrolling_hand_over c n ts re).1.mono fun _ => Enrolling.managing,
    (enrolling_hand_over c n ts re).2.mono fun _ => Enrolling.managing⟩

/-! ## Requests -/

/-- The calls made for a request, apart from `on_frame` itself. -/
def Requesting : Act → Prop
  | .setUserName _ _ | .lockPool _ | .unlockPool _ | .pingPool _ | .channelIds | .deleteClient _
  | .eraseLastAct _ | .pushMq _ _ | .newJoinReq | .report _ _ _ => True
  | a => Managing a

/-- The calls that look for a channel with room. -/
def Searching : Act → Prop
  | .lockPool _ | .unlockPool _ | .pingPool _ | .channelIds => True
  | a => Founding a

theorem searching_getChannel (c : ChId) : (getChannel P c).All Searching :=
  (founding_getChannel P c).mono fun a ha => by
    cases a <;> first | exact trivial | exact ha.elim

theorem searching_tryChannel (pref c : ChId) : (tryChannel P pref c).All Searching := by
  unfold tryChannel
  split
  · trivial
  · refine .bind (searching_getChannel P c) fun _ =>
      .bind (.perform trivial) fun _ => .bind (.perform trivial) fun b => ?_
    cases b
    · exact .bind (.perform trivial) fun _ => trivial
    · trivial

theorem searching_findOrCreateChannel (pref : ChId) :
    (findOrCreateChannel P pref).All Searching := by
  refine .bind (searching_getChannel P pref) fun _ =>
    .bind (.perform trivial) fun _ => .bind (.perform trivial) fun b => ?_
  cases b with
  | true => trivial
  | false =>
    refine .bind (.perform trivial) fun _ => .bind (.perform trivial) fun ids =>
      .bind (.firstSome (searching_tryChannel P pref) ids) fun o => ?_
    cases o with
    | some c => trivial
    | none =>
      exact .bind (all_freshId (fun _ => trivial) trivial _ _) fun newId =>
        .bind (searching_getChannel P newId) fun _ => .bind (.perform trivial) fun _ => trivial

theorem all_trackerDelete {H : Act → Prop} {n : Fd} (h : H (.deleteClient n)) :
    (trackerDelete n).All H := by
  refine .bind (.perform h) fun b => ?_
  cases b <;> trivial

/-- The calls the lobby makes for a request. -/
def Placing : Act → Prop
  | .setUserName _ _ | .lockPool _ | .unlockPool _ | .pingPool _ | .channelIds | .deleteClient _
  | .eraseLastAct _ => True
  | a => Managing a

theorem placing_lobbyOnReq (n : Fd) (target : Bytes) (root : P.js.Json) :
    (lobbyOnReq P n target root).All Placing := by
  have hfind (pref : ChId) : (findOrCreateChannel P pref).All Placing :=
    (searching_findOrCreateChannel P pref).mono fun a ha => by
      cases a <;> first | exact trivial | exact ha.elim
  have hjoin (c : ChId) (ts : Msec64) : (joinAndLogging c n ts false).All Placing :=
    (managing_hand_over c n ts false).1.mono fun a ha => by
      cases a <;> first | exact trivial | exact ha
  unfold lobbyOnReq
  split
  · cases unpackLobbyJoin P.js root with
    | none => trivial
    | some q =>
      exact .bind (.perform trivial) fun _ => .bind (hfind _) fun c => .bind (hjoin c _) fun _ =>
        .bind (all_trackerDelete trivial) fun _ => .bind (.perform trivial) fun _ => .perform trivial
  · trivial

theorem requesting_lobbyOnReq (n : Fd) (target : Bytes) (root : P.js.Json) :
    (lobbyOnReq P n target root).All Requesting :=
  (placing_lobbyOnReq P n target root).mono fun a ha => by
    cases a <;> first | exact trivial | exact ha

/-- The calls a channel makes for a request. -/
def Asking : Act → Prop
  | .getUserName _ | .pushMq _ _ | .newJoinReq | .report _ _ _ => True
  | _ => False

theorem asking_channelOnReq (js : Jansson) (c : ChId) (n : Fd) (target : Bytes) (root : js.Json) :
    (channelOnReq js c n target root).All Asking := by
  unfold channelOnReq
  split
  · unfold chatOnReq
    split
    · cases unpackMessage js root with
      | none => trivial
      | some q =>
        refine .bind (.perform trivial) fun o => ?_
        cases o
        · trivial
        · exact .perform trivial
    · trivial
  · split
    · cases unpackChannelJoin js root with
      | none => trivial
      | some q =>
        dsimp only
        split
        · trivial
        · exact .bind (.perform trivial) fun _ => .perform trivial
    · trivial

theorem requesting_channelOnReq (js : Jansson) (c : ChId) (n : Fd) (target : Bytes) (root : js.Json) :
    (channelOnReq js c n target root).All Requesting :=
  (asking_channelOnReq js c n target root).mono fun a ha => by
    cases a <;> first | exact trivial | exact ha.elim

/-! ## Reading -/

/-- The calls of `recv_frame`. -/
def FromWire (n : Fd) : Act → Prop
  | .recv m | .decode m => m = n
  | .stall => True
  | _ => False

theorem fromWire_recvFrame (n : Fd) : (recvFrame P n).All (FromWire n) := by
  have hloop : ∀ fuel, (recvLoop n fuel).All (FromWire n) := by
    intro fuel
    induction fuel with
    | zero => exact .perform trivial
    | succ fuel ih =>
      refine .bind (.perform rfl) fun r => ?_
      cases r with
      | chunk b =>
        dsimp only
        split
        · trivial
        · exact ih
      | again => trivial
      | fin => trivial
      | error => trivial
  refine .bind (hloop _) fun _ => .bind (.perform rfl) fun r => ?_
  cases r <;> trivial

/-! ## The tasks of a worker -/

/-- The calls of a worker in `handle_events`. -/
def EventCall : Act → Prop
  | .isListener _ | .accept | .insertDeletion _ | .recv _ | .decode _ | .stall | .onFrame _ _
  | .endRecv | .getUserName _ | .pushMq _ _ | .newJoinReq | .report _ _ _ => True
  | _ => False

theorem eventCall_handleEvents (c : ChId) (ev : PollEv) :
    (handleEvents P (.chan c) ev).All EventCall := by
  refine .bind (.perform trivial) fun b => ?_
  cases b with
  | true =>
    refine .bind (.perform trivial) fun o => ?_
    cases o <;> trivial
  | false =>
    simp only [Bool.false_eq_true, if_false]
    split
    · exact .perform trivial
    · split
      · refine .handle (.bind ((fromWire_recvFrame P _).mono fun a ha => ?_) fun fs =>
          .bind (.forEach (fun f => ?_) fs) fun _ => .perform trivial) fun e =>
            .bind (.perform trivial) fun _ => .perform trivial
        · cases a <;> first | exact trivial | exact ha.elim
        · refine .bind (.perform trivial) fun _ => ?_
          cases requestOf P.js f with
          | none => trivial
          | some q =>
            exact (asking_channelOnReq P.js c _ q.1 q.2).mono fun a ha => by
              cases a <;> first | exact trivial | exact ha.elim
      · trivial

/-- The calls of `resolve_pool` after it has taken the lock. -/
def PoolCall : Act → Prop
  | .takeJoinPool | .addClient _ | .takeLeavePool | .deleteClient _ | .pushMq _ _ | .getClientCount
  | .joinPoolEmpty | .storeStop _ _ | .systemNow | .storeEmptySince _ _ | .unlockPool _ => True
  | _ => False

theorem poolCall_admitOne (x : Fd × MessageReqDto) : (admitOne x).All PoolCall := by
  refine .handle (.bind (.bind (.perform trivial) fun r => ?_) fun _ => .perform trivial)
    fun _ => trivial
  cases r <;> trivial

theorem poolCall_dismissOne (x : Fd × MessageReqDto) : (dismissOne x).All PoolCall :=
  .handle (.bind (all_trackerDelete trivial) fun _ => .perform trivial) fun _ => trivial

theorem poolCall_resolvePoolBody (c : ChId) : (resolvePoolBody c).All PoolCall := by
  refine .bind (.perform trivial) fun joins => .bind (.forEach poolCall_admitOne joins) fun _ =>
    .bind (.perform trivial) fun leaves => .bind (.forEach poolCall_dismissOne leaves) fun _ =>
      .bind (.perform trivial) fun k => ?_
  split
  · refine .bind (.perform trivial) fun b => ?_
    cases b
    · trivial
    · exact .bind (.perform trivial) fun _ => .bind (.perform trivial) fun _ => .perform trivial
  · trivial

/-- The calls of a channel's `resolve_deletion`. -/
def DeletionCall : Act → Prop
  | .getDeletion | .setCursor _ | .systemNow | .getUserName _ | .pushMq _ _ | .deleteClient _
  | .removeUserName _ | .close _ | .clearBuffer _ => True
  | _ => False

theorem deletionCall_resolveDeletion (c : ChId) : (channelResolveDeletion c).All DeletionCall := by
  refine .bind (.perform trivial) fun l => .bind (.forEach (fun n => ?_) l) fun _ => .perform trivial
  exact .bind (.perform trivial) fun _ => .bind (.perform trivial) fun _ =>
    .bind (.perform trivial) fun _ => .bind (.perform trivial) fun _ =>
      .bind (.handle (all_trackerDelete trivial) fun _ => trivial) fun _ => .bind (.perform trivial)
        fun _ => .bind (.perform trivial) fun _ => .perform trivial

end

end ChatChannel
