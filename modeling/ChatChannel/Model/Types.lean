import ChatChannel.Wire.Frame

/-!
# Data types of the server

The transfer objects of `libs/dto.h`, the numbers of `libs/socket.h` and `libs/util.h`, the
tasks of the task runner, and the interface of the JSON library. Jansson is not part of the
repository: `Jansson` lists the operations the server calls, and every program of the model takes
one as a parameter.
-/

set_option autoImplicit false

namespace ChatChannel

/-- `fd_t`. -/
abbrev Fd := Int

/-- `FD_ERR`. -/
def fdErr : Fd := -1

/-- `ch_id_t`. -/
abbrev ChId := UInt32

/-- `msec64`. -/
abbrev Msec64 := UInt64

/-- A server object, and the thread that runs it: the lobby on the main thread, each channel on
its worker. -/
inductive Srv
  | lobby
  | chan (c : ChId)
  deriving DecidableEq

inductive MsgType
  | user
  | system
  deriving DecidableEq

structure MessageReqDto where
  type : MsgType
  text : Bytes
  timestamp : Msec64
  userName : Bytes
  channelId : ChId
  deriving DecidableEq

/-- `JoinReqDto`, without the `user_name` that nothing sets or reads. -/
structure JoinReqDto where
  chFrom : ChId
  chTo : ChId
  timestamp : Msec64
  deriving DecidableEq

/-- `ChannelServer::ChannelReport` of type `JOIN`. `ptr` is the address of the `JoinReqDto` that
the report's union points to. `author` is for specifications only: the connection whose frame
made the channel report. -/
structure ChannelReport where
  from' : Fd
  ptr : Nat
  join : JoinReqDto
  author : Option Nat
  deriving DecidableEq

/-- The exceptions the server throws. -/
inductive Err
  | initFailed
  | pollFailed
  | recvFailed
  | disconnectedByFin
  | frame (e : FrameErr)
  | sendTooLarge
  | sendFailed
  | addFailed
  | poolFull
  | deleteFailed
  | sessionOutOfRange
  | threadFailed
  deriving DecidableEq

/-- `polling`'s view of an event: `EPOLLHUP | EPOLLERR`, and `EPOLLIN`. -/
structure PollEv where
  fd : Fd
  hup : Bool
  inp : Bool
  deriving DecidableEq

/-- Answer of `recv`. -/
inductive RecvRes
  | chunk (b : Bytes)
  | again
  | fin
  | error
  deriving DecidableEq

/-- Answer of `ConnectionTracker::add_client`: the exceptions with a code are told apart. -/
inductive AddRes
  | ok
  | full
  | failed
  deriving DecidableEq

/-- The lambdas the constructors push into the task runner. -/
inductive Task
  | clearDeletion
  | polling
  | handleEvents
  | resolveDeletion
  | clearCurMsgs
  | chat
  | resolvePool
  | consumeReport
  | housekeeping
  deriving DecidableEq

/-- `TS_PRE`, `TS_POLL`, `TS_LOGIC` as indices. -/
def tsPre : Nat := 0
def tsPoll : Nat := 1
def tsLogic : Nat := 2
def tsCount : Nat := 3

/-- A value given to `json_pack`. -/
inductive PackVal
  | str (b : Bytes)
  | int (i : Int)
  deriving DecidableEq

/-- The operations of the JSON library. `str` and `int` are one step of `json_unpack`: the member
with that key, if it has the type the format asks for. -/
structure Jansson where
  Json : Type
  loads : Bytes → Option Json
  str : Json → Bytes → Option Bytes
  int : Json → Bytes → Option Int
  pack : List (Bytes × PackVal) → Option Json
  dumpArray : List Json → Option Bytes

/-! ## Unordered maps as association lists

`emplace` keeps an entry that is there, `assign` replaces it; the order of the list stands for
nothing, iteration goes over an arbitrary permutation. -/

section AssocList

variable {κ ν : Type}

def keys (l : List (κ × ν)) : List κ := l.map Prod.fst

@[simp] theorem keys_nil : keys ([] : List (κ × ν)) = [] := rfl

theorem keys_perm {l l' : List (κ × ν)} (h : l.Perm l') : (keys l).Perm (keys l') :=
  h.map _

variable [DecidableEq κ]

def emplace (k : κ) (v : ν) (l : List (κ × ν)) : List (κ × ν) :=
  if k ∈ keys l then l else l ++ [(k, v)]

def eraseKey (k : κ) (l : List (κ × ν)) : List (κ × ν) := l.filter fun p => p.1 ≠ k

def assign (k : κ) (v : ν) (l : List (κ × ν)) : List (κ × ν) := eraseKey k l ++ [(k, v)]

theorem mem_keys_emplace {k k' : κ} {v : ν} {l : List (κ × ν)} :
    k' ∈ keys (emplace k v l) ↔ k' = k ∨ k' ∈ keys l := by
  unfold emplace
  split
  · rename_i h
    constructor
    · exact Or.inr
    · rintro (rfl | h')
      · exact h
      · exact h'
  · simp only [keys, List.map_append, List.map_cons, List.map_nil, List.mem_append,
      List.mem_singleton]
    exact or_comm

theorem length_emplace_le (k : κ) (v : ν) (l : List (κ × ν)) :
    (emplace k v l).length ≤ l.length + 1 := by
  unfold emplace
  split <;> simp

end AssocList

end ChatChannel
