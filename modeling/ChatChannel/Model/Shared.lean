import Mathlib.Data.Finset.Card
import ChatChannel.Conc.Monitor
import ChatChannel.Model.Types

/-!
# Objects with a mutex of their own

`libs/producer_consumer.tpp`, `libs/connection_tracker.cpp`, `server/user_manager.cpp` and `libs/task_runner.tpp`: the
methods as they work on the members, access by access, under the mutex of the object (`Conc/Monitor.lean`). The calls of
`Model/Action.lean` have each of them, but for a run of the tasks, in one step.

What the language leaves undefined is an exception of its own here.
-/

set_option autoImplicit false

namespace ChatChannel

open Conc

/-! ## `ProducerConsumerQueue` -/

namespace ProducerConsumerQueue

variable {T : Type}

/-- `queue_` and `stopped_`. -/
structure Members (T : Type) where
  queue : List T
  stopped : Bool
  deriving DecidableEq

inductive Access (T : Type)
  | empty
  | front
  | pop
  | push (item : T)
  | swap
  | size
  | loadStopped
  | storeStopped

abbrev AccessRes : Access T → Type
  | .empty => Bool
  | .front => Option T
  | .pop => Bool
  | .swap => List T
  | .size => Nat
  | .loadStopped => Bool
  | _ => Unit

/-- `front` or `pop` on an empty queue. -/
inductive Undefined
  | emptyQueue
  deriving DecidableEq

abbrev accesses (T : Type) : Sig := ⟨Access T, AccessRes, Undefined⟩

def step : (a : Access T) → AccessRes a → Members T → Members T → Prop
  | .empty, r, d, d' => r = d.queue.isEmpty ∧ d' = d
  | .front, r, d, d' => r = d.queue.head? ∧ d' = d
  | .pop, r, d, d' => r = !d.queue.isEmpty ∧ d' = { d with queue := d.queue.tail }
  | .push x, _, d, d' => d' = { d with queue := d.queue ++ [x] }
  | .swap, r, d, d' => r = d.queue ∧ d' = { d with queue := [] }
  | .size, r, d, d' => r = d.queue.length ∧ d' = d
  | .loadStopped, r, d, d' => r = d.stopped ∧ d' = d
  | .storeStopped, _, d, d' => d' = { d with stopped := true }

/-- One access. -/
abbrev access (a : Access T) : Prog (accesses T) (AccessRes a) := Prog.perform (S := accesses T) a

/-- `out_item = std::move(queue_.front()); queue_.pop();` -/
def takeFront : Prog (accesses T) T := do
  match ← access .front with
  | none => throw Undefined.emptyQueue
  | some x => do
    unless ← access .pop do throw Undefined.emptyQueue
    pure x

inductive Op (T : Type)
  | push (item : T)
  | waitAndPop
  | tryPop
  | popAll
  | empty
  | size
  | stop

/-- The answers. A method that returns `false` has no item. -/
abbrev Out : Op T → Type
  | .waitAndPop => Option T
  | .tryPop => Option T
  | .popAll => List T
  | .empty => Bool
  | .size => Nat
  | _ => Unit

/-- The predicate of `wait_and_pop`: `stopped_ || !queue_.empty()`. -/
def ready : Prog (accesses T) Bool := do
  if ← access .loadStopped then pure true
  else pure !(← access .empty)

/-- `wait_and_pop` from the evaluation of its predicate on. -/
def waitAndPop : Prog (accesses T) (Option (Option T)) := do
  if ← ready then
    let finished ← do
      if ← access .loadStopped then access .empty else pure false
    if finished then pure (some none)
    else pure (some (some (← takeFront)))
  else pure none

/-- `try_pop`. -/
def tryPop : Prog (accesses T) (Option (Option T)) := do
  if ← access .empty then pure (some none)
  else pure (some (some (← takeFront)))

/-- The methods under the lock. -/
def attempt : (o : Op T) → Prog (accesses T) (Option (Out o))
  | .push x => do
    access (.push x)
    pure (some ())
  | .waitAndPop => waitAndPop
  | .tryPop => tryPop
  | .popAll => some <$> access .swap
  | .empty => some <$> access .empty
  | .size => some <$> access .size
  | .stop => do
    access .storeStopped
    pure (some ())

/-- Whom a method notifies. -/
def wake : Op T → Wake
  | .push _ => .one
  | .stop => .all
  | _ => .nobody

end ProducerConsumerQueue

/-! ## `UserManager` -/

namespace UserManager

/-- Accesses to `name_map`: `find`, reading what an iterator points to, assigning and erasing. -/
inductive Access
  | find (n : Fd)
  | second (n : Fd)
  | assign (n : Fd) (u : Bytes)
  | erase (n : Fd)

abbrev AccessRes : Access → Type
  | .find _ => Bool
  | .second _ => Option Bytes
  | _ => Unit

/-- An iterator whose element was erased. -/
inductive Undefined
  | dangling
  deriving DecidableEq

abbrev accesses : Sig := ⟨Access, AccessRes, Undefined⟩

def step : (a : Access) → AccessRes a → (Fd → Option Bytes) → (Fd → Option Bytes) → Prop
  | .find n, r, d, d' => r = (d n).isSome ∧ d' = d
  | .second n, r, d, d' => r = d n ∧ d' = d
  | .assign n u, _, d, d' => d' = Function.update d n (some u)
  | .erase n, _, d, d' => d' = Function.update d n none

abbrev access (a : Access) : Prog accesses (AccessRes a) := Prog.perform (S := accesses) a

inductive Op
  | getUserName (n : Fd)
  | setUserName (n : Fd) (u : Bytes)
  | removeUserName (n : Fd)

abbrev Out : Op → Type
  | .getUserName _ => Option Bytes
  | _ => Unit

def attempt : (o : Op) → Prog accesses (Option (Out o))
  | .getUserName n => do
    if ← access (.find n) then
      match ← access (.second n) with
      | none => throw Undefined.dangling
      | some u => pure (some (some u))
    else pure (some none)
  | .setUserName n u => do
    access (.assign n u)
    pure (some ())
  | .removeUserName n => do
    access (.erase n)
    pure (some ())

/-- `std::shared_lock` or `std::unique_lock`. -/
def shared : Op → Bool
  | .getUserName _ => true
  | _ => false

end UserManager

/-! ## `ConnectionTracker` -/

namespace ConnectionTracker

/-- Accesses to the members and to epoll. The listening socket is another object's member. -/
inductive Access
  | loadEfd
  | loadListenerFd
  | loadMaxFd
  | size
  | epollAdd (n : Fd)
  | epollDel (n : Fd)
  | insert (n : Fd)
  | find (n : Fd)
  | erase (n : Fd)
  | copy

abbrev AccessRes : Access → Type
  | .loadEfd => Fd
  | .loadListenerFd => Fd
  | .loadMaxFd => Nat
  | .size => Nat
  | .epollAdd _ => Bool
  | .epollDel _ => Bool
  | .find _ => Bool
  | .copy => Finset Fd
  | _ => Unit

abbrev accesses : Sig := ⟨Access, AccessRes, Err⟩

/-- `efd`, and `max_fd` as a `size_t`. Neither changes while methods run. -/
structure Fixed where
  efd : Fd
  maxFd : Nat

/-- What epoll answers, and what `listener_fd` is at the moment, is up to others. -/
def step (x : Fixed) : (a : Access) → AccessRes a → Finset Fd → Finset Fd → Prop
  | .loadEfd, r, d, d' => r = x.efd ∧ d' = d
  | .loadListenerFd, _, d, d' => d' = d
  | .loadMaxFd, r, d, d' => r = x.maxFd ∧ d' = d
  | .size, r, d, d' => r = d.card ∧ d' = d
  | .epollAdd _, _, d, d' => d' = d
  | .epollDel _, _, d, d' => d' = d
  | .insert n, _, d, d' => d' = Insert.insert n d
  | .find n, r, d, d' => r = decide (n ∈ d) ∧ d' = d
  | .erase n, _, d, d' => d' = d.erase n
  | .copy, r, d, d' => r = d ∧ d' = d

abbrev access (a : Access) : Prog accesses (AccessRes a) := Prog.perform (S := accesses) a

inductive Op
  | addClient (n : Fd)
  | deleteClient (n : Fd)
  | getClients
  | isFull
  | getClientCount

abbrev Out : Op → Type
  | .getClients => Finset Fd
  | .isFull => Bool
  | .getClientCount => Nat
  | _ => Unit

/-- What `add_client` and `delete_client` check first: the number, the epoll instance, the listening socket. -/
def checked (n : Fd) (e : Err) (rest : Prog accesses Unit) : Prog accesses Unit :=
  if n = fdErr then throw e
  else do
    let efd ← access .loadEfd
    if efd = fdErr then throw e
    else do
      let listenerFd ← access .loadListenerFd
      if n = listenerFd then throw e
      else rest

/-- `add_client`. -/
def addClient (n : Fd) : Prog accesses Unit :=
  checked n .addFailed do
    let size ← access .size
    let maxFd ← access .loadMaxFd
    if maxFd ≤ size then throw Err.poolFull
    else if ← access (.epollAdd n) then access (.insert n)
    else throw Err.addFailed

/-- `delete_client`. -/
def deleteClient (n : Fd) : Prog accesses Unit :=
  checked n .deleteFailed do
    if ← access (.epollDel n) then do
      if ← access (.find n) then access (.erase n)
    else throw Err.deleteFailed

def attempt : (o : Op) → Prog accesses (Option (Out o))
  | .addClient n => some <$> addClient n
  | .deleteClient n => some <$> deleteClient n
  | .getClients => some <$> access .copy
  | .isFull => do
    let size ← access .size
    pure (some (decide ((← access .loadMaxFd) ≤ size)))
  | .getClientCount => some <$> access .size

end ConnectionTracker

/-! ## `TaskRunner` -/

namespace TaskRunner

/-- `Task`. What `func` does is up to others; `F` are the functions. -/
structure Task (F : Type) where
  once : Bool
  func : F
  deriving DecidableEq

/-- `tasks`. `invoked` is for specifications only: the calls of `func` so far, and whether they returned. -/
structure Members (F : Type) where
  tasks : List (List (Task F))
  invoked : List (Task F × Bool)

/-- Accesses to `tasks`, and the call of a task's function. `task i j` is the element an iterator at place `j` of
session `i` points to, `none` for the end of the session. -/
inductive Access (F : Type)
  | count
  | length (i : Nat)
  | emplaceBack
  | pushFront (i : Nat) (t : Task F)
  | pushBack (i : Nat) (t : Task F)
  | popFront (i : Nat)
  | popBack (i : Nat)
  | task (i j : Nat)
  | invoke (t : Task F)
  | erase (i j : Nat)

variable {F ε : Type}

abbrev AccessRes (ε : Type) : Access F → Type
  | .count => Nat
  | .length _ => Nat
  | .popFront _ => Bool
  | .popBack _ => Bool
  | .task _ _ => Option (Task F)
  | .invoke _ => Except ε Unit
  | _ => Unit

/-- What a method raises: its own exception, that of a task, or none of the language's: `pop_front` or `pop_back` on
an empty session. -/
inductive Raised (ε : Type)
  | outOfRange
  | task (e : ε)
  | emptyDeque
  deriving DecidableEq

abbrev accesses (F ε : Type) : Sig := ⟨Access F, AccessRes ε, Raised ε⟩

/-- Session `i`; there is none behind the last one. -/
def Members.session (d : Members F) (i : Nat) : List (Task F) := (d.tasks[i]?).getD []

def step : (a : Access F) → AccessRes ε a → Members F → Members F → Prop
  | .count, r, d, d' => r = d.tasks.length ∧ d' = d
  | .length i, r, d, d' => r = (d.session i).length ∧ d' = d
  | .emplaceBack, _, d, d' => d' = { d with tasks := d.tasks ++ [[]] }
  | .pushFront i t, _, d, d' => d' = { d with tasks := d.tasks.modify i (t :: ·) }
  | .pushBack i t, _, d, d' => d' = { d with tasks := d.tasks.modify i (· ++ [t]) }
  | .popFront i, r, d, d' => r = !(d.session i).isEmpty ∧ d' = { d with tasks := d.tasks.modify i List.tail }
  | .popBack i, r, d, d' => r = !(d.session i).isEmpty ∧ d' = { d with tasks := d.tasks.modify i List.dropLast }
  | .task i j, r, d, d' => r = (d.session i)[j]? ∧ d' = d
  | .invoke t, r, d, d' => d' = { d with invoked := d.invoked ++ [(t, r.isOk)] }
  | .erase i j, _, d, d' => d' = { d with tasks := d.tasks.modify i (·.eraseIdx j) }

abbrev access (a : Access F) : Prog (accesses F ε) (AccessRes ε a) := Prog.perform (S := accesses F ε) a

inductive Op (F : Type)
  | pushOncef (which : Nat) (func : F)
  | pushOnceb (which : Nat) (func : F)
  | pushf (which : Nat) (func : F)
  | pushb (which : Nat) (func : F)
  | popf (which : Nat)
  | popb (which : Nat)
  | newSession (cnt : Nat)
  | run

/-- `exec_locked`, with the check of `session_at`. -/
def execLocked (idx : Nat) (op : Prog (accesses F ε) Unit) : Prog (accesses F ε) Unit := do
  let size ← access .count
  if size ≤ idx then throw Raised.outOfRange else op

/-- The loop over session `i`, from the iterator at place `j` on. Every round passes one task, so the length of the
session is fuel enough. -/
def sweep (i : Nat) : Nat → Nat → Prog (accesses F ε) Unit
  | 0, _ => pure ()
  | fuel + 1, j => do
    match ← access (.task i j) with
    | none => pure ()
    | some t => do
      match ← access (.invoke t) with
      | .error e => throw (Raised.task e)
      | .ok () =>
        if t.once then do
          access (.erase i j)
          sweep i fuel j
        else sweep i fuel (j + 1)

/-- `run`. -/
def run : Prog (accesses F ε) Unit := do
  let size ← access .count
  Prog.forEach (fun i => do sweep i (← access (.length i)) 0) (List.range size)

def attempt : Op F → Prog (accesses F ε) (Option Unit)
  | .pushOncef which func => some <$> execLocked which (access (.pushFront which ⟨true, func⟩))
  | .pushOnceb which func => some <$> execLocked which (access (.pushBack which ⟨true, func⟩))
  | .pushf which func => some <$> execLocked which (access (.pushFront which ⟨false, func⟩))
  | .pushb which func => some <$> execLocked which (access (.pushBack which ⟨false, func⟩))
  | .popf which => some <$> execLocked which do
    unless ← access (.popFront which) do throw Raised.emptyDeque
  | .popb which => some <$> execLocked which do
    unless ← access (.popBack which) do throw Raised.emptyDeque
  | .newSession cnt => some <$> Prog.forEach (fun _ => access .emplaceBack) (List.range cnt)
  | .run => some <$> run

end TaskRunner

end ChatChannel
