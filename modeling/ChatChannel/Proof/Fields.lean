import ChatChannel.Proof.Effect

/-!
# The fields that invariants speak about

Projections of `Effect.lean`: `After.x` is the field `x` after a call, and `exec_x` says so. On a call
that does not write the field, `After.x` reduces to the old value.
-/

set_option autoImplicit false

namespace ChatChannel

/-! ## Values -/

namespace After

variable (t : Srv) (s : St)

/-! ### Of a server -/

def clients (v : Srv) : (a : Act) → Res a → Finset Fd
  | .addClient n, r =>
    if v = t then if r = .ok then insert n (s.base v).clients else (s.base v).clients
    else (s.base v).clients
  | .deleteClient n, r =>
    if v = t then if r = true then (s.base v).clients.erase n else (s.base v).clients
    else (s.base v).clients
  | .newTracker c _, _ => if v = .chan c then ∅ else (s.base v).clients
  | .dropTracker c, _ => if v = .chan c then ∅ else (s.base v).clients
  | _, _ => (s.base v).clients

def maxFd (v : Srv) : (a : Act) → Res a → Int32
  | .newTracker c m, _ => if v = .chan c then m else (s.base v).maxFd
  | _, _ => (s.base v).maxFd

def efd (v : Srv) : (a : Act) → Res a → Fd
  | .epollCreate c, some e => if v = .chan c then e else (s.base v).efd
  | .newTracker c _, _ => if v = .chan c then fdErr else (s.base v).efd
  | .dropTracker c, _ => if v = .chan c then fdErr else (s.base v).efd
  | _, _ => (s.base v).efd

def rbuf (v : Srv) : (a : Act) → Res a → Fd → Option Bytes
  | .recv n, .chunk x =>
    if v = t then Function.update (s.base v).rbuf n (some (s.buffer t n ++ x)) else (s.base v).rbuf
  | .recv n, .again =>
    if v = t then Function.update (s.base v).rbuf n (some (s.buffer t n)) else (s.base v).rbuf
  | .recv n, .fin =>
    if v = t then Function.update (s.base v).rbuf n (some (s.buffer t n)) else (s.base v).rbuf
  | .recv n, .error =>
    if v = t then Function.update (s.base v).rbuf n (some (s.buffer t n)) else (s.base v).rbuf
  | .decode n, _ =>
    if v = t then Function.update (s.base v).rbuf n (some (decodeFrames (s.buffer t n)).2)
    else (s.base v).rbuf
  | .clearBuffer n, _ =>
    if v = t then Function.update (s.base v).rbuf n none else (s.base v).rbuf
  | .newTracker c _, _ => if v = .chan c then fun _ => none else (s.base v).rbuf
  | .dropTracker c, _ => if v = .chan c then fun _ => none else (s.base v).rbuf
  | _, _ => (s.base v).rbuf

def events (v : Srv) : (a : Act) → Res a → List PollEv
  | .epollWait, some evs => if v = t then evs else (s.base v).events
  | .newTracker c _, _ => if v = .chan c then [] else (s.base v).events
  | .dropTracker c, _ => if v = .chan c then [] else (s.base v).events
  | _, _ => (s.base v).events

def nextDeletion (v : Srv) : (a : Act) → Res a → Finset Fd
  | .clearDeletion, _ => if v = t then ∅ else (s.base v).nextDeletion
  | .insertDeletion n, _ =>
    if v = t then insert n (s.base v).nextDeletion else (s.base v).nextDeletion
  | .insertDeletionAt c n, _ =>
    if v = .chan c then insert n (s.base v).nextDeletion else (s.base v).nextDeletion
  | .newTracker c _, _ => if v = .chan c then ∅ else (s.base v).nextDeletion
  | .dropTracker c, _ => if v = .chan c then ∅ else (s.base v).nextDeletion
  | _, _ => (s.base v).nextDeletion

def runner (v : Srv) : (a : Act) → Res a → List (List Task)
  | .newSession c k, _ =>
    if v = .chan c then (s.base v).runner ++ List.replicate k [] else (s.base v).runner
  | .pushBack c w x, _ =>
    if v = .chan c then pushTask false w x (s.base v).runner else (s.base v).runner
  | .pushFront c w x, _ =>
    if v = .chan c then pushTask true w x (s.base v).runner else (s.base v).runner
  | .newTracker c _, _ => if v = .chan c then [] else (s.base v).runner
  | .dropTracker c, _ => if v = .chan c then [] else (s.base v).runner
  | _, _ => (s.base v).runner

/-! ### Of what a thread is in the middle of -/

def remaining (v : Srv) : (a : Act) → Res a → Option (List Fd)
  | .clearDeletion, _ => if v = t then none else (s.base v).aux.remaining
  | .getDeletion, r => if v = t then some r else (s.base v).aux.remaining
  | .setCursor o, _ =>
    if v = t then
      o.elim (s.base v).aux.remaining fun n => (s.base v).aux.remaining.map fun l => l.erase n
    else (s.base v).aux.remaining
  | .newTracker c _, _ => if v = .chan c then none else (s.base v).aux.remaining
  | .dropTracker c, _ => if v = .chan c then none else (s.base v).aux.remaining
  | _, _ => (s.base v).aux.remaining

def start (v : Srv) : (a : Act) → Res a → Snapshot
  | .getDeletion, _ => if v = t then s.snapshot else (s.base v).aux.start
  | .newTracker c _, _ => if v = .chan c then Aux.fresh.start else (s.base v).aux.start
  | .dropTracker c, _ => if v = .chan c then Aux.fresh.start else (s.base v).aux.start
  | _, _ => (s.base v).aux.start

def cursor (v : Srv) : (a : Act) → Res a → Option (Fd × Stage)
  | .setCursor o, _ =>
    if v = t then o.map fun n => (n, .picked) else (s.base v).aux.cursor
  | .deleteClient n, r =>
    if v = t then
      if (s.base v).aux.cursor = some (n, .picked) ∧ (r = true ∨ t ≠ .lobby)
      then some (n, .doomed) else (s.base v).aux.cursor
    else (s.base v).aux.cursor
  | .close n, _ =>
    if v = t then
      if (s.base v).aux.cursor = some (n, .doomed) then some (n, .closed)
      else (s.base v).aux.cursor
    else (s.base v).aux.cursor
  | .clearBuffer n, _ =>
    if v = t then
      if (s.base v).aux.cursor = some (n, .closed) then none else (s.base v).aux.cursor
    else (s.base v).aux.cursor
  | .newTracker c _, _ => if v = .chan c then none else (s.base v).aux.cursor
  | .dropTracker c, _ => if v = .chan c then none else (s.base v).aux.cursor
  | _, _ => (s.base v).aux.cursor

def arrived (v : Srv) : (a : Act) → Res a → Option Fd
  | .accept, some n => if v = t then some n else (s.base v).aux.arrived
  | .addClient _, _ =>
    if v = t then if t = .lobby then none else (s.base v).aux.arrived
    else (s.base v).aux.arrived
  | .newTracker c _, _ => if v = .chan c then none else (s.base v).aux.arrived
  | .dropTracker c, _ => if v = .chan c then none else (s.base v).aux.arrived
  | _, _ => (s.base v).aux.arrived

def source (v : Srv) : (a : Act) → Res a → Option (Fd × Nat)
  | .recv n, .chunk _ =>
    if v = t then (File.conn? (s.file n)).map fun k => (n, k) else (s.base v).aux.source
  | .recv n, .again =>
    if v = t then (File.conn? (s.file n)).map fun k => (n, k) else (s.base v).aux.source
  | .endRecv, _ => if v = t then none else (s.base v).aux.source
  | .newTracker c _, _ => if v = .chan c then none else (s.base v).aux.source
  | .dropTracker c, _ => if v = .chan c then none else (s.base v).aux.source
  | _, _ => (s.base v).aux.source

def batch (v : Srv) : (a : Act) → Res a → List Bytes
  | .decode _, r => if v = t then r.toOption.getD [] else (s.base v).aux.batch
  | .onFrame _ _, _ => if v = t then (s.base v).aux.batch.tail else (s.base v).aux.batch
  | .endRecv, _ => if v = t then [] else (s.base v).aux.batch
  | .newTracker c _, _ => if v = .chan c then [] else (s.base v).aux.batch
  | .dropTracker c, _ => if v = .chan c then [] else (s.base v).aux.batch
  | _, _ => (s.base v).aux.batch

def current (v : Srv) : (a : Act) → Res a → Option Bytes
  | .onFrame _ f, _ => if v = t then some f else (s.base v).aux.current
  | .report _ _ _, _ => if v = t then none else (s.base v).aux.current
  | .endRecv, _ => if v = t then none else (s.base v).aux.current
  | .newTracker c _, _ => if v = .chan c then none else (s.base v).aux.current
  | .dropTracker c, _ => if v = .chan c then none else (s.base v).aux.current
  | _, _ => (s.base v).aux.current

def known (v : Srv) : (a : Act) → Res a → Option Fd
  | .getUserName n, r => if v = t then r.map fun _ => n else (s.base v).aux.known
  | .nextReport, _ => if v = t then none else (s.base v).aux.known
  | .dropReports, _ => if v = t then none else (s.base v).aux.known
  | .emplaceJoin _ _ _, _ => if v = t then none else (s.base v).aux.known
  | .emplaceLeave _ _ _, _ => if v = t then none else (s.base v).aux.known
  | .newTracker c _, _ => if v = .chan c then none else (s.base v).aux.known
  | .dropTracker c, _ => if v = .chan c then none else (s.base v).aux.known
  | _, _ => (s.base v).aux.known

def placed (v : Srv) : (a : Act) → Res a → Option (ChId × Fd × Bool)
  | .lockPool _, _ => if v = t then none else (s.base v).aux.placed
  | .unlockPool _, _ => if v = t then none else (s.base v).aux.placed
  | .endRecv, _ => if v = t then none else (s.base v).aux.placed
  | .setCursor _, _ => if v = t then none else (s.base v).aux.placed
  | .nextReport, _ => if v = t then none else (s.base v).aux.placed
  | .dropReports, _ => if v = t then none else (s.base v).aux.placed
  | .emplaceJoin c n _, _ => if v = t then some (c, n, false) else (s.base v).aux.placed
  | .emplaceLeave _ n _, _ =>
    if v = t then (s.base v).aux.placed.map fun p => if p.2.1 = n then (p.1, n, true) else p
    else (s.base v).aux.placed
  | .deleteClient n, r =>
    if v = t then
      (s.base v).aux.placed.map fun p => if p.2.1 = n ∧ r = true then (p.1, n, true) else p
    else (s.base v).aux.placed
  | .newTracker c _, _ => if v = .chan c then none else (s.base v).aux.placed
  | .dropTracker c, _ => if v = .chan c then none else (s.base v).aux.placed
  | _, _ => (s.base v).aux.placed

def scrapped (v : Srv) : (a : Act) → Res a → Option (ChId × Bool)
  | .getEfd c, _ => if v = t then some (c, false) else (s.base v).aux.scrapped
  | .close _, _ =>
    if v = t then (s.base v).aux.scrapped.map fun p => (p.1, true) else (s.base v).aux.scrapped
  | .newTracker c _, _ => if v = .chan c then none else (s.base v).aux.scrapped
  | .dropTracker c, _ => if v = .chan c ∨ v = t then none else (s.base v).aux.scrapped
  | _, _ => (s.base v).aux.scrapped

/-! ### Of a channel -/

def joinPool (c : ChId) : (a : Act) → Res a → List (Fd × MessageReqDto)
  | .emplaceJoin d n m, _ =>
    if c = d then emplace n m (s.chan c).joinPool else (s.chan c).joinPool
  | .takeJoinPool, _ => if c = own t then [] else (s.chan c).joinPool
  | .newTracker d _, _ => if c = d then [] else (s.chan c).joinPool
  | .dropTracker d, _ => if c = d then [] else (s.chan c).joinPool
  | _, _ => (s.chan c).joinPool

def leavePool (c : ChId) : (a : Act) → Res a → List (Fd × MessageReqDto)
  | .emplaceLeave d n m, _ =>
    if c = d then emplace n m (s.chan c).leavePool else (s.chan c).leavePool
  | .takeLeavePool, _ => if c = own t then [] else (s.chan c).leavePool
  | .newTracker d _, _ => if c = d then [] else (s.chan c).leavePool
  | .dropTracker d, _ => if c = d then [] else (s.chan c).leavePool
  | _, _ => (s.chan c).leavePool

def joining (c : ChId) : (a : Act) → Res a → List Fd
  | .takeJoinPool, r => if c = own t then keys r else (s.chan c).joining
  | .addClient n, _ =>
    if c = own t then if t = .lobby then (s.chan c).joining else (s.chan c).joining.erase n
    else (s.chan c).joining
  | .newTracker d _, _ => if c = d then [] else (s.chan c).joining
  | .dropTracker d, _ => if c = d then [] else (s.chan c).joining
  | _, _ => (s.chan c).joining

def leaving (c : ChId) : (a : Act) → Res a → List Fd
  | .takeLeavePool, r => if c = own t then keys r else (s.chan c).leaving
  | .deleteClient n, _ =>
    if c = own t then if t = .lobby then (s.chan c).leaving else (s.chan c).leaving.erase n
    else (s.chan c).leaving
  | .newTracker d _, _ => if c = d then [] else (s.chan c).leaving
  | .dropTracker d, _ => if c = d then [] else (s.chan c).leaving
  | _, _ => (s.chan c).leaving

def unpublished (c : ChId) : (a : Act) → Res a → Finset Fd
  | .lockPool d, _ => if c = d then ∅ else (s.chan c).unpublished
  | .unlockPool d, _ => if c = d then ∅ else (s.chan c).unpublished
  | .emplaceJoin d n _, _ =>
    if c = d then insert n (s.chan c).unpublished else (s.chan c).unpublished
  | .newTracker d _, _ => if c = d then ∅ else (s.chan c).unpublished
  | .dropTracker d, _ => if c = d then ∅ else (s.chan c).unpublished
  | _, _ => (s.chan c).unpublished

def mtx (c : ChId) : (a : Act) → Res a → Option Srv
  | .lockPool d, _ => if c = d then some t else (s.chan c).mtx
  | .unlockPool d, _ => if c = d then none else (s.chan c).mtx
  | .newTracker d _, _ => if c = d then none else (s.chan c).mtx
  | .dropTracker d, _ => if c = d then none else (s.chan c).mtx
  | _, _ => (s.chan c).mtx

def stopFlag (c : ChId) : (a : Act) → Res a → Bool
  | .storeStop d b, _ => if c = d then b else (s.chan c).stopFlag
  | .newTracker d _, _ => if c = d then false else (s.chan c).stopFlag
  | .dropTracker d, _ => if c = d then false else (s.chan c).stopFlag
  | _, _ => (s.chan c).stopFlag

def worker (c : ChId) : (a : Act) → Res a → Worker
  | .joinWorker d, _ => if c = d then .absent else (s.chan c).worker
  | .startWorker d, true => if c = d then .running else (s.chan c).worker
  | .exitThread, _ => if c = own t then .ended else (s.chan c).worker
  | .newTracker d _, _ => if c = d then .absent else (s.chan c).worker
  | .dropTracker d, _ => if c = d then .absent else (s.chan c).worker
  | _, _ => (s.chan c).worker

def ticking (c : ChId) : (a : Act) → Res a → Bool
  | .beginRun, _ =>
    if c = own t then if t = .lobby then (s.chan c).ticking else true else (s.chan c).ticking
  | .endRun, _ =>
    if c = own t then if t = .lobby then (s.chan c).ticking else false else (s.chan c).ticking
  | .newTracker d _, _ => if c = d then false else (s.chan c).ticking
  | .dropTracker d, _ => if c = d then false else (s.chan c).ticking
  | _, _ => (s.chan c).ticking

def mq (c : ChId) : (a : Act) → Res a → List (Fd × MessageReqDto)
  | .pushMq n m, _ => if c = own t then (s.chan c).mq ++ [(n, m)] else (s.chan c).mq
  | .popMq, _ => if c = own t then [] else (s.chan c).mq
  | .newTracker d _, _ => if c = d then [] else (s.chan c).mq
  | .dropTracker d, _ => if c = d then [] else (s.chan c).mq
  | _, _ => (s.chan c).mq

def curMsgs (c : ChId) : (a : Act) → Res a → List (Msec64 × Fd × MessageReqDto)
  | .clearCurMsgs, _ => if c = own t then [] else (s.chan c).curMsgs
  | .emplaceCurMsg x n m, _ =>
    if c = own t then multimapEmplace x (n, m) (s.chan c).curMsgs else (s.chan c).curMsgs
  | .newTracker d _, _ => if c = d then [] else (s.chan c).curMsgs
  | .dropTracker d, _ => if c = d then [] else (s.chan c).curMsgs
  | _, _ => (s.chan c).curMsgs

end After

/-! ## Equations -/

section

variable {t : Srv} {a : Act} {r : Res a} {s s' : St}

theorem exec_clients (h : exec t a r s = some s') (v : Srv) :
    (s'.base v).clients = After.clients t s v a r := by
  rw [exec_base h]
  cases a
  all_goals first
    | rfl
    | exact s.atBase_field v Base.clients fun _ => rfl
    | exact s.ite_atBase_field v Base.clients fun _ => rfl
    | exact apply_ite Base.clients _ _ _
    | (cases r <;> first | rfl | exact s.atBase_field v Base.clients fun _ => rfl)

theorem exec_maxFd (h : exec t a r s = some s') (v : Srv) :
    (s'.base v).maxFd = After.maxFd s v a r := by
  rw [exec_base h]
  cases a
  case dropTracker c =>
    simp only [After.base, After.maxFd, St.atBase]
    split_ifs <;> rfl
  all_goals first
    | rfl
    | exact s.atBase_field v Base.maxFd fun _ => rfl
    | exact apply_ite Base.maxFd _ _ _
    | (cases r <;> first | rfl | exact s.atBase_field v Base.maxFd fun _ => rfl)

theorem exec_efd (h : exec t a r s = some s') (v : Srv) :
    (s'.base v).efd = After.efd s v a r := by
  rw [exec_base h]
  cases a
  all_goals first
    | rfl
    | exact s.atBase_field v Base.efd fun _ => rfl
    | exact s.ite_atBase_field v Base.efd fun _ => rfl
    | exact apply_ite Base.efd _ _ _
    | (cases r <;> first
        | rfl
        | exact s.atBase_field v Base.efd fun _ => rfl
        | exact apply_ite Base.efd _ _ _)

theorem exec_rbuf (h : exec t a r s = some s') (v : Srv) :
    (s'.base v).rbuf = After.rbuf t s v a r := by
  rw [exec_base h]
  cases a
  all_goals first
    | rfl
    | exact s.atBase_field v Base.rbuf fun _ => rfl
    | exact s.ite_atBase_field v Base.rbuf fun _ => rfl
    | exact apply_ite Base.rbuf _ _ _
    | (cases r <;> first
        | rfl
        | exact s.atBase_field v Base.rbuf fun _ => rfl
        | exact apply_ite Base.rbuf _ _ _)

theorem exec_events (h : exec t a r s = some s') (v : Srv) :
    (s'.base v).events = After.events t s v a r := by
  rw [exec_base h]
  cases a
  all_goals first
    | rfl
    | exact s.atBase_field v Base.events fun _ => rfl
    | exact s.ite_atBase_field v Base.events fun _ => rfl
    | exact apply_ite Base.events _ _ _
    | (cases r <;> first
        | rfl
        | exact s.atBase_field v Base.events fun _ => rfl
        | exact apply_ite Base.events _ _ _)

theorem exec_nextDeletion (h : exec t a r s = some s') (v : Srv) :
    (s'.base v).nextDeletion = After.nextDeletion t s v a r := by
  rw [exec_base h]
  cases a
  all_goals first
    | rfl
    | exact s.atBase_field v Base.nextDeletion fun _ => rfl
    | exact s.ite_atBase_field v Base.nextDeletion fun _ => rfl
    | exact apply_ite Base.nextDeletion _ _ _
    | (cases r <;> first | rfl | exact s.atBase_field v Base.nextDeletion fun _ => rfl)

theorem exec_runner (h : exec t a r s = some s') (v : Srv) :
    (s'.base v).runner = After.runner s v a r := by
  rw [exec_base h]
  cases a
  all_goals first
    | rfl
    | exact s.atBase_field v Base.runner fun _ => rfl
    | exact s.ite_atBase_field v Base.runner fun _ => rfl
    | exact apply_ite Base.runner _ _ _
    | (cases r <;> first | rfl | exact s.atBase_field v Base.runner fun _ => rfl)

theorem exec_remaining (h : exec t a r s = some s') (v : Srv) :
    (s'.base v).aux.remaining = After.remaining t s v a r := by
  rw [exec_base h]
  cases a
  all_goals first
    | rfl
    | exact s.atBase_field v (fun b : Base => b.aux.remaining) fun _ => rfl
    | exact s.ite_atBase_field v (fun b : Base => b.aux.remaining) fun _ => rfl
    | exact apply_ite (fun b : Base => b.aux.remaining) _ _ _
    | (cases r <;> first
        | rfl
        | exact s.atBase_field v (fun b : Base => b.aux.remaining) fun _ => rfl)

theorem exec_start (h : exec t a r s = some s') (v : Srv) :
    (s'.base v).aux.start = After.start t s v a r := by
  rw [exec_base h]
  cases a
  all_goals first
    | rfl
    | exact s.atBase_field v (fun b : Base => b.aux.start) fun _ => rfl
    | exact s.ite_atBase_field v (fun b : Base => b.aux.start) fun _ => rfl
    | exact apply_ite (fun b : Base => b.aux.start) _ _ _
    | (cases r <;> first
        | rfl
        | exact s.atBase_field v (fun b : Base => b.aux.start) fun _ => rfl)

theorem exec_cursor (h : exec t a r s = some s') (v : Srv) :
    (s'.base v).aux.cursor = After.cursor t s v a r := by
  rw [exec_base h]
  cases a
  all_goals first
    | rfl
    | exact s.atBase_field v (fun b : Base => b.aux.cursor) fun _ => rfl
    | exact s.ite_atBase_field v (fun b : Base => b.aux.cursor) fun _ => rfl
    | exact apply_ite (fun b : Base => b.aux.cursor) _ _ _
    | (cases r <;> first
        | rfl
        | exact s.atBase_field v (fun b : Base => b.aux.cursor) fun _ => rfl)

theorem exec_arrived (h : exec t a r s = some s') (v : Srv) :
    (s'.base v).aux.arrived = After.arrived t s v a r := by
  rw [exec_base h]
  cases a
  all_goals first
    | rfl
    | exact s.atBase_field v (fun b : Base => b.aux.arrived) fun _ => rfl
    | exact s.ite_atBase_field v (fun b : Base => b.aux.arrived) fun _ => rfl
    | exact apply_ite (fun b : Base => b.aux.arrived) _ _ _
    | (cases r <;> first
        | rfl
        | exact s.atBase_field v (fun b : Base => b.aux.arrived) fun _ => rfl
        | exact apply_ite (fun b : Base => b.aux.arrived) _ _ _)

theorem exec_source (h : exec t a r s = some s') (v : Srv) :
    (s'.base v).aux.source = After.source t s v a r := by
  rw [exec_base h]
  cases a
  all_goals first
    | rfl
    | exact s.atBase_field v (fun b : Base => b.aux.source) fun _ => rfl
    | exact s.ite_atBase_field v (fun b : Base => b.aux.source) fun _ => rfl
    | exact apply_ite (fun b : Base => b.aux.source) _ _ _
    | (cases r <;> first
        | rfl
        | exact s.atBase_field v (fun b : Base => b.aux.source) fun _ => rfl
        | exact apply_ite (fun b : Base => b.aux.source) _ _ _)

theorem exec_batch (h : exec t a r s = some s') (v : Srv) :
    (s'.base v).aux.batch = After.batch t s v a r := by
  rw [exec_base h]
  cases a
  all_goals first
    | rfl
    | exact s.atBase_field v (fun b : Base => b.aux.batch) fun _ => rfl
    | exact s.ite_atBase_field v (fun b : Base => b.aux.batch) fun _ => rfl
    | exact apply_ite (fun b : Base => b.aux.batch) _ _ _
    | (cases r <;> first
        | rfl
        | exact s.atBase_field v (fun b : Base => b.aux.batch) fun _ => rfl)

theorem exec_current (h : exec t a r s = some s') (v : Srv) :
    (s'.base v).aux.current = After.current t s v a r := by
  rw [exec_base h]
  cases a
  all_goals first
    | rfl
    | exact s.atBase_field v (fun b : Base => b.aux.current) fun _ => rfl
    | exact s.ite_atBase_field v (fun b : Base => b.aux.current) fun _ => rfl
    | exact apply_ite (fun b : Base => b.aux.current) _ _ _
    | (cases r <;> first
        | rfl
        | exact s.atBase_field v (fun b : Base => b.aux.current) fun _ => rfl)

theorem exec_known (h : exec t a r s = some s') (v : Srv) :
    (s'.base v).aux.known = After.known t s v a r := by
  rw [exec_base h]
  cases a
  all_goals first
    | rfl
    | exact s.atBase_field v (fun b : Base => b.aux.known) fun _ => rfl
    | exact s.ite_atBase_field v (fun b : Base => b.aux.known) fun _ => rfl
    | exact apply_ite (fun b : Base => b.aux.known) _ _ _
    | (cases r <;> first
        | rfl
        | exact s.atBase_field v (fun b : Base => b.aux.known) fun _ => rfl)

theorem exec_placed (h : exec t a r s = some s') (v : Srv) :
    (s'.base v).aux.placed = After.placed t s v a r := by
  rw [exec_base h]
  cases a
  all_goals first
    | rfl
    | exact s.atBase_field v (fun b : Base => b.aux.placed) fun _ => rfl
    | exact s.ite_atBase_field v (fun b : Base => b.aux.placed) fun _ => rfl
    | exact apply_ite (fun b : Base => b.aux.placed) _ _ _
    | (cases r <;> first
        | rfl
        | exact s.atBase_field v (fun b : Base => b.aux.placed) fun _ => rfl)

theorem exec_scrapped (h : exec t a r s = some s') (v : Srv) :
    (s'.base v).aux.scrapped = After.scrapped t s v a r := by
  rw [exec_base h]
  cases a
  case dropTracker c =>
    simp only [After.base, After.scrapped, St.atBase]
    split_ifs <;> simp_all [Base.fresh, Aux.fresh]
  all_goals first
    | rfl
    | exact s.atBase_field v (fun b : Base => b.aux.scrapped) fun _ => rfl
    | exact apply_ite (fun b : Base => b.aux.scrapped) _ _ _
    | (cases r <;> first
        | rfl
        | exact s.atBase_field v (fun b : Base => b.aux.scrapped) fun _ => rfl)

theorem exec_joinPool (h : exec t a r s = some s') (c : ChId) :
    (s'.chan c).joinPool = After.joinPool t s c a r := by
  rw [exec_chan h]
  cases a
  all_goals first
    | rfl
    | exact s.atChan_field c Chan.joinPool fun _ => rfl
    | exact apply_ite Chan.joinPool _ _ _
    | (cases r <;> first | rfl | exact s.atChan_field c Chan.joinPool fun _ => rfl)

theorem exec_leavePool (h : exec t a r s = some s') (c : ChId) :
    (s'.chan c).leavePool = After.leavePool t s c a r := by
  rw [exec_chan h]
  cases a
  all_goals first
    | rfl
    | exact s.atChan_field c Chan.leavePool fun _ => rfl
    | exact apply_ite Chan.leavePool _ _ _
    | (cases r <;> first | rfl | exact s.atChan_field c Chan.leavePool fun _ => rfl)

theorem exec_joining (h : exec t a r s = some s') (c : ChId) :
    (s'.chan c).joining = After.joining t s c a r := by
  rw [exec_chan h]
  cases a
  all_goals first
    | rfl
    | exact s.atChan_field c Chan.joining fun _ => rfl
    | exact apply_ite Chan.joining _ _ _
    | (cases r <;> first | rfl | exact s.atChan_field c Chan.joining fun _ => rfl)

theorem exec_leaving (h : exec t a r s = some s') (c : ChId) :
    (s'.chan c).leaving = After.leaving t s c a r := by
  rw [exec_chan h]
  cases a
  all_goals first
    | rfl
    | exact s.atChan_field c Chan.leaving fun _ => rfl
    | exact apply_ite Chan.leaving _ _ _
    | (cases r <;> first | rfl | exact s.atChan_field c Chan.leaving fun _ => rfl)

theorem exec_unpublished (h : exec t a r s = some s') (c : ChId) :
    (s'.chan c).unpublished = After.unpublished s c a r := by
  rw [exec_chan h]
  cases a
  all_goals first
    | rfl
    | exact s.atChan_field c Chan.unpublished fun _ => rfl
    | exact apply_ite Chan.unpublished _ _ _
    | (cases r <;> first | rfl | exact s.atChan_field c Chan.unpublished fun _ => rfl)

theorem exec_mtx (h : exec t a r s = some s') (c : ChId) :
    (s'.chan c).mtx = After.mtx t s c a r := by
  rw [exec_chan h]
  cases a
  all_goals first
    | rfl
    | exact s.atChan_field c Chan.mtx fun _ => rfl
    | exact apply_ite Chan.mtx _ _ _
    | (cases r <;> first | rfl | exact s.atChan_field c Chan.mtx fun _ => rfl)

theorem exec_stopFlag (h : exec t a r s = some s') (c : ChId) :
    (s'.chan c).stopFlag = After.stopFlag s c a r := by
  rw [exec_chan h]
  cases a
  all_goals first
    | rfl
    | exact s.atChan_field c Chan.stopFlag fun _ => rfl
    | exact apply_ite Chan.stopFlag _ _ _
    | (cases r <;> first | rfl | exact s.atChan_field c Chan.stopFlag fun _ => rfl)

theorem exec_worker (h : exec t a r s = some s') (c : ChId) :
    (s'.chan c).worker = After.worker t s c a r := by
  rw [exec_chan h]
  cases a
  all_goals first
    | rfl
    | exact s.atChan_field c Chan.worker fun _ => rfl
    | exact apply_ite Chan.worker _ _ _
    | (cases r <;> first
        | rfl
        | exact s.atChan_field c Chan.worker fun _ => rfl
        | exact apply_ite Chan.worker _ _ _)

theorem exec_ticking (h : exec t a r s = some s') (c : ChId) :
    (s'.chan c).ticking = After.ticking t s c a r := by
  rw [exec_chan h]
  cases a
  all_goals first
    | rfl
    | exact s.atChan_field c Chan.ticking fun _ => rfl
    | exact apply_ite Chan.ticking _ _ _
    | (cases r <;> first | rfl | exact s.atChan_field c Chan.ticking fun _ => rfl)

theorem exec_mq (h : exec t a r s = some s') (c : ChId) :
    (s'.chan c).mq = After.mq t s c a r := by
  rw [exec_chan h]
  cases a
  all_goals first
    | rfl
    | exact s.atChan_field c Chan.mq fun _ => rfl
    | exact apply_ite Chan.mq _ _ _
    | (cases r <;> first | rfl | exact s.atChan_field c Chan.mq fun _ => rfl)

theorem exec_curMsgs (h : exec t a r s = some s') (c : ChId) :
    (s'.chan c).curMsgs = After.curMsgs t s c a r := by
  rw [exec_chan h]
  cases a
  all_goals first
    | rfl
    | exact s.atChan_field c Chan.curMsgs fun _ => rfl
    | exact apply_ite Chan.curMsgs _ _ _
    | (cases r <;> first | rfl | exact s.atChan_field c Chan.curMsgs fun _ => rfl)

end

end ChatChannel
