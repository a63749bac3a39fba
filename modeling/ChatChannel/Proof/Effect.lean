import ChatChannel.Model.Server

/-!
# What a call does, record by record

`exec` gives the whole next state. A proof about an invariant wants to know what becomes of a few
fields, and that most calls leave them alone. `After` gives the next state record by record, and `exec_base` and its siblings say
that this is what `exec` does. On a call that leaves a record alone `After` reduces to the record.
-/

set_option autoImplicit false

namespace ChatChannel

namespace St

variable (s : St) (t v : Srv) (c c' : ChId) (n : Fd) (b : Bool)

/-! ## The pieces of the calls -/

@[simp] theorem base_onBase (f : Base → Base) :
    (s.onBase t f).base v = if v = t then f (s.base v) else s.base v := by
  by_cases h : v = t
  · subst h; simp
  · simp [h]

@[simp] theorem base_onAux (f : Aux → Aux) : (s.onAux t f).base v =
    if v = t then { s.base v with aux := f (s.base v).aux } else s.base v :=
  base_onBase s t v fun b => { b with aux := f b.aux }

@[simp] theorem chan_onChan (f : Chan → Chan) :
    (s.onChan c f).chan c' = if c' = c then f (s.chan c') else s.chan c' := by
  by_cases h : c' = c
  · subst h; simp
  · simp [h]

/-- `s'` differs from `s` in the log only. -/
structure OnlyLog (s s' : St) : Prop where
  file : s'.file = s.file
  nextConn : s'.nextConn = s.nextConn
  listenFd : s'.listenFd = s.listenFd
  names : s'.names = s.names
  base : s'.base = s.base
  chan : s'.chan = s.chan
  lobby : s'.lobby = s.lobby

theorem onlyLog_logConn (f : Nat → LogEv) : OnlyLog s (s.logConn n f) := by
  unfold logConn
  split <;> exact ⟨rfl, rfl, rfl, rfl, rfl, rfl, rfl⟩

theorem onlyLog_logSource (f : Nat → LogEv) : OnlyLog s (s.logSource t f) := by
  unfold logSource
  split <;> exact ⟨rfl, rfl, rfl, rfl, rfl, rfl, rfl⟩

theorem onlyLog_logAdmitted : OnlyLog s (s.logAdmitted t n) := by
  unfold logAdmitted
  split
  · exact onlyLog_logConn s n _
  · exact ⟨rfl, rfl, rfl, rfl, rfl, rfl, rfl⟩

@[simp] theorem logConn_file (f : Nat → LogEv) : (s.logConn n f).file = s.file :=
  (onlyLog_logConn s n f).file

@[simp] theorem logConn_nextConn (f : Nat → LogEv) : (s.logConn n f).nextConn = s.nextConn :=
  (onlyLog_logConn s n f).nextConn

@[simp] theorem logConn_listenFd (f : Nat → LogEv) : (s.logConn n f).listenFd = s.listenFd :=
  (onlyLog_logConn s n f).listenFd

@[simp] theorem logConn_names (f : Nat → LogEv) : (s.logConn n f).names = s.names :=
  (onlyLog_logConn s n f).names

@[simp] theorem logConn_base (f : Nat → LogEv) : (s.logConn n f).base = s.base :=
  (onlyLog_logConn s n f).base

@[simp] theorem logConn_chan (f : Nat → LogEv) : (s.logConn n f).chan = s.chan :=
  (onlyLog_logConn s n f).chan

@[simp] theorem logConn_lobby (f : Nat → LogEv) : (s.logConn n f).lobby = s.lobby :=
  (onlyLog_logConn s n f).lobby

@[simp] theorem logSource_file (f : Nat → LogEv) : (s.logSource t f).file = s.file :=
  (onlyLog_logSource s t f).file

@[simp] theorem logSource_nextConn (f : Nat → LogEv) : (s.logSource t f).nextConn = s.nextConn :=
  (onlyLog_logSource s t f).nextConn

@[simp] theorem logSource_listenFd (f : Nat → LogEv) : (s.logSource t f).listenFd = s.listenFd :=
  (onlyLog_logSource s t f).listenFd

@[simp] theorem logSource_names (f : Nat → LogEv) : (s.logSource t f).names = s.names :=
  (onlyLog_logSource s t f).names

@[simp] theorem logSource_base (f : Nat → LogEv) : (s.logSource t f).base = s.base :=
  (onlyLog_logSource s t f).base

@[simp] theorem logSource_chan (f : Nat → LogEv) : (s.logSource t f).chan = s.chan :=
  (onlyLog_logSource s t f).chan

@[simp] theorem logSource_lobby (f : Nat → LogEv) : (s.logSource t f).lobby = s.lobby :=
  (onlyLog_logSource s t f).lobby

@[simp] theorem logAdmitted_file : (s.logAdmitted t n).file = s.file :=
  (onlyLog_logAdmitted s t n).file

@[simp] theorem logAdmitted_nextConn : (s.logAdmitted t n).nextConn = s.nextConn :=
  (onlyLog_logAdmitted s t n).nextConn

@[simp] theorem logAdmitted_listenFd : (s.logAdmitted t n).listenFd = s.listenFd :=
  (onlyLog_logAdmitted s t n).listenFd

@[simp] theorem logAdmitted_names : (s.logAdmitted t n).names = s.names :=
  (onlyLog_logAdmitted s t n).names

@[simp] theorem logAdmitted_base : (s.logAdmitted t n).base = s.base :=
  (onlyLog_logAdmitted s t n).base

@[simp] theorem logAdmitted_chan : (s.logAdmitted t n).chan = s.chan :=
  (onlyLog_logAdmitted s t n).chan

@[simp] theorem logAdmitted_lobby : (s.logAdmitted t n).lobby = s.lobby :=
  (onlyLog_logAdmitted s t n).lobby

@[simp] theorem log_logConn (f : Nat → LogEv) :
    (s.logConn n f).log = s.log ++ ((File.conn? (s.file n)).map f).toList := by
  unfold logConn
  split
  · rename_i h
    rw [h]
    rfl
  · rename_i h
    rw [h]
    simp

@[simp] theorem log_logSource (f : Nat → LogEv) : (s.logSource t f).log =
    s.log ++ ((s.base t).aux.source.map fun p => f p.2).toList := by
  unfold logSource
  split
  · rename_i h
    rw [h]
    rfl
  · rename_i h
    rw [h]
    simp

@[simp] theorem log_logAdmitted : (s.logAdmitted t n).log =
    s.log ++ if t = .lobby then ((File.conn? (s.file n)).map .admitted).toList else [] := by
  unfold logAdmitted
  split
  · exact log_logConn s n _
  · exact (List.append_nil _).symm

/-- What `visited` leaves alone. -/
@[simp] theorem visited_rest : (s.visited t n b).file = s.file ∧ (s.visited t n b).nextConn = s.nextConn ∧
    (s.visited t n b).listenFd = s.listenFd ∧ (s.visited t n b).names = s.names ∧
    (s.visited t n b).lobby = s.lobby ∧ (s.visited t n b).log = s.log := by
  cases t with
  | lobby => cases b <;> exact ⟨rfl, rfl, rfl, rfl, rfl, rfl⟩
  | chan c => exact ⟨rfl, rfl, rfl, rfl, rfl, rfl⟩

@[simp] theorem base_visited : (s.visited t n b).base v =
    if v = t ∧ t = .lobby ∧ b = false
    then { s.base v with aux := { (s.base v).aux with arrived := none } }
    else s.base v := by
  cases t with
  | lobby => cases b <;> simp [visited]
  | chan c => simp [visited]

@[simp] theorem chan_visited : (s.visited t n b).chan c =
    if c = own t then
      if t = .lobby then s.chan c
      else if b then { s.chan c with leaving := (s.chan c).leaving.erase n }
      else { s.chan c with joining := (s.chan c).joining.erase n }
    else s.chan c := by
  cases t with
  | lobby => cases b <;> simp [visited]
  | chan d => simp [visited, own]

@[simp] theorem base_setTicking : (s.setTicking t b).base = s.base := by
  cases t <;> rfl

@[simp] theorem chan_setTicking : (s.setTicking t b).chan c =
    if c = own t then if t = .lobby then s.chan c else { s.chan c with ticking := b }
    else s.chan c := by
  cases t with
  | lobby => simp [setTicking]
  | chan d => simp [setTicking, own]

/-- What `setTicking` leaves alone. -/
@[simp] theorem setTicking_rest : (s.setTicking t b).file = s.file ∧
    (s.setTicking t b).nextConn = s.nextConn ∧ (s.setTicking t b).listenFd = s.listenFd ∧
    (s.setTicking t b).names = s.names ∧ (s.setTicking t b).lobby = s.lobby ∧
    (s.setTicking t b).log = s.log := by
  cases t <;> exact ⟨rfl, rfl, rfl, rfl, rfl, rfl⟩

/-- Nothing of this touches the `JoinReqDto` objects. -/
@[simp] theorem logConn_tokens (f : Nat → LogEv) :
    (s.logConn n f).joinReqs = s.joinReqs ∧ (s.logConn n f).nextPtr = s.nextPtr := by
  unfold logConn
  split <;> exact ⟨rfl, rfl⟩

@[simp] theorem logSource_tokens (f : Nat → LogEv) :
    (s.logSource t f).joinReqs = s.joinReqs ∧ (s.logSource t f).nextPtr = s.nextPtr := by
  unfold logSource
  split <;> exact ⟨rfl, rfl⟩

@[simp] theorem logAdmitted_tokens :
    (s.logAdmitted t n).joinReqs = s.joinReqs ∧ (s.logAdmitted t n).nextPtr = s.nextPtr := by
  unfold logAdmitted
  split
  · exact logConn_tokens s n _
  · exact ⟨rfl, rfl⟩

@[simp] theorem visited_tokens :
    (s.visited t n b).joinReqs = s.joinReqs ∧ (s.visited t n b).nextPtr = s.nextPtr := by
  cases t with
  | lobby => cases b <;> exact ⟨rfl, rfl⟩
  | chan c => exact ⟨rfl, rfl⟩

@[simp] theorem setTicking_tokens :
    (s.setTicking t b).joinReqs = s.joinReqs ∧ (s.setTicking t b).nextPtr = s.nextPtr := by
  cases t <;> exact ⟨rfl, rfl⟩

/-- Interest lists do not say what is behind a connection's number. -/
theorem conn?_onInterest (f : Finset Fd → Finset Fd) :
    File.conn? ((s.onInterest v f).file n) = File.conn? (s.file n) := by
  rw [onInterest_file, Function.update_apply]
  split
  · rename_i h
    rw [h]
    cases s.file (s.base v).efd with
    | none => rfl
    | some x => cases x <;> rfl
  · rfl

/-! ## One record changed -/

/-- The record of `v`, changed if `v` is `u`. -/
def atBase (u v : Srv) (f : Base → Base) : Base := if v = u then f (s.base v) else s.base v

/-- The record of `c`, changed if `c` is `d`. -/
def atChan (d c : ChId) (f : Chan → Chan) : Chan := if c = d then f (s.chan c) else s.chan c

@[simp] theorem atBase_self (f : Base → Base) : s.atBase v v f = f (s.base v) := if_pos rfl

theorem atBase_of_ne {u : Srv} (f : Base → Base) (h : v ≠ u) : s.atBase u v f = s.base v :=
  if_neg h

@[simp] theorem atChan_self (f : Chan → Chan) : s.atChan c c f = f (s.chan c) := if_pos rfl

theorem atChan_of_ne {d : ChId} (f : Chan → Chan) (h : c ≠ d) : s.atChan d c f = s.chan c :=
  if_neg h

/-- A field that the change leaves alone. -/
theorem atBase_field {α : Type} (φ : Base → α) {u : Srv} {f : Base → Base}
    (hf : ∀ b, φ (f b) = φ b) : φ (s.atBase u v f) = φ (s.base v) := by
  unfold atBase
  split
  · exact hf _
  · rfl

/-- The same, for a call that replaces another record. -/
theorem ite_atBase_field {α : Type} (φ : Base → α) {u : Srv} {f : Base → Base} {p : Prop}
    [Decidable p] {b : Base} (hf : ∀ b, φ (f b) = φ b) :
    φ (if p then b else s.atBase u v f) = if p then φ b else φ (s.base v) := by
  split
  · rfl
  · exact s.atBase_field v φ hf

theorem atChan_field {α : Type} (φ : Chan → α) {d : ChId} {f : Chan → Chan}
    (hf : ∀ ch, φ (f ch) = φ ch) : φ (s.atChan d c f) = φ (s.chan c) := by
  unfold atChan
  split
  · exact hf _
  · rfl

end St

/-! ## The records -/

namespace After

variable (t : Srv) (s : St)

def file : (a : Act) → Res a → Fd → Option File
  | .accept, some n => Function.update s.file n (some (.conn s.nextConn))
  | .close n, _ => (s.closeFile n).file
  | .addClient n, .ok => (s.onInterest t fun i => insert n i).file
  | .deleteClient n, true => (s.onInterest t fun i => i.erase n).file
  | .listenSocket, some n => Function.update s.file n (some .socket)
  | .bindListen, true => Function.update s.file s.listenFd (some (.listener s.nextListener))
  | .epollCreate _, some e => Function.update s.file e (some (.epoll ∅))
  | .epollAddListener c, true => (s.onInterest (.chan c) fun i => insert s.listenFd i).file
  | .epollDel c n, _ => (s.onInterest (.chan c) fun i => i.erase n).file
  | .closeListener, _ => (s.closeFile s.listenFd).file
  | _, _ => s.file

def nextConn : (a : Act) → Res a → Nat
  | .accept, some _ => s.nextConn + 1
  | _, _ => s.nextConn

def joinReqs : Act → List Nat
  | .newJoinReq => s.joinReqs ++ [s.nextPtr]
  | .deleteJoinReq p => s.joinReqs.erase p
  | _ => s.joinReqs

def nextPtr : Act → Nat
  | .newJoinReq => s.nextPtr + 1
  | _ => s.nextPtr

def listenFd : (a : Act) → Res a → Fd
  | .listenSocket, some n => n
  | .closeListener, _ => fdErr
  | _, _ => s.listenFd

def names : (a : Act) → Res a → Fd → Option Bytes
  | .setUserName n u, _ => Function.update s.names n (some u)
  | .removeUserName n, _ => Function.update s.names n none
  | _, _ => s.names

/-- What the call adds to the log. -/
def log : (a : Act) → Res a → List LogEv
  | .recv n, .chunk b => ((File.conn? (s.file n)).map fun k => .read t k b).toList
  | .close n, _ => ((File.conn? (s.file n)).map (.closed t)).toList
  | .addClient n, .ok =>
    if t = .lobby then ((File.conn? (s.file n)).map .admitted).toList else []
  | .decode _, r => ((s.base t).aux.source.map fun p => .decoded t p.2 r).toList
  | .onFrame _ f, _ => ((s.base t).aux.source.map fun p => .handled t p.2 f).toList
  | .insertDeletionAt c n, _ => [.evicted c n]
  | .startWorker c, false => [.spawnFailed c (decide (c ∈ s.lobby.ids))]
  | .newTracker c _, _ => [.renewed (.chan c)]
  | .dropTracker c, _ => [.renewed (.chan c)]
  | _, _ => []

def lobby : (a : Act) → Res a → Lobby
  | .loadRunning, r => { s.lobby with isRunning := r }
  | .report n p j, _ => { s.lobby with
      reports := s.lobby.reports ++ [⟨n, p, j, (s.base t).aux.source.map Prod.snd⟩] }
  | .popReports, _ => { s.lobby with localQ := s.lobby.reports, reports := [] }
  | .nextReport, r => { s.lobby with req := r, localQ := s.lobby.localQ.tail }
  | .dropReports, _ => { s.lobby with localQ := [], req := none }
  | .insertChannel c, _ => { s.lobby with ids := s.lobby.ids ++ [c] }
  | .eraseChannel c, _ => { s.lobby with ids := s.lobby.ids.erase c }
  | .setLastAct n x, _ => { s.lobby with lastAct := assign n x s.lobby.lastAct }
  | .eraseLastAct n, _ => { s.lobby with lastAct := eraseKey n s.lobby.lastAct }
  | .assignLastAct x, _ => { s.lobby with lastAct := x }
  | .storeThrottle v, _ => { s.lobby with throttle := v }
  | _, _ => s.lobby

def base (v : Srv) : (a : Act) → Res a → Base
  | .epollWait, some evs => s.atBase t v fun b => { b with events := evs }
  | .accept, some n => s.atBase t v fun b => { b with aux := { b.aux with arrived := some n } }
  | .recv n, .chunk x => s.atBase t v fun b => { b with
      rbuf := Function.update b.rbuf n (some (s.buffer t n ++ x))
      aux := { b.aux with source := (File.conn? (s.file n)).map fun k => (n, k) } }
  | .recv n, .again => s.atBase t v fun b => { b with
      rbuf := Function.update b.rbuf n (some (s.buffer t n))
      aux := { b.aux with source := (File.conn? (s.file n)).map fun k => (n, k) } }
  | .recv n, .fin => s.atBase t v fun b =>
    { b with rbuf := Function.update b.rbuf n (some (s.buffer t n)) }
  | .recv n, .error => s.atBase t v fun b =>
    { b with rbuf := Function.update b.rbuf n (some (s.buffer t n)) }
  | .close n, _ => s.atBase t v fun b => { b with aux := { b.aux with
      cursor := if b.aux.cursor = some (n, .doomed) then some (n, .closed) else b.aux.cursor
      scrapped := b.aux.scrapped.map fun p => (p.1, true) } }
  | .addClient n, r => s.atBase t v fun b => { b with
      clients := if r = .ok then insert n b.clients else b.clients
      aux := { b.aux with arrived := if t = .lobby then none else b.aux.arrived } }
  | .deleteClient n, r => s.atBase t v fun b => { b with
      clients := if r = true then b.clients.erase n else b.clients
      aux := { b.aux with
        cursor :=
          if b.aux.cursor = some (n, .picked) ∧ (r = true ∨ t ≠ .lobby) then some (n, .doomed)
          else b.aux.cursor
        placed := b.aux.placed.map fun p => if p.2.1 = n ∧ r = true then (p.1, n, true) else p } }
  | .decode n, r => s.atBase t v fun b => { b with
      rbuf := Function.update b.rbuf n (some (decodeFrames (s.buffer t n)).2)
      aux := { b.aux with batch := r.toOption.getD [] } }
  | .clearBuffer n, _ => s.atBase t v fun b => { b with
      rbuf := Function.update b.rbuf n none
      aux := { b.aux with
        cursor := if b.aux.cursor = some (n, .closed) then none else b.aux.cursor } }
  | .onFrame _ f, _ => s.atBase t v fun b =>
    { b with aux := { b.aux with batch := b.aux.batch.tail, current := some f } }
  | .endRecv, _ => s.atBase t v fun b =>
    { b with aux := { b.aux with source := none, batch := [], current := none, placed := none } }
  | .clearDeletion, _ => s.atBase t v fun b =>
    { b with nextDeletion := ∅, aux := { b.aux with remaining := none } }
  | .insertDeletion n, _ => s.atBase t v fun b =>
    { b with nextDeletion := insert n b.nextDeletion }
  | .getDeletion, r => s.atBase t v fun b =>
    { b with aux := { b.aux with remaining := some r, start := s.snapshot } }
  | .setCursor o, _ => s.atBase t v fun b => { b with aux := { b.aux with
      cursor := o.map fun n => (n, .picked)
      remaining := o.elim b.aux.remaining fun n => b.aux.remaining.map fun l => l.erase n
      placed := none } }
  | .getUserName n, r => s.atBase t v fun b =>
    { b with aux := { b.aux with known := r.map fun _ => n } }
  | .report _ _ _, _ => s.atBase t v fun b => { b with aux := { b.aux with current := none } }
  | .nextReport, _ => s.atBase t v fun b =>
    { b with aux := { b.aux with known := none, placed := none } }
  | .dropReports, _ => s.atBase t v fun b =>
    { b with aux := { b.aux with known := none, placed := none } }
  | .lockPool _, _ => s.atBase t v fun b => { b with aux := { b.aux with placed := none } }
  | .unlockPool _, _ => s.atBase t v fun b => { b with aux := { b.aux with placed := none } }
  | .emplaceJoin c n _, _ => s.atBase t v fun b =>
    { b with aux := { b.aux with known := none, placed := some (c, n, false) } }
  | .emplaceLeave _ n _, _ => s.atBase t v fun b => { b with aux := { b.aux with
      known := none
      placed := b.aux.placed.map fun p => if p.2.1 = n then (p.1, n, true) else p } }
  | .insertDeletionAt c n, _ => s.atBase (.chan c) v fun b =>
    { b with nextDeletion := insert n b.nextDeletion }
  | .newTracker c m, _ => s.atBase (.chan c) v fun _ => Base.fresh m
  | .epollCreate c, some e => s.atBase (.chan c) v fun b => { b with efd := e }
  | .newSession c k, _ => s.atBase (.chan c) v fun b =>
    { b with runner := b.runner ++ List.replicate k [] }
  | .pushBack c w x, _ => s.atBase (.chan c) v fun b =>
    { b with runner := pushTask false w x b.runner }
  | .pushFront c w x, _ => s.atBase (.chan c) v fun b =>
    { b with runner := pushTask true w x b.runner }
  | .getEfd c, _ => s.atBase t v fun b => { b with aux := { b.aux with scrapped := some (c, false) } }
  | .dropTracker c, _ =>
    if v = .chan c then Base.fresh (s.base v).maxFd
    else s.atBase t v fun b => { b with aux := { b.aux with scrapped := none } }
  | _, _ => s.base v

def chan (c : ChId) : (a : Act) → Res a → Chan
  | .addClient n, _ => s.atChan (own t) c fun ch =>
    { ch with joining := if t = .lobby then ch.joining else ch.joining.erase n }
  | .deleteClient n, _ => s.atChan (own t) c fun ch =>
    { ch with leaving := if t = .lobby then ch.leaving else ch.leaving.erase n }
  | .beginRun, _ => s.atChan (own t) c fun ch =>
    { ch with ticking := if t = .lobby then ch.ticking else true }
  | .endRun, _ => s.atChan (own t) c fun ch =>
    { ch with ticking := if t = .lobby then ch.ticking else false }
  | .exitThread, _ => s.atChan (own t) c fun ch => { ch with worker := .ended }
  | .takeJoinPool, r => s.atChan (own t) c fun ch => { ch with joinPool := [], joining := keys r }
  | .takeLeavePool, r => s.atChan (own t) c fun ch => { ch with leavePool := [], leaving := keys r }
  | .pushMq n m, _ => s.atChan (own t) c fun ch => { ch with mq := ch.mq ++ [(n, m)] }
  | .popMq, _ => s.atChan (own t) c fun ch => { ch with mq := [] }
  | .clearCurMsgs, _ => s.atChan (own t) c fun ch => { ch with curMsgs := [] }
  | .emplaceCurMsg x n m, _ => s.atChan (own t) c fun ch =>
    { ch with curMsgs := multimapEmplace x (n, m) ch.curMsgs }
  | .lockPool d, _ => s.atChan d c fun ch => { ch with mtx := some t, unpublished := ∅ }
  | .unlockPool d, _ => s.atChan d c fun ch => { ch with mtx := none, unpublished := ∅ }
  | .emplaceJoin d n m, _ => s.atChan d c fun ch => { ch with
      joinPool := emplace n m ch.joinPool, unpublished := insert n ch.unpublished }
  | .emplaceLeave d n m, _ => s.atChan d c fun ch =>
    { ch with leavePool := emplace n m ch.leavePool }
  | .storeStop d b, _ => s.atChan d c fun ch => { ch with stopFlag := b }
  | .storeEmptySince d x, _ => s.atChan d c fun ch => { ch with emptySince := x }
  | .joinWorker d, _ => s.atChan d c fun ch => { ch with worker := .absent }
  | .startWorker d, true => s.atChan d c fun ch => { ch with worker := .running }
  | .newTracker d _, _ => s.atChan d c fun _ => Chan.fresh
  | .dropTracker d, _ => s.atChan d c fun _ => Chan.fresh
  | _, _ => s.chan c

end After

section

variable {t : Srv} {a : Act} {r : Res a} {s s' : St}

/-! ## The calls

By cases on the call; each case is the definition of `exec` at it. -/

attribute [local simp] St.condemned St.advance St.fill St.sourced

section

attribute [local simp] After.base St.atBase

theorem exec_base_own (h : exec t a r s = some s') : s'.base t = After.base t s t a r := by
  cases a
  case stall => cases h
  case addClient n =>
    cases r <;> obtain ⟨_, rfl⟩ := need_eq_some.mp h <;> cases t <;> simp
  case dropTracker c =>
    obtain rfl := Option.some.inj h
    by_cases hc : t = .chan c
    · simp [hc, Base.fresh, Aux.fresh]
    · simp [hc]
  all_goals first
    | (obtain ⟨_, rfl⟩ := need_eq_some.mp h; simp)
    | (obtain rfl := Option.some.inj h; simp)
    | (cases r <;> first
      | (obtain ⟨_, rfl⟩ := need_eq_some.mp h; simp)
      | (obtain rfl := Option.some.inj h; simp))

theorem exec_base_other (h : exec t a r s = some s') (v : Srv) (hv : v ≠ t) : s'.base v = After.base t s v a r := by
  cases a
  case stall => cases h
  all_goals first
    | (obtain ⟨_, rfl⟩ := need_eq_some.mp h; simp [hv])
    | (obtain rfl := Option.some.inj h; simp [hv])
    | (cases r <;> first
      | (obtain ⟨_, rfl⟩ := need_eq_some.mp h; simp [hv])
      | (obtain rfl := Option.some.inj h; simp [hv]))

theorem exec_base (h : exec t a r s = some s') (v : Srv) : s'.base v = After.base t s v a r := by
  by_cases hv : v = t
  · subst hv
    exact exec_base_own h
  · exact exec_base_other h v hv

end

section

attribute [local simp] After.chan St.atChan

theorem exec_chan (h : exec t a r s = some s') (c : ChId) : s'.chan c = After.chan t s c a r := by
  cases a
  case stall => cases h
  case addClient n =>
    cases r <;> obtain ⟨_, rfl⟩ := need_eq_some.mp h <;> cases t <;> simp
  case deleteClient n =>
    cases r <;> obtain ⟨_, rfl⟩ := need_eq_some.mp h <;> cases t <;> simp
  case beginRun => obtain ⟨_, rfl⟩ := need_eq_some.mp h; cases t <;> simp
  case endRun => obtain rfl := Option.some.inj h; cases t <;> simp
  all_goals first
    | (obtain ⟨_, rfl⟩ := need_eq_some.mp h; simp)
    | (obtain rfl := Option.some.inj h; simp)
    | (cases r <;> first
      | (obtain ⟨_, rfl⟩ := need_eq_some.mp h; simp)
      | (obtain rfl := Option.some.inj h; simp))


end

theorem exec_lobby (h : exec t a r s = some s') : s'.lobby = After.lobby t s a r := by
  cases a
  case stall => cases h
  all_goals first
    | (obtain ⟨_, rfl⟩ := need_eq_some.mp h; simp [After.lobby])
    | (obtain rfl := Option.some.inj h; simp [After.lobby])
    | (cases r <;> first
      | (obtain ⟨_, rfl⟩ := need_eq_some.mp h; simp [After.lobby])
      | (obtain rfl := Option.some.inj h; simp [After.lobby]))

theorem exec_file (h : exec t a r s = some s') : s'.file = After.file t s a r := by
  cases a
  case stall => cases h
  all_goals first
    | (obtain ⟨_, rfl⟩ := need_eq_some.mp h; simp [After.file])
    | (obtain rfl := Option.some.inj h; simp [After.file])
    | (cases r <;> first
      | (obtain ⟨_, rfl⟩ := need_eq_some.mp h; simp [After.file])
      | (obtain rfl := Option.some.inj h; simp [After.file]))

theorem exec_names (h : exec t a r s = some s') : s'.names = After.names s a r := by
  cases a
  case stall => cases h
  all_goals first
    | (obtain ⟨_, rfl⟩ := need_eq_some.mp h; simp [After.names])
    | (obtain rfl := Option.some.inj h; simp [After.names])
    | (cases r <;> first
      | (obtain ⟨_, rfl⟩ := need_eq_some.mp h; simp [After.names])
      | (obtain rfl := Option.some.inj h; simp [After.names]))

theorem exec_nextConn (h : exec t a r s = some s') : s'.nextConn = After.nextConn s a r := by
  cases a
  case stall => cases h
  all_goals first
    | (obtain ⟨_, rfl⟩ := need_eq_some.mp h; simp [After.nextConn])
    | (obtain rfl := Option.some.inj h; simp [After.nextConn])
    | (cases r <;> first
      | (obtain ⟨_, rfl⟩ := need_eq_some.mp h; simp [After.nextConn])
      | (obtain rfl := Option.some.inj h; simp [After.nextConn]))

theorem exec_joinReqs (h : exec t a r s = some s') : s'.joinReqs = After.joinReqs s a := by
  cases a
  case stall => cases h
  all_goals first
    | (obtain ⟨_, rfl⟩ := need_eq_some.mp h; simp [After.joinReqs])
    | (obtain rfl := Option.some.inj h; simp [After.joinReqs])
    | (cases r <;> first
      | (obtain ⟨_, rfl⟩ := need_eq_some.mp h; simp [After.joinReqs])
      | (obtain rfl := Option.some.inj h; simp [After.joinReqs]))

theorem exec_nextPtr (h : exec t a r s = some s') : s'.nextPtr = After.nextPtr s a := by
  cases a
  case stall => cases h
  all_goals first
    | (obtain ⟨_, rfl⟩ := need_eq_some.mp h; simp [After.nextPtr])
    | (obtain rfl := Option.some.inj h; simp [After.nextPtr])
    | (cases r <;> first
      | (obtain ⟨_, rfl⟩ := need_eq_some.mp h; simp [After.nextPtr])
      | (obtain rfl := Option.some.inj h; simp [After.nextPtr]))

theorem exec_listenFd (h : exec t a r s = some s') : s'.listenFd = After.listenFd s a r := by
  cases a
  case stall => cases h
  all_goals first
    | (obtain ⟨_, rfl⟩ := need_eq_some.mp h; simp [After.listenFd])
    | (obtain rfl := Option.some.inj h; simp [After.listenFd])
    | (cases r <;> first
      | (obtain ⟨_, rfl⟩ := need_eq_some.mp h; simp [After.listenFd])
      | (obtain rfl := Option.some.inj h; simp [After.listenFd]))

theorem exec_log (h : exec t a r s = some s') : s'.log = s.log ++ After.log t s a r := by
  cases a
  case stall => cases h
  case addClient n =>
    cases r <;> obtain ⟨_, rfl⟩ := need_eq_some.mp h
    · simp [After.log, St.conn?_onInterest, -St.onInterest_file]
    all_goals simp [After.log]
  all_goals first
    | (obtain ⟨_, rfl⟩ := need_eq_some.mp h; simp [After.log])
    | (obtain rfl := Option.some.inj h; simp [After.log])
    | (cases r <;> first
      | (obtain ⟨_, rfl⟩ := need_eq_some.mp h; simp [After.log])
      | (obtain rfl := Option.some.inj h; simp [After.log]))

end

end ChatChannel
