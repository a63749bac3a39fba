import ChatChannel.Conc.Logic
import ChatChannel.Proof.Fields

/-!
# The discipline of the threads

What each thread guarantees whenever it makes a call, for every interleaving: which locks it
holds, that a descriptor it deletes was taken from the set it should come from, that a channel is
empty when its object is destroyed. `Pre` lists these facts call by call, and `Wf` is the invariant
they keep; `Proof/Worker.lean` and `Proof/LobbyThread.lean` show that the programs respect `Pre`.

Nothing here depends on what clients send or on how the kernel answers. The properties of single
claims are proved on top, by induction over the events of a run.
-/

set_option autoImplicit false

namespace ChatChannel

open Conc

/-! ## The tasks of a channel -/

/-- What the constructors push before the worker is started. -/
def bootTasks : List (List Task) :=
  [[.clearDeletion, .clearCurMsgs], [.polling, .handleEvents], [.chat, .resolveDeletion]]

/-- All tasks of a channel. -/
def channelTasks : List (List Task) :=
  [[.clearDeletion, .clearCurMsgs], [.polling, .handleEvents],
    [.resolvePool, .chat, .resolveDeletion]]

/-! ## Requests to move -/

/-- The frame asks the server that reads it to hand the client over. -/
def moves (P : Params) (v : Srv) (f : Bytes) : Bool :=
  match requestOf P.js f with
  | none => false
  | some (target, root) =>
    match v with
    | .lobby => isJoin target && (unpackLobbyJoin P.js root).isSome
    | .chan c =>
      !isMessage target && isJoin target && (unpackChannelJoin P.js root).any fun q => q.1 ≠ c

/-! ## Predicates on states -/

/-- Nobody is in the channel or about to be taken in. -/
structure Hollow (c : ChId) (s : St) : Prop where
  clients : (s.base (.chan c)).clients = ∅
  joinPool : (s.chan c).joinPool = []
  joining : (s.chan c).joining = []

/-- `ping_pool` found room. -/
def Room (c : ChId) (s : St) : Prop :=
  (s.base (.chan c)).clients.card + (s.chan c).joinPool.length
    < asSize (s.base (.chan c)).maxFd

/-- A channel is bound to close what is behind the descriptor, or it is no connection the lobby's
tracker ever took. -/
def Exempt (n : Fd) (s : St) : Prop :=
  (∃ c, (s.base (.chan c)).aux.cursor = some (n, .doomed)) ∨
    ∀ k, s.file n = some (.conn k) → .admitted k ∉ s.log

/-- A channel in the map could not get a thread when it was asked to take someone in. -/
def SpawnFailed (s : St) : Prop := ∃ c, .spawnFailed c true ∈ s.log

/-- The lobby has entered the descriptor into the pool of `c`, whose lock it holds. -/
def Placed (c : ChId) (n : Fd) (s : St) : Prop :=
  (s.base .lobby).aux.placed = some (c, n, false) ∧ (s.chan c).mtx = some .lobby ∧
    n ∈ keys (s.chan c).joinPool

/-! ## The invariant -/

structure Wf (s : St) : Prop where
  /-- `local_q` is empty outside the critical section of `resolve_pool`. -/
  unlocked : ∀ c, (s.chan c).mtx ≠ some (.chan c) →
    (s.chan c).joining = [] ∧ (s.chan c).leaving = []
  /-- Only the lobby makes entries that are not published yet. -/
  published : ∀ c, (s.chan c).mtx ≠ some .lobby → (s.chan c).unpublished = ∅
  stopped : ∀ c, (s.chan c).stopFlag = true → Hollow c s
  vacant : ∀ c, c ∉ s.lobby.ids → Hollow c s
  resting : ∀ c, (s.chan c).worker ≠ .running → (s.base (.chan c)).aux.cursor = none
  tasks : ∀ c, (s.chan c).worker = .running →
    (s.base (.chan c)).runner = bootTasks ∨ (s.base (.chan c)).runner = channelTasks
  main : (s.base .lobby).runner = lobbyTasks
  born : ∀ n k, s.file n = some (.conn k) → k < s.nextConn
  single : ∀ m n k, s.file m = some (.conn k) → s.file n = some (.conn k) → m = n
  admitted : ∀ k, .admitted k ∈ s.log → k < s.nextConn

/-! ## What is known when a call is made -/

/-- The calls of a channel's worker, in a tick. -/
def WorkerPre (P : Params) (c : ChId) (s : St) : Act → Prop
  | .exitThread =>
    (s.base (.chan c)).aux.cursor = none ∧ (s.chan c).mtx ≠ some (.chan c)
  | .recv _ => (s.base (.chan c)).aux.cursor = none
  | .decode n =>
    (s.base (.chan c)).aux.cursor = none ∧ ∃ k, (s.base (.chan c)).aux.source = some (n, k)
  | .onFrame n f => (∃ k, (s.base (.chan c)).aux.source = some (n, k)) ∧
    ∃ l, (s.base (.chan c)).aux.batch = f :: l
  | .endRecv => (s.base (.chan c)).aux.batch = []
  | .report n _ j => (∃ k, (s.base (.chan c)).aux.source = some (n, k)) ∧
    (∃ f, (s.base (.chan c)).aux.current = some f ∧ moves P (.chan c) f = true) ∧
    j.chFrom = c ∧ j.chTo ≠ c
  | .getDeletion =>
    (s.base (.chan c)).aux.remaining = none ∧ (s.base (.chan c)).aux.cursor = none
  | .clearDeletion => (s.base (.chan c)).aux.cursor = none
  | .setCursor o => (s.base (.chan c)).aux.cursor = none ∧
    (s.base (.chan c)).aux.source = none ∧ ∀ n, o = some n → ∃ l, (s.base (.chan c)).aux.remaining = some l ∧ n ∈ l
  | .deleteClient n =>
    ((s.chan c).mtx = some (.chan c) ∧ n ∈ (s.chan c).leaving ∧ (s.chan c).joining = [] ∧
      (s.chan c).joinPool = [] ∧ (s.base (.chan c)).aux.cursor = none) ∨
    ((s.chan c).mtx ≠ some (.chan c) ∧ (s.base (.chan c)).aux.cursor = some (n, .picked))
  | .removeUserName n => (s.base (.chan c)).aux.cursor = some (n, .doomed)
  | .close n => (s.base (.chan c)).aux.cursor = some (n, .doomed)
  | .clearBuffer n => (s.base (.chan c)).aux.cursor = some (n, .closed)
  | .lockPool d => d = c ∧ (s.base (.chan c)).aux.cursor = none
  | .takeJoinPool => (s.chan c).mtx = some (.chan c) ∧ (s.chan c).joining = [] ∧
    (s.chan c).leaving = []
  | .addClient n => (s.chan c).mtx = some (.chan c) ∧ n ∈ (s.chan c).joining ∧
    (s.chan c).leaving = []
  | .takeLeavePool => (s.chan c).mtx = some (.chan c) ∧ (s.chan c).joining = [] ∧
    (s.chan c).leaving = []
  | .storeStop d b => d = c ∧ b = true ∧ (s.chan c).mtx = some (.chan c) ∧ Hollow c s
  | .storeEmptySince d _ => d = c
  | .unlockPool d => d = c ∧ (s.chan c).mtx = some (.chan c) ∧ (s.chan c).joining = [] ∧
    (s.chan c).leaving = []
  | .epollWait | .accept | .send _ _ | .getEv | .getClients | .getClientCount | .isListener _
  | .insertDeletion _ | .beginRun | .endRun | .getUserName _ | .systemNow | .newJoinReq
  | .joinPoolEmpty | .pushMq _ _ | .popMq | .clearCurMsgs | .emplaceCurMsg _ _ _ | .getCurMsgs
  | .stall => True
  | _ => False

/-- The calls of the lobby's thread. -/
def LobbyPre (P : Params) (s : St) : Act → Prop
  | .recv _ => (s.base .lobby).aux.cursor = none
  | .decode n =>
    (s.base .lobby).aux.cursor = none ∧ ∃ k, (s.base .lobby).aux.source = some (n, k)
  | .onFrame n f => (∃ k, (s.base .lobby).aux.source = some (n, k)) ∧
    ∃ l, (s.base .lobby).aux.batch = f :: l
  | .endRecv => (s.base .lobby).aux.batch = [] ∨
    ∃ f, (s.base .lobby).aux.current = some f ∧ moves P .lobby f = true
  | .addClient n =>
    (s.base .lobby).aux.arrived = some n ∧ (s.base .lobby).aux.remaining = none ∧
      (s.base .lobby).aux.cursor = none
  | .getDeletion => (s.base .lobby).aux.remaining = none ∧ (s.base .lobby).aux.cursor = none
  | .clearDeletion => (s.base .lobby).aux.cursor = none
  | .setCursor o =>
    (∀ n st, (s.base .lobby).aux.cursor = some (n, st) → st = .picked) ∧
      (s.base .lobby).aux.source = none ∧ ∀ n, o = some n → ∃ l, (s.base .lobby).aux.remaining = some l ∧ n ∈ l
  | .deleteClient n =>
    (s.base .lobby).aux.cursor = some (n, .picked) ∨
    (s.base .lobby).aux.cursor = none ∧ s.lobby.req = none ∧
      (∃ k f, (s.base .lobby).aux.source = some (n, k) ∧
        (s.base .lobby).aux.current = some f ∧ moves P .lobby f = true) ∧
      ((∃ c, Placed c n s) ∨
        (s.base .lobby).aux.placed = none ∧ (Exempt n s ∨ SpawnFailed s))
  | .removeUserName n => (s.base .lobby).aux.cursor = some (n, .doomed)
  | .close n => (s.base .lobby).aux.cursor = some (n, .doomed) ∨
    (s.base .lobby).aux.cursor = none ∧
      ∃ c, n = (s.base (.chan c)).efd ∧ n ≠ fdErr ∧ (s.chan c).worker = .absent ∧
        (s.base .lobby).aux.scrapped = some (c, false) ∧ Hollow c s
  | .clearBuffer n => (s.base .lobby).aux.cursor = some (n, .closed)
  | .lockPool _ => True
  | .unlockPool c => (s.chan c).mtx = some .lobby ∧
    (s.base .lobby).aux.cursor = none ∧
    ∀ n ∈ (s.chan c).unpublished, (s.base .lobby).aux.placed = some (c, n, true) ∨
      ∃ d, .evicted d n ∈ s.log
  | .emplaceJoin c n _ => (s.chan c).mtx = some .lobby ∧ (s.chan c).stopFlag = false ∧
    c ∈ s.lobby.ids ∧ (s.base .lobby).aux.cursor = none ∧
    (Room c s ∨ Hollow c s) ∧ (s.base .lobby).aux.known = some n ∧
    (∀ r, s.lobby.req = some r → r.from' = n ∧ r.join.chTo = c) ∧
    (s.lobby.req = none → ∃ k, (s.base .lobby).aux.source = some (n, k))
  | .emplaceLeave c n _ => (s.base .lobby).aux.known = some n ∧
    ∃ r, s.lobby.req = some r ∧ r.from' = n ∧ r.join.chFrom = c ∧
      (Placed r.join.chTo n s ∨ (s.base .lobby).aux.placed = none ∧ SpawnFailed s)
  | .insertDeletionAt c n => ∃ r, s.lobby.req = some r ∧ r.from' = n ∧ r.join.chFrom = c
  | .popReports => s.lobby.localQ = [] ∧ s.lobby.req = none
  | .nextReport => True
  | .dropReports => True
  | .setUserName _ _ => s.lobby.req = none
  | .listenSocket => s.listenFd = fdErr
  | .storeStop c b => b = true → Hollow c s
  | .startWorker c => (s.chan c).worker = .absent ∧
    ((s.base (.chan c)).runner = bootTasks ∨ (s.base (.chan c)).runner = channelTasks)
  | .newTracker c m => m = P.chMaxFd ∧ (s.chan c).worker = .absent ∧ c ∉ s.lobby.ids
  | .epollCreate c | .epollAddListener c | .newSession c _ | .pushBack c _ _ =>
    (s.chan c).worker = .absent
  | .pushFront c w x => (s.chan c).worker = .absent ∨
    w = tsLogic ∧ x = .resolvePool ∧ (s.base (.chan c)).runner = bootTasks
  | .dropTracker c => (s.chan c).worker = .absent ∧ Hollow c s
  | .eraseChannel c => Hollow c s
  | .epollWait | .accept | .send _ _ | .stall | .getEv | .getClients | .getClientCount
  | .isListener _ | .insertDeletion _ | .beginRun | .endRun | .loadRunning
  | .getUserName _ | .systemNow | .steadyNow | .deleteJoinReq _ | .findChannel _ | .channelIds
  | .insertChannel _ | .setLastAct _ _ | .eraseLastAct _ | .getLastAct
  | .assignLastAct _ | .loadThrottle | .storeThrottle _ | .pingPool _ | .loadStop _
  | .loadEmptySince _ | .storeEmptySince _ _ | .joinable _ | .joinWorker _ | .getListenFd
  | .bindListen | .getEfd _ | .trackedBy _ | .closeListener => True
  | _ => False

/-- What thread `t` knows when it makes a call. A worker looks at its flag before it knows whether it
runs. -/
def Pre (P : Params) : Srv → Act → St → Prop
  | .lobby, a, s => LobbyPre P s a
  | .chan c, .loadStop d, _ => d = c
  | .chan c, a, s => (s.chan c).worker = .running ∧ WorkerPre P c s a

/-! ## The invariant is kept -/

section

variable {P : Params} {t : Srv} {a : Act} {r : Res a} {s s' : St}

theorem Pre.running {c : ChId} (h : Pre P (.chan c) a s) (ha : ∀ d, a ≠ .loadStop d) :
    (s.chan c).worker = .running ∧ WorkerPre P c s a := by
  cases a <;> first | exact h | exact absurd rfl (ha _)

theorem conn?_eq_some {f : Option File} {k : Nat} : File.conn? f = some k ↔ f = some (.conn k) := by
  cases f with
  | none => simp [File.conn?]
  | some x => cases x <;> simp [File.conn?]

theorem map_forget_conn {f : Option File} {m : Fd} {k : Nat} :
    f.map (File.forget m) = some (.conn k) ↔ f = some (.conn k) := by
  cases f with
  | none => simp
  | some x => cases x <;> simp [File.forget]

theorem map_mapInterest_conn {f : Option File} {g : Finset Fd → Finset Fd} {k : Nat} :
    f.map (File.mapInterest g) = some (.conn k) ↔ f = some (.conn k) := by
  cases f with
  | none => simp
  | some x => cases x <;> simp [File.mapInterest]

theorem onInterest_conn {v : Srv} {g : Finset Fd → Finset Fd} {n : Fd} {k : Nat} :
    (s.onInterest v g).file n = some (.conn k) ↔ s.file n = some (.conn k) := by
  rw [St.onInterest_file, Function.update_apply]
  split
  · rename_i h
    rw [map_mapInterest_conn, h]
  · exact Iff.rfl

theorem closeFile_conn {m n : Fd} {k : Nat} :
    (s.closeFile m).file n = some (.conn k) ↔ n ≠ m ∧ s.file n = some (.conn k) := by
  rw [St.closeFile_file, Function.update_apply]
  split
  · rename_i h
    simp [h]
  · rename_i h
    rw [map_forget_conn]
    exact ⟨fun hk => ⟨h, hk⟩, And.right⟩

/-- A connection behind a number was there before, or is the one just accepted. -/
theorem conn_before {n : Fd} {k : Nat} (h : exec t a r s = some s')
    (hk : s'.file n = some (.conn k)) :
    s.file n = some (.conn k) ∨ k = s.nextConn ∧ s'.nextConn = s.nextConn + 1 := by
  rw [exec_file h] at hk
  rw [exec_nextConn h]
  cases a
  case accept =>
    cases r with
    | none => exact .inl hk
    | some m =>
      simp only [After.file, Function.update_apply] at hk
      split at hk
      · cases hk
        exact .inr ⟨rfl, rfl⟩
      · exact .inl hk
  case close m => exact .inl (closeFile_conn.mp hk).2
  case closeListener => exact .inl (closeFile_conn.mp hk).2
  case addClient m => cases r <;> first | exact .inl hk | exact .inl (onInterest_conn.mp hk)
  case deleteClient m => cases r <;> first | exact .inl hk | exact .inl (onInterest_conn.mp hk)
  case epollAddListener c => cases r <;> first | exact .inl hk | exact .inl (onInterest_conn.mp hk)
  case epollDel c m => exact .inl (onInterest_conn.mp hk)
  case listenSocket =>
    cases r with
    | none => exact .inl hk
    | some m =>
      simp only [After.file, Function.update_apply] at hk
      split at hk
      · cases hk
      · exact .inl hk
  case bindListen =>
    cases r with
    | false => exact .inl hk
    | true =>
      simp only [After.file, Function.update_apply] at hk
      split at hk
      · cases hk
      · exact .inl hk
  case epollCreate c =>
    cases r with
    | none => exact .inl hk
    | some m =>
      simp only [After.file, Function.update_apply] at hk
      split at hk
      · cases hk
      · exact .inl hk
  all_goals exact .inl hk

/-- A number that is opened was free. -/
theorem opened_ne {m n : Fd} {k : Nat} {f : File} (hfree : s.file m = none)
    (hk : s.file n = some (.conn k)) : Function.update s.file m (some f) n = some (.conn k) := by
  have hne : n ≠ m := by
    rintro rfl
    rw [hfree] at hk
    cases hk
  rwa [Function.update_of_ne hne]

/-- A connection stays behind its number until the number is closed. -/
theorem conn_after {n : Fd} {k : Nat} (h : exec t a r s = some s')
    (hk : s.file n = some (.conn k)) : s'.file n = some (.conn k) ∨ a = .close n ∨
      a = .closeListener ∧ s.listenFd = n := by
  rw [exec_file h]
  cases a
  case close m =>
    by_cases hm : n = m
    · exact .inr (.inl (by rw [hm]))
    · exact .inl (closeFile_conn.mpr ⟨hm, hk⟩)
  case closeListener =>
    by_cases hm : n = s.listenFd
    · exact .inr (.inr ⟨rfl, hm.symm⟩)
    · exact .inl (closeFile_conn.mpr ⟨hm, hk⟩)
  case accept =>
    cases r with
    | none => exact .inl hk
    | some m => exact .inl (opened_ne (need_eq_some.mp h).1.2.2 hk)
  case listenSocket =>
    cases r with
    | none => exact .inl hk
    | some m => exact .inl (opened_ne (need_eq_some.mp h).1.2 hk)
  case epollCreate c =>
    cases r with
    | none => exact .inl hk
    | some m => exact .inl (opened_ne (need_eq_some.mp h).1.2 hk)
  case bindListen =>
    cases r with
    | false => exact .inl hk
    | true =>
      have hsock : s.file s.listenFd = some .socket := (need_eq_some.mp h).1
      have hne : n ≠ s.listenFd := by
        rintro rfl
        rw [hsock] at hk
        cases hk
      left
      simpa [After.file, Function.update_of_ne hne] using hk
  case addClient m => cases r <;> first | exact .inl hk | exact .inl (onInterest_conn.mpr hk)
  case deleteClient m => cases r <;> first | exact .inl hk | exact .inl (onInterest_conn.mpr hk)
  case epollAddListener c => cases r <;> first | exact .inl hk | exact .inl (onInterest_conn.mpr hk)
  case epollDel c m => exact .inl (onInterest_conn.mpr hk)
  all_goals exact .inl hk

theorem nextConn_mono (h : exec t a r s = some s') : s.nextConn ≤ s'.nextConn := by
  rw [exec_nextConn h]
  cases a
  case accept => cases r <;> simp [After.nextConn]
  all_goals exact le_rfl

/-- Logged as admitted: before, or now by the lobby. -/
theorem admitted_before {k : Nat} (h : exec t a r s = some s') (hk : .admitted k ∈ s'.log) :
    .admitted k ∈ s.log ∨ ∃ n, a = .addClient n ∧ t = .lobby ∧ s.file n = some (.conn k) := by
  rw [exec_log h] at hk
  rw [List.mem_append] at hk
  refine hk.imp_right fun hl => ?_
  clear hk
  cases a
  case addClient n =>
    cases r with
    | ok =>
      simp only [After.log] at hl
      split at hl
      · rename_i ht
        refine ⟨n, rfl, ht, ?_⟩
        cases hf : s.file n with
        | none => simp [hf, File.conn?] at hl
        | some f =>
          cases f <;> simp [hf, File.conn?] at hl
          rw [hl]
      · simp at hl
    | full => simp [After.log] at hl
    | failed => simp [After.log] at hl
  case recv n => cases r <;> simp [After.log] at hl
  case startWorker c => cases r <;> simp [After.log] at hl
  all_goals simp [After.log] at hl

/-! ### Step lemmas -/

theorem Wf.unlocked_step (hw : Wf s) (hp : Pre P t a s) (h : exec t a r s = some s') (c : ChId)
    (hm : (s'.chan c).mtx ≠ some (.chan c)) :
    (s'.chan c).joining = [] ∧ (s'.chan c).leaving = [] := by
  rw [exec_mtx h] at hm
  rw [exec_joining h, exec_leaving h]
  have hu := hw.unlocked c
  cases a
  case lockPool d =>
    by_cases hc : c = d
    · have hfree : (s.chan d).mtx = none := (need_eq_some.mp h).1
      exact hu (by simp [hc, hfree])
    · exact hu (by simpa [After.mtx, hc] using hm)
  case unlockPool d =>
    by_cases hc : c = d
    · subst hc
      cases t with
      | lobby => exact hu (by rw [hp.1]; simp)
      | chan e =>
        obtain ⟨-, rfl, -, hj⟩ := hp
        exact hj
    · exact hu (by simpa [After.mtx, hc] using hm)
  case newTracker d m =>
    by_cases hc : c = d
    · simp [After.joining, After.leaving, hc]
    · simpa [After.joining, After.leaving, hc] using hu (by simpa [After.mtx, hc] using hm)
  case dropTracker d =>
    by_cases hc : c = d
    · simp [After.joining, After.leaving, hc]
    · simpa [After.joining, After.leaving, hc] using hu (by simpa [After.mtx, hc] using hm)
  case takeJoinPool =>
    cases t with
    | lobby => exact hp.elim
    | chan e =>
      by_cases hc : c = e
      · subst hc
        exact absurd hp.2.1 hm
      · simpa [After.joining, After.leaving, own, hc] using hu hm
  case takeLeavePool =>
    cases t with
    | lobby => exact hp.elim
    | chan e =>
      by_cases hc : c = e
      · subst hc
        exact absurd hp.2.1 hm
      · simpa [After.joining, After.leaving, own, hc] using hu hm
  case addClient n =>
    obtain ⟨hj, hl⟩ := hu hm
    simp [After.joining, After.leaving, hj, hl]
  case deleteClient n =>
    obtain ⟨hj, hl⟩ := hu hm
    simp [After.joining, After.leaving, hj, hl]
  all_goals exact hu hm

/-- A channel that is empty stays so, until the lobby puts someone in its pool. -/
theorem Hollow.step {c : ChId} (hh : Hollow c s) (hp : Pre P t a s) (h : exec t a r s = some s')
    (hne : ∀ n m, a ≠ .emplaceJoin c n m) : Hollow c s' := by
  obtain ⟨h1, h2, h3⟩ := hh
  suffices H : After.clients t s (.chan c) a r = ∅ ∧ After.joinPool t s c a r = [] ∧
      After.joining t s c a r = [] from
    ⟨(exec_clients h _).trans H.1, (exec_joinPool h c).trans H.2.1, (exec_joining h c).trans H.2.2⟩
  cases a
  case emplaceJoin d n m =>
    have hc : c ≠ d := by
      rintro rfl
      exact hne n m rfl
    simp [After.clients, After.joinPool, After.joining, h1, h2, h3, hc]
  case takeJoinPool =>
    by_cases hc : c = own t
    · subst hc
      have hr : r = [] := by
        have hperm : r.Perm (s.chan (own t)).joinPool := (need_eq_some.mp h).1
        rw [h2] at hperm
        exact List.perm_nil.mp hperm
      simp [After.clients, After.joinPool, After.joining, h1, hr]
    · simp [After.clients, After.joinPool, After.joining, h1, h2, h3, hc]
  case addClient n =>
    cases t with
    | lobby => simp [After.clients, After.joinPool, After.joining, h1, h2, h3]
    | chan e =>
      by_cases hc : c = e
      · subst hc
        exact absurd hp.2.2.1 (by simp [h3])
      · simp [After.clients, After.joinPool, After.joining, h1, h2, h3, hc, own]
  case deleteClient n => simp [After.clients, After.joinPool, After.joining, h1, h2, h3]
  case newTracker d m => simp [After.clients, After.joinPool, After.joining, h1, h2, h3]
  case dropTracker d => simp [After.clients, After.joinPool, After.joining, h1, h2, h3]
  all_goals exact ⟨h1, h2, h3⟩

theorem Wf.published_step (hw : Wf s) (hp : Pre P t a s) (h : exec t a r s = some s') (c : ChId)
    (hm : (s'.chan c).mtx ≠ some .lobby) : (s'.chan c).unpublished = ∅ := by
  rw [exec_mtx h] at hm
  rw [exec_unpublished h]
  have hu := hw.published c
  cases a
  case lockPool d =>
    by_cases hc : c = d
    · simp [After.unpublished, hc]
    · simpa [After.unpublished, hc] using hu (by simpa [After.mtx, hc] using hm)
  case unlockPool d =>
    by_cases hc : c = d
    · simp [After.unpublished, hc]
    · simpa [After.unpublished, hc] using hu (by simpa [After.mtx, hc] using hm)
  case emplaceJoin d n m =>
    cases t with
    | chan e => exact hp.2.elim
    | lobby =>
      by_cases hc : c = d
      · subst hc
        exact absurd hp.1 hm
      · simpa [After.unpublished, hc] using hu hm
  case newTracker d m =>
    by_cases hc : c = d
    · simp [After.unpublished, hc]
    · simpa [After.unpublished, hc] using hu (by simpa [After.mtx, hc] using hm)
  case dropTracker d =>
    by_cases hc : c = d
    · simp [After.unpublished, hc]
    · simpa [After.unpublished, hc] using hu (by simpa [After.mtx, hc] using hm)
  all_goals exact hu hm

theorem Wf.vacant_step (hw : Wf s) (hp : Pre P t a s) (h : exec t a r s = some s') (c : ChId)
    (hc : c ∉ s'.lobby.ids) : Hollow c s' := by
  rw [exec_lobby h] at hc
  by_cases hold : c ∈ s.lobby.ids
  · cases a
    case eraseChannel d =>
      have hcd : c = d := by
        by_contra hne
        exact hc ((List.mem_erase_of_ne hne).mpr hold)
      subst hcd
      cases t with
      | chan e => exact hp.2.elim
      | lobby => exact Hollow.step (P := P) (t := .lobby) hp hp h (by simp)
    case insertChannel d => exact absurd (List.mem_append_left _ hold) hc
    all_goals exact absurd hold hc
  · refine (hw.vacant c hold).step hp h ?_
    rintro n m rfl
    cases t with
    | chan e => exact hp.2.elim
    | lobby => exact hold hp.2.2.1

theorem Wf.stopped_step (hw : Wf s) (hp : Pre P t a s) (h : exec t a r s = some s') (c : ChId)
    (hf : (s'.chan c).stopFlag = true) : Hollow c s' := by
  have hne : ∀ n m, a ≠ .emplaceJoin c n m ∨ (s.chan c).stopFlag = false := by
    intro n m
    by_cases ha : a = .emplaceJoin c n m
    · subst ha
      cases t with
      | lobby => exact .inr hp.2.1
      | chan e => exact hp.2.elim
    · exact .inl ha
  rw [exec_stopFlag h] at hf
  have hold : (s.chan c).stopFlag = true → Hollow c s' := fun hs =>
    (hw.stopped c hs).step hp h fun n m => (hne n m).resolve_right (by simp [hs])
  cases a
  case storeStop d b =>
    by_cases hc : c = d
    · subst hc
      have hb : b = true := by simpa [After.stopFlag] using hf
      have hh : Hollow c s := by
        cases t with
        | lobby => exact hp hb
        | chan e =>
          obtain ⟨-, rfl, -, -, hh⟩ := hp
          exact hh
      exact hh.step hp h (by simp)
    · exact hold (by simpa [After.stopFlag, hc] using hf)
  case newTracker d m =>
    by_cases hc : c = d
    · exact absurd hf (by simp [After.stopFlag, hc])
    · exact hold (by simpa [After.stopFlag, hc] using hf)
  case dropTracker d =>
    by_cases hc : c = d
    · exact absurd hf (by simp [After.stopFlag, hc])
    · exact hold (by simpa [After.stopFlag, hc] using hf)
  all_goals exact hold hf

theorem Wf.resting_step (hw : Wf s) (hp : Pre P t a s) (h : exec t a r s = some s') (c : ChId)
    (hr : (s'.chan c).worker ≠ .running) : (s'.base (.chan c)).aux.cursor = none := by
  rw [exec_worker h] at hr
  rw [exec_cursor h]
  have hs := hw.resting c
  -- the cursor is moved by the worker itself only, and while it runs
  have hself : ∀ {α : Sort _}, t = .chan c → (∀ d, a ≠ .loadStop d) →
      (s.chan c).worker ≠ .running → α := by
    rintro α rfl ha hn
    exact absurd (hp.running ha).1 hn
  cases a
  case setCursor o =>
    by_cases hc : Srv.chan c = t
    · exact hself hc.symm (by simp) hr
    · simpa [After.cursor, hc] using hs hr
  case deleteClient n =>
    by_cases hc : Srv.chan c = t
    · exact hself hc.symm (by simp) hr
    · simpa [After.cursor, hc] using hs hr
  case close n =>
    by_cases hc : Srv.chan c = t
    · exact hself hc.symm (by simp) hr
    · simpa [After.cursor, hc] using hs hr
  case clearBuffer n =>
    by_cases hc : Srv.chan c = t
    · exact hself hc.symm (by simp) hr
    · simpa [After.cursor, hc] using hs hr
  case joinWorker d =>
    by_cases hc : c = d
    · have hended : (s.chan d).worker = .ended := (need_eq_some.mp h).1
      exact hs (by simp [hc, hended])
    · exact hs (by simpa [After.worker, hc] using hr)
  case startWorker d =>
    cases r with
    | false => exact hs hr
    | true =>
      by_cases hc : c = d
      · exact absurd hr (by simp [After.worker, hc])
      · exact hs (by simpa [After.worker, hc] using hr)
  case exitThread =>
    cases t with
    | lobby => exact hp.elim
    | chan e =>
      by_cases hc : c = e
      · subst hc
        exact hp.2.1
      · exact hs (by simpa [After.worker, own, hc] using hr)
  case newTracker d m =>
    by_cases hc : c = d
    · simp [After.cursor, hc]
    · simpa [After.cursor, hc] using hs (by simpa [After.worker, hc] using hr)
  case dropTracker d =>
    by_cases hc : c = d
    · simp [After.cursor, hc]
    · simpa [After.cursor, hc] using hs (by simpa [After.worker, hc] using hr)
  all_goals exact hs hr

/-- `resolve_pool` is pushed to the front of the session that has `chat` and `resolve_deletion`. -/
theorem pushTask_bootTasks : pushTask true tsLogic .resolvePool bootTasks = channelTasks := rfl

theorem Wf.tasks_step (hw : Wf s) (hp : Pre P t a s) (h : exec t a r s = some s') (c : ChId)
    (hr : (s'.chan c).worker = .running) :
    (s'.base (.chan c)).runner = bootTasks ∨ (s'.base (.chan c)).runner = channelTasks := by
  rw [exec_worker h] at hr
  rw [exec_runner h]
  have hs := hw.tasks c
  cases a
  case newSession d k =>
    cases t with
    | chan e => exact hp.2.elim
    | lobby =>
      by_cases hc : c = d
      · subst hc
        exact absurd hr (by simp [After.worker, show (s.chan c).worker = .absent from hp])
      · simpa [After.runner, hc] using hs hr
  case pushBack d w x =>
    cases t with
    | chan e => exact hp.2.elim
    | lobby =>
      by_cases hc : c = d
      · subst hc
        exact absurd hr (by simp [After.worker, show (s.chan c).worker = .absent from hp])
      · simpa [After.runner, hc] using hs hr
  case pushFront d w x =>
    cases t with
    | chan e => exact hp.2.elim
    | lobby =>
      by_cases hc : c = d
      · subst hc
        rcases hp with hp | ⟨rfl, rfl, hp⟩
        · exact absurd hr (by simp [After.worker, hp])
        · right
          simp [After.runner, hp, pushTask_bootTasks]
      · simpa [After.runner, hc] using hs hr
  case startWorker d =>
    cases t with
    | chan e => exact hp.2.elim
    | lobby =>
      by_cases hc : c = d
      · subst hc
        exact hp.2
      · cases r with
        | false => exact hs hr
        | true => exact hs (by simpa [After.worker, hc] using hr)
  case joinWorker d =>
    by_cases hc : c = d
    · exact absurd hr (by simp [After.worker, hc])
    · exact hs (by simpa [After.worker, hc] using hr)
  case exitThread =>
    by_cases hc : c = own t
    · exact absurd hr (by simp [After.worker, hc])
    · exact hs (by simpa [After.worker, hc] using hr)
  case newTracker d m =>
    by_cases hc : c = d
    · exact absurd hr (by simp [After.worker, hc])
    · simpa [After.runner, hc] using hs (by simpa [After.worker, hc] using hr)
  case dropTracker d =>
    by_cases hc : c = d
    · exact absurd hr (by simp [After.worker, hc])
    · simpa [After.runner, hc] using hs (by simpa [After.worker, hc] using hr)
  all_goals exact hs hr

theorem Wf.main_step (hw : Wf s) (h : exec t a r s = some s') :
    (s'.base .lobby).runner = lobbyTasks := by
  rw [exec_runner h]
  cases a <;> exact hw.main

theorem Wf.born_step (hw : Wf s) (h : exec t a r s = some s') (n : Fd) (k : Nat)
    (hk : s'.file n = some (.conn k)) : k < s'.nextConn := by
  rcases conn_before h hk with hk | ⟨rfl, hn⟩
  · exact (hw.born n k hk).trans_le (nextConn_mono h)
  · omega

theorem Wf.single_step (hw : Wf s) (h : exec t a r s = some s') (m n : Fd) (k : Nat)
    (hm : s'.file m = some (.conn k)) (hn : s'.file n = some (.conn k)) : m = n := by
  have hlt : ∀ x, s.file x = some (.conn k) → k ≠ s.nextConn :=
    fun x hx => (hw.born x k hx).ne
  rcases conn_before h hm with hm' | ⟨rfl, hnext⟩
  · rcases conn_before h hn with hn' | ⟨rfl, -⟩
    · exact hw.single m n k hm' hn'
    · exact absurd rfl (hlt m hm')
  · -- both are what was just accepted
    rw [exec_nextConn h] at hnext
    rw [exec_file h] at hm hn
    cases a
    case accept =>
      cases r with
      | none => exact absurd rfl (hlt m hm)
      | some x =>
        simp only [After.file, Function.update_apply] at hm hn
        split at hm
        · split at hn
          · simp_all
          · exact absurd rfl (hlt n hn)
        · exact absurd rfl (hlt m hm)
    all_goals simp [After.nextConn] at hnext

theorem Wf.admitted_step (hw : Wf s) (h : exec t a r s = some s') (k : Nat)
    (hk : .admitted k ∈ s'.log) : k < s'.nextConn := by
  refine lt_of_lt_of_le ?_ (nextConn_mono h)
  rcases admitted_before h hk with hk | ⟨n, -, -, hn⟩
  · exact hw.admitted k hk
  · exact hw.born n k hn

theorem Wf.step (hw : Wf s) (hp : Pre P t a s) (h : exec t a r s = some s') : Wf s' where
  unlocked := hw.unlocked_step hp h
  published := hw.published_step hp h
  stopped := hw.stopped_step hp h
  vacant := hw.vacant_step hp h
  resting := hw.resting_step hp h
  tasks := hw.tasks_step hp h
  main := hw.main_step h
  born := hw.born_step h
  single := hw.single_step h
  admitted := hw.admitted_step h

end

/-! ## The outline -/

/-- The invariant and the preconditions, for the system. -/
def discipline (P : Params) : Outline (server P) where
  Inv := Wf
  Pre := Pre P
  pres := fun hw hp h => hw.step hp h

theorem wf_init (P : Params) : Wf (init P) where
  unlocked := fun _ _ => ⟨rfl, rfl⟩
  published := fun _ _ => rfl
  stopped := fun _ h => absurd h (by simp [init, Chan.fresh])
  vacant := fun _ _ => ⟨rfl, rfl, rfl⟩
  resting := fun _ _ => rfl
  tasks := fun _ h => absurd h (by simp [init, Chan.fresh])
  main := rfl
  born := fun n k h => by
    simp only [init] at h
    split_ifs at h <;> cases h
  single := fun m n k h => by
    simp only [init] at h
    split_ifs at h <;> cases h
  admitted := fun k h => absurd h (by simp [init])

end ChatChannel
