import ChatChannel.Conc.Waiting
import ChatChannel.Proof.Founding
import ChatChannel.Proof.Restart

/-!
# No deadlock

Five calls can block on another thread: taking a `pool_mtx`, joining a thread, beginning a tick and pushing a task
while a tick holds the mutex of the runner, and, for a thread that does not exist, every call. Everything else the
kernel answers in some way (`enabled`), but `accept` and `send` only when the peers let it: the listener, which every
epoll instance reports, and the clients' sockets are blocking (`Abroad`). So a thread that cannot go on is abroad or
waits for a certain other one (`Awaits`). The lobby waits for workers and the workers for the lobby, but a worker that
the lobby waits for does not wait for it (`awaited_goes`), so the chains of waits end (`never_deadlocked`).

What a worker is in the middle of is read off its own calls (`Phase`), and `Bound` ties it to the locks.
-/

set_option autoImplicit false

namespace ChatChannel

open Conc

/-! ## Calls that block -/

/-- The other threads keep the call from being answered now. -/
def Blocks (t : Srv) (s : St) : Act → Prop
  | .lockPool c => (s.chan c).mtx ≠ none
  | .joinWorker c => (s.chan c).worker ≠ .ended
  | .pushBack c _ _ | .pushFront c _ _ => (s.chan c).ticking = true
  | .beginRun => ¬ s.idle t
  | .loadStop c => t = .chan c ∧ (s.chan c).worker ≠ .running
  | .stall => True
  | _ => False

section

variable {P : Params} {t : Srv} {a : Act} {r : Res a} {s s' : St} {c d : ChId}

/-- To every other call the kernel has an answer. -/
theorem enabled (h : ¬ Blocks t s a) : ∃ r s', exec t a r s = some s' := by
  have hneed {p : Prop} [Decidable p] {s₁ : St} (hp : p) : need p s₁ = some s₁ := if_pos hp
  have hlist (f : Finset Fd) : f.toList.Nodup ∧ f.toList.toFinset = f :=
    ⟨f.nodup_toList, f.toList_toFinset⟩
  cases a
  case epollWait => exact ⟨none, s, rfl⟩
  case accept => exact ⟨none, s, rfl⟩
  case recv n => exact ⟨.error, _, rfl⟩
  case send n b => exact ⟨none, s, rfl⟩
  case stall => exact absurd trivial h
  case addClient n =>
    by_cases hr : s.addRefused t n
    · exact ⟨.failed, _, hneed (.inl hr)⟩
    · by_cases hf : s.isFull t
      · exact ⟨.full, _, hneed ⟨hr, hf⟩⟩
      · exact ⟨.failed, _, hneed (.inr hf)⟩
  case deleteClient n =>
    by_cases hd : s.deletable t n
    · exact ⟨true, _, hneed hd⟩
    · exact ⟨false, _, hneed hd⟩
  case getClients => exact ⟨_, _, hneed (hlist _)⟩
  case getDeletion => exact ⟨_, _, hneed (hlist _)⟩
  case trackedBy c => exact ⟨_, _, hneed (hlist _)⟩
  case beginRun => exact ⟨_, _, hneed ⟨rfl, not_not.mp h⟩⟩
  case loadRunning => exact ⟨false, _, hneed (by simp)⟩
  case channelIds => exact ⟨_, _, hneed (.refl _)⟩
  case getLastAct => exact ⟨_, _, hneed (.refl _)⟩
  case takeJoinPool => exact ⟨_, _, hneed (.refl _)⟩
  case takeLeavePool => exact ⟨_, _, hneed (.refl _)⟩
  case lockPool c => exact ⟨(), _, hneed (not_not.mp h)⟩
  case loadStop c => exact ⟨_, _, hneed ⟨rfl, fun ht => by_contra fun hw => h ⟨ht, hw⟩⟩⟩
  case joinWorker c => exact ⟨(), _, hneed (not_not.mp h)⟩
  case startWorker c => exact ⟨true, _, rfl⟩
  case listenSocket => exact ⟨none, s, rfl⟩
  case bindListen => exact ⟨false, s, rfl⟩
  case epollCreate c => exact ⟨none, s, rfl⟩
  case epollAddListener c => exact ⟨false, s, rfl⟩
  case pushBack c w x => exact ⟨_, _, hneed ⟨Bool.eq_false_iff.mpr h, rfl⟩⟩
  case pushFront c w x => exact ⟨_, _, hneed ⟨Bool.eq_false_iff.mpr h, rfl⟩⟩
  all_goals first
    | exact ⟨(), _, rfl⟩
    | exact ⟨0, _, rfl⟩
    | exact ⟨_, _, hneed rfl⟩

/-! ## What the lobby knows when it waits -/

/-- Every call but a join of a thread. -/
def Heedless : Act → Prop
  | .joinWorker _ => False
  | _ => True

/-- The lobby joins a thread only if there is one. -/
def wary (P : Params) : Outline ((server P).restrict (Legal P)) where
  Inv := fun _ => True
  Pre := fun t a s =>
    match t, a with
    | .lobby, .joinWorker c => (s.chan c).worker ≠ .absent
    | _, _ => True
  pres := fun _ _ _ => trivial

abbrev Wary (P : Params) {α : Type} (p : Code α) : Prop :=
  (wary P).Triple .lobby (fun _ => True) p (fun _ _ => True) fun _ _ => True

variable {α : Type} {p : Code α}

theorem stable_true : (wary P).Stable .lobby fun _ => True := fun _ _ _ _ _ _ => trivial

theorem Heedless.pre (ha : Heedless a) : (wary P).Pre .lobby a s := by
  cases a <;> first | exact trivial | exact ha.elim

theorem wary_heedless (hp : p.All Heedless) : Wary P p :=
  .keep stable_true hp (fun _ _ ha _ _ => ha.pre) fun _ _ _ _ _ _ _ _ _ => trivial

theorem wary_ask (ha : Heedless a) : Wary P (call a) := wary_heedless (.perform ha)

theorem wary_ret (a : α) : Wary P (.ret a) := .ret stable_true fun _ _ _ => trivial

theorem wary_raise (e : Err) : Wary P (.raise e : Code α) := .raise stable_true fun _ _ _ => trivial

/-- A worker that the lobby found joinable is joined. -/
theorem wary_joinIfJoinable {k : Code Unit} (hk : Wary P k) : Wary P (do
    if ← call (.joinable c) then call (.joinWorker c)
    k : Code Unit) := by
  have hst : (wary P).Stable .lobby fun s => (s.chan c).worker ≠ .absent := by
    intro u a r s s' hu _ _ hstep _ hw
    obtain ⟨hx, hl⟩ := hstep
    cases u with
    | lobby => exact absurd rfl hu
    | chan d =>
      have hpre := hl.pre
      rw [exec_worker hx]
      cases a
      case exitThread =>
        simp only [After.worker]
        split
        · simp
        · exact hw
      case joinWorker | startWorker | newTracker | dropTracker => exact hpre.2.elim
      all_goals exact hw
  refine .bind (Q := fun b s => b = true → (s.chan c).worker ≠ .absent) (.perform stable_true
    (fun _ _ _ => trivial) (fun b s s' _ _ hs _ hb => ?_) fun b => hst.imp) fun b => ?_
  · obtain ⟨hr, rfl⟩ := need_eq_some.mp hs.1
    exact of_decide_eq_true (hr.symm.trans hb)
  · cases b with
    | false => exact hk.pre fun _ _ _ => trivial
    | true =>
      refine .bind (Q := fun _ _ => True) ?_ fun _ => hk
      exact .perform hst.imp (fun s _ hs => hs rfl) (fun _ _ _ _ _ _ _ => trivial) fun _ => stable_true

theorem wary_join (n : Fd) (m : MessageReqDto) : Wary P (join c n m) := by
  have hstart : (do
      unless ← call (.startWorker c) do throw Err.threadFailed
      call (.storeStop c false)
      call (.storeEmptySince c 0)
      call (.emplaceJoin c n m) : Code Unit).All Heedless := by
    refine .bind (.perform trivial) fun b => ?_
    cases b with
    | false => trivial
    | true => exact .bind (.perform trivial) fun _ => .bind (.perform trivial) fun _ => .perform trivial
  refine .bind (wary_ask trivial) fun b => ?_
  cases b with
  | false => exact wary_ask trivial
  | true => exact wary_joinIfJoinable (wary_heedless hstart)

theorem wary_joinAndLogging (n : Fd) (timestamp : Msec64) (re : Bool) :
    Wary P (joinAndLogging c n timestamp re) := by
  refine .handle (.bind (wary_ask trivial) fun o => ?_) fun _ => wary_ret _
  cases o with
  | none => exact wary_ret _
  | some u => exact wary_join n _

theorem wary_deleteChannel : Wary P (deleteChannel c) := by
  have hbase : (destroyServerBase c).All Heedless := (foundingOf_destroyServerBase c 0).mono fun a ha => by
    cases a <;> first | exact trivial | exact ha.elim
  exact .bind (wary_ask trivial) fun _ => wary_joinIfJoinable (wary_heedless hbase)

theorem heedless_getChannel (c : ChId) : (getChannel P c).All Heedless :=
  (founding_getChannel P c).mono fun a ha => by cases a <;> first | exact trivial | exact ha.elim

/-! ### The rest of the lobby -/

theorem wary_lobbyOnReq (n : Fd) (target : Bytes) (root : P.js.Json) :
    Wary P (lobbyOnReq P n target root) := by
  unfold lobbyOnReq
  split
  · cases unpackLobbyJoin P.js root with
    | none => exact wary_ret _
    | some q =>
      have hfind : (findOrCreateChannel P q.1).All Heedless :=
        (searching_findOrCreateChannel P q.1).mono fun a ha => by
          cases a <;> first | exact trivial | exact ha.elim
      exact .bind (wary_ask trivial) fun _ => .bind (wary_heedless hfind) fun _ =>
        .bind (wary_joinAndLogging n _ false) fun _ => .bind (wary_heedless (all_trackerDelete trivial)) fun _ =>
          wary_heedless (.bind (.perform trivial) fun _ => .perform trivial)
  · exact wary_ret _

theorem wary_handleEvents (ev : PollEv) : Wary P (handleEvents P .lobby ev) := by
  refine .bind (wary_ask trivial) fun b => ?_
  cases b with
  | true =>
    refine .bind (wary_ask trivial) fun o => ?_
    cases o with
    | none => exact wary_ret _
    | some n =>
      refine .handle (wary_heedless (.bind ?_ fun _ => .bind (.perform trivial) fun _ =>
        .bind (.perform trivial) fun _ => .perform trivial)) fun e => ?_
      · refine .bind (.perform trivial) fun r => ?_
        cases r <;> trivial
      · dsimp only
        split
        · exact wary_heedless (.bind (all_sendFrame (fun _ => trivial) _) fun _ => .perform trivial)
        · exact wary_ask trivial
  | false =>
    simp only [Bool.false_eq_true, if_false]
    split
    · exact wary_ask trivial
    · split
      · have hread : (recvFrame P ev.fd).All Heedless := (fromWire_recvFrame P ev.fd).mono fun a ha => by
          cases a <;> first | exact trivial | exact ha.elim
        refine .handle (.bind (wary_heedless hread) fun fs => .bind (.forEach (I := fun _ _ => True) stable_true
          (fun f _ => .bind (wary_ask (a := .onFrame ev.fd f) trivial) fun _ => ?_) fs) fun _ =>
            wary_ask trivial) fun _ => wary_heedless (.bind (.perform trivial) fun _ =>
              .perform trivial)
        cases requestOf P.js f with
        | none => exact wary_ret _
        | some q => exact wary_lobbyOnReq ev.fd q.1 q.2
      · exact wary_ret _

theorem wary_consumeReport : Wary P (consumeReport P) := by
  have hone (r : ChannelReport) : Wary P (consumeOne P r) := by
    refine .bind (wary_heedless (heedless_getChannel _)) fun _ => .bind (wary_heedless (heedless_getChannel _))
      fun _ => .bind (wary_ask trivial) fun _ => .bind (wary_ask trivial) fun b => ?_
    cases b with
    | true =>
      have hleave : (leaveAndLogging r.join.chFrom r.from' r.join.timestamp).All Heedless := by
        refine .handle (.bind (.perform trivial) fun o => ?_) fun _ => trivial
        cases o <;> exact .perform trivial
      exact .bind (wary_joinAndLogging _ _ true) fun _ => .bind (wary_heedless hleave) fun _ =>
        wary_heedless (.bind (.perform trivial) fun _ => .perform trivial)
    | false => exact wary_heedless (.bind (all_sendFrame (fun _ => trivial) _) fun _ => .perform trivial)
  have hloop : ∀ k : Nat, Wary P (consumeLoop P k) := by
    intro k
    induction k with
    | zero => exact wary_heedless (.bind (.perform trivial) fun _ => trivial)
    | succ k ih =>
      refine .bind (wary_ask trivial) fun o => ?_
      cases o with
      | none => exact wary_ret _
      | some r => exact .bind (hone r) fun _ => ih
  exact .bind (wary_ask trivial) fun k => .handle (hloop k) fun _ =>
    .bind (wary_ask trivial) fun _ => wary_raise _

theorem wary_housekeeping : Wary P housekeeping := by
  have hlobby : checkLobby.All Heedless := by
    refine .bind (.perform trivial) fun now => .bind (.perform trivial) fun acts =>
      .bind (.forEach (fun p => ?_) acts) fun _ => .perform trivial
    dsimp only
    split
    · trivial
    · exact .perform trivial
  have hchannels : Wary P checkChannels := by
    refine .bind (wary_ask trivial) fun now => .bind (wary_ask trivial) fun ids =>
      .forEach (I := fun _ _ => True) stable_true (fun c _ =>
        .bind (wary_ask (a := .loadStop c) trivial) fun b => ?_) ids
    cases b with
    | false => exact wary_ret _
    | true =>
      refine .bind (wary_ask trivial) fun e => ?_
      split
      · exact .bind wary_deleteChannel fun _ => wary_ask trivial
      · exact wary_ret _
  refine .bind (wary_ask trivial) fun now => .bind (wary_ask trivial) fun last => ?_
  split
  · exact wary_ret _
  · exact .bind (wary_ask trivial) fun _ => .bind (wary_heedless hlobby) fun _ => hchannels

theorem wary_resolveDeletion : Wary P lobbyResolveDeletion := by
  have hdelete (n : Fd) : (tryCatch (do trackerDelete n; pure true) fun _ => pure false :
      Code Bool).All Heedless :=
    .handle (.bind (all_trackerDelete trivial) fun _ => trivial) fun _ => trivial
  refine wary_heedless (.bind (.perform trivial) fun l => .bind (.forEach (fun n => .bind (.perform trivial)
    fun _ => .bind (hdelete n) fun b => ?_) l) fun _ => .perform trivial)
  cases b with
  | false => trivial
  | true => exact .bind (.perform trivial) fun _ => .bind (.perform trivial) fun _ => .perform trivial

/-- The lobby's thread, round after round. -/
theorem wary_lobby : (wary P).Triple .lobby (fun _ => True) (proc P .lobby) (fun _ _ => True) fun _ _ => False := by
  have hend {E : Err → St → Prop} : (wary P).Triple .lobby (fun _ => True) (.ret ()) (fun _ _ => True) E :=
    .ret stable_true fun _ _ _ => trivial
  have hpoll : Wary P (runTask P .lobby .polling) := by
    refine .bind (wary_ask trivial) fun o => ?_
    cases o with
    | none => exact wary_raise _
    | some l => exact wary_ret _
  have hevents : Wary P (runTask P .lobby .handleEvents) :=
    .bind (wary_ask trivial) fun evs => .forEach (I := fun _ _ => True) stable_true
      (fun ev _ => wary_handleEvents ev) evs
  have htasks : Wary P (Prog.forEach (Prog.forEach (runTask P .lobby)) lobbyTasks) :=
    .bind (.bind (wary_ask trivial) fun _ => .bind wary_consumeReport fun _ => hend) fun _ =>
      .bind (.bind hpoll fun _ => .bind hevents fun _ => hend) fun _ =>
        .bind (.bind wary_housekeeping fun _ => .bind wary_resolveDeletion fun _ => hend) fun _ => hend
  have hcall {E : Err → St → Prop} : (wary P).Triple .lobby (fun _ => True) (call .loadRunning)
      (fun _ _ => True) E :=
    .perform stable_true (fun _ _ _ => trivial) (fun _ _ _ _ _ _ _ => trivial) fun _ => stable_true
  refine .bind hcall fun b => ?_
  cases b with
  | false => exact hend
  | true =>
    refine .handle (E := fun _ _ => True) (.bind (Q := fun (l : List (List Task)) _ => l = lobbyTasks ∧ True)
      (.perform stable_true (fun _ _ _ => trivial) (fun l s s' _ _ hs _ => ⟨?_, trivial⟩) fun l =>
        Outline.Stable.const) fun (l : List (List Task)) => .pure fun hl => ?_) fun _ => hend
    · have hr : l = (s.base .lobby).runner := (need_eq_some.mp hs.1).1.1
      exact hr.trans hs.2.wf.main
    · subst hl
      exact .bind (.handle htasks fun e => .bind (wary_ask trivial) fun _ => wary_raise _) fun _ =>
        wary_ask trivial

/-- Where the lobby joins a thread, there is one. -/
theorem wary_next {tr : List Ev} {k : Config sig Srv St} (h : (server P).Run (init P) tr k)
    {f : Unit → Code Unit} (hp : k.prog .lobby = .act (.joinWorker c) f) :
    (k.st.chan c).worker ≠ .absent := by
  have hbody (t : Srv) : (wary P).Triple t (fun _ => True) (proc P t) (fun _ _ => True) fun _ _ => False := by
    cases t with
    | lobby => exact wary_lobby
    | chan d =>
      have hany {β : Type} (q : Code β) : (wary P).Triple (.chan d) (fun _ => True) q (fun _ _ => True)
          fun _ _ => True := .any fun _ _ _ => trivial
      have htrue : (wary P).Stable (.chan d) fun _ => True := Outline.Stable.const
      have hcall {b : Act} : (wary P).Triple (.chan d) (fun _ => True) (call b) (fun _ _ => True)
          fun _ _ => False := .perform htrue (fun _ _ _ => trivial) (fun _ _ _ _ _ _ _ => trivial) fun _ => htrue
      refine .bind hcall fun b => ?_
      cases b with
      | true => exact hcall (b := .exitThread)
      | false => exact .handle (hany (run P (.chan d))) fun _ => .ret htrue fun _ _ hs => hs
  have hverified := Outline.sound (O := wary P) (L := fun _ _ => True) trivial (fun _ => trivial) hbody
    (h.restrict fun e he => legal h e he)
  exact hverified.next_pre hp

/-! ## What a worker is in the middle of -/

/-- Between two ticks, in a tick with these tasks, in the critical section of its `resolve_pool`. -/
inductive Phase
  | resting
  | running (l : List (List Task))
  | pooling (l : List (List Task))

def Phase.step : Phase → Call sig → Phase
  | _, ⟨.beginRun, l⟩ => .running l
  | _, ⟨.endRun, _⟩ => .resting
  | .running l, ⟨.lockPool _, _⟩ => .pooling l
  | .pooling l, ⟨.unlockPool _, _⟩ => .running l
  | p, _ => p

def phase (h : Hist sig) : Phase := h.foldl Phase.step .resting

theorem phase_snoc (h : Hist sig) (e : Call sig) : phase (h ++ [e]) = (phase h).step e := by
  rw [phase, List.foldl_append]
  rfl

/-- A worker takes its lock in the middle of a tick, and nothing else keeps it waiting there. -/
def tickContract (d : ChId) : Contract sig where
  before a h :=
    match a with
    | .lockPool c => c = d ∧ phase h = .running channelTasks
    | .loadStop c => c = d ∧ phase h = .resting
    | .beginRun | .exitThread => phase h = .resting
    | .endRun => ∃ l, phase h = .running l
    | .joinWorker _ | .pushBack _ _ _ | .pushFront _ _ _ => False
    | _ => True
  expects
    | .beginRun, l => l = bootTasks ∨ l = channelTasks
    | _, _ => True

/-- Calls that say nothing about the phase. -/
def Inner : Act → Prop
  | .beginRun | .endRun | .lockPool _ | .unlockPool _ | .loadStop _ | .exitThread | .joinWorker _
  | .pushBack _ _ _ | .pushFront _ _ _ => False
  | _ => True

def InPhase (x : Phase) (h : Hist sig) : Prop := phase h = x

variable {x : Phase} {F : Err → Hist sig → Prop}

theorem Inner.same (ha : Inner a) (r : Res a) : x.step ⟨a, r⟩ = x := by
  cases a
  case beginRun | endRun | lockPool | unlockPool => exact ha.elim
  all_goals cases x <;> rfl

theorem inner_keep (hp : p.All Inner) : Abides (tickContract d) (InPhase x) p (fun _ => InPhase x) fun _ => InPhase x := by
  refine .keep hp (fun a h ha _ => ?_) fun a r h ha _ hx => ?_
  · cases a <;> first | exact trivial | exact ha.elim
  · rw [InPhase, phase_snoc, hx, ha.same]

theorem inner_resolvePoolBody (c : ChId) : (resolvePoolBody c).All Inner := by
  refine .bind (.perform trivial) fun joins => .bind (.forEach (fun p => ?_) joins) fun _ =>
    .bind (.perform trivial) fun leaves => .bind (.forEach (fun p => ?_) leaves) fun _ =>
      .bind (.perform trivial) fun k => ?_
  · refine .handle (.bind (.bind (.perform trivial) fun r => ?_) fun _ => .perform trivial) fun _ => trivial
    cases r <;> trivial
  · exact .handle (.bind (all_trackerDelete trivial) fun _ => .perform trivial) fun _ => trivial
  · split
    · refine .bind (.perform trivial) fun b => ?_
      cases b with
      | false => trivial
      | true => exact .bind (.perform trivial) fun _ => .bind (.perform trivial) fun _ => .perform trivial
    · trivial

/-- The tasks that the worker is started with. -/
theorem inner_bootTask {y : Task} (hy : y ∈ bootTasks.flatten) : (runTask P (.chan c) y).All Inner := by
  have hmem : y = .clearDeletion ∨ y = .clearCurMsgs ∨ y = .polling ∨ y = .handleEvents ∨
      y = .chat ∨ y = .resolveDeletion := by simpa [bootTasks] using hy
  rcases hmem with rfl | rfl | rfl | rfl | rfl | rfl
  · exact .perform trivial
  · exact .perform trivial
  · refine .bind (.perform trivial) fun o => ?_
    cases o <;> trivial
  · refine .bind (.perform trivial) fun evs => .forEach (fun ev => ?_) evs
    exact (eventCall_handleEvents P c ev).mono fun a ha => by
      cases a <;> first | exact trivial | exact ha.elim
  · refine .bind (.bind (.perform trivial) fun q => .forEach (fun _ => .perform trivial) q) fun _ =>
      .bind (.perform trivial) fun cur => ?_
    split
    · trivial
    · exact .bind (.perform trivial) fun l => .bind (all_broadcast _ l fun _ _ _ => trivial) fun failed =>
        .forEach (fun _ => .perform trivial) failed
  · exact (deletionCall_resolveDeletion c).mono fun a ha => by
      cases a <;> first | exact trivial | exact ha.elim

/-- The lock is given back on an exception, too. -/
theorem ticks_resolvePool : Abides (tickContract d) (InPhase (.running channelTasks)) (resolvePool d)
    (fun _ => InPhase (.running channelTasks)) fun _ => InPhase (.running channelTasks) := by
  have hunlock {E : Err → Hist sig → Prop} : Abides (tickContract d) (InPhase (.pooling channelTasks))
      (call (.unlockPool d)) (fun _ => InPhase (.running channelTasks)) E :=
    .perform (fun _ _ => trivial) fun _ h _ hx => by
      rw [InPhase, phase_snoc, hx]
      rfl
  refine .bind (Q := fun _ => InPhase (.pooling channelTasks)) ?_ fun _ => .bind (.handle
    (inner_keep (inner_resolvePoolBody d)) fun e => .bind hunlock fun _ => .raise fun _ h => h) fun _ => hunlock
  refine .perform (fun _ hx => ⟨rfl, hx⟩) fun _ h _ hx => ?_
  rw [InPhase, phase_snoc, hx]
  rfl

theorem ticks_tasks {l : List (List Task)} (hl : l = bootTasks ∨ l = channelTasks) :
    Abides (tickContract d) (InPhase (.running l)) (Prog.forEach (Prog.forEach (runTask P (.chan d))) l)
      (fun _ => InPhase (.running l)) fun _ => InPhase (.running l) := by
  have htask {y : Task} (hy : y ∈ bootTasks.flatten) : Abides (tickContract d) (InPhase (.running l))
      (runTask P (.chan d) y) (fun _ => InPhase (.running l)) fun _ => InPhase (.running l) :=
    inner_keep (inner_bootTask hy)
  have hsession {ys : List Task} (hys : ∀ y ∈ ys, y ∈ bootTasks.flatten ∨ y = .resolvePool ∧ l = channelTasks) :
      Abides (tickContract d) (InPhase (.running l)) (Prog.forEach (runTask P (.chan d)) ys)
        (fun _ => InPhase (.running l)) fun _ => InPhase (.running l) := by
    induction ys with
    | nil => exact .ret fun _ h => h
    | cons y ys ih =>
      refine .bind ?_ fun _ => ih fun z hz => hys z (List.mem_cons_of_mem _ hz)
      rcases hys y List.mem_cons_self with hy | ⟨rfl, rfl⟩
      · exact htask hy
      · exact ticks_resolvePool
  have hsessions {yss : List (List Task)}
      (hyss : ∀ ys ∈ yss, ∀ y ∈ ys, y ∈ bootTasks.flatten ∨ y = .resolvePool ∧ l = channelTasks) :
      Abides (tickContract d) (InPhase (.running l)) (Prog.forEach (Prog.forEach (runTask P (.chan d))) yss)
        (fun _ => InPhase (.running l)) fun _ => InPhase (.running l) := by
    induction yss with
    | nil => exact .ret fun _ h => h
    | cons ys yss ih =>
      exact .bind (hsession (hyss ys List.mem_cons_self)) fun _ =>
        ih fun zs hzs => hyss zs (List.mem_cons_of_mem _ hzs)
  refine hsessions fun ys hys y hy => ?_
  rcases hl with rfl | rfl
  · exact .inl (List.mem_flatten.mpr ⟨ys, hys, hy⟩)
  · have hmem : y ∈ channelTasks.flatten := List.mem_flatten.mpr ⟨ys, hys, hy⟩
    by_cases hpool : y = .resolvePool
    · exact .inr ⟨hpool, rfl⟩
    · refine .inl ?_
      revert hmem hpool
      cases y <;> simp [channelTasks, bootTasks]

/-- A worker's thread, round after round. -/
theorem ticks_worker : Abides (tickContract d) (InPhase .resting) (proc P (.chan d)) (fun _ => InPhase .resting)
    fun _ _ => False := by
  have hend {l : List (List Task)} {E : Err → Hist sig → Prop} : Abides (tickContract d)
      (InPhase (.running l)) (call .endRun) (fun _ => InPhase .resting) E :=
    .perform (fun _ hx => ⟨l, hx⟩) fun _ h _ _ => by
      rw [InPhase, phase_snoc]
      cases phase h <;> rfl
  have hleave {E : Err → Hist sig → Prop} : Abides (tickContract d) (InPhase .resting) (call .exitThread)
      (fun _ => InPhase .resting) E :=
    .perform (fun _ hx => hx) fun _ h _ hx => by
      rw [InPhase, phase_snoc, hx]
      rfl
  refine .bind (Q := fun _ => InPhase .resting) ?_ fun b => ?_
  · refine .perform (fun _ hx => ⟨rfl, hx⟩) fun b h _ hx => ?_
    rw [InPhase, phase_snoc, hx]
    rfl
  · cases b with
    | true => exact hleave
    | false =>
      refine .handle (E := fun _ => InPhase .resting) (.bind (Q := fun l h => (l = bootTasks ∨ l = channelTasks) ∧
        InPhase (.running l) h) ?_ fun l => .pure fun hl => ?_) fun _ => .ret fun _ h => h
      · refine .perform (fun _ hx => hx) fun l h hl _ => ⟨hl, ?_⟩
        rw [InPhase, phase_snoc]
        cases phase h <;> rfl
      · exact .bind (.handle (ticks_tasks hl) fun e => .bind hend fun _ => .raise fun _ h => h) fun _ => hend

/-- The lobby's contract is the one it has anyway. -/
def tickContracts : Srv → Contract sig
  | .lobby => lobbyContract
  | .chan d => tickContract d

theorem ticks_run {tr : List Ev} {k : Config sig Srv St} (h : (server P).Run (init P) tr k) :
    (∀ d, (k.prog (.chan d)).obeys (tickContract d) (fun _ => InPhase .resting) (fun _ _ => False)
      (Sys.own (.chan d) tr)) ∧
    ∀ x e y, tr = x ++ e :: y → (tickContracts e.tid).before e.act (Sys.own e.tid x) := by
  let start : Srv → Hist sig → Prop
    | .lobby => Free
    | .chan _ => InPhase .resting
  have hstart (t : Srv) : start t [] := by
    cases t with
    | lobby => exact ⟨fun _ => rfl, fun _ => ⟨rfl, rfl⟩⟩
    | chan d => rfl
  have hbody (t : Srv) : Abides (tickContracts t) (start t) ((server P).body t) (fun _ => start t)
      fun _ _ => False := by
    cases t with
    | lobby => exact conduct_lobby
    | chan d => exact ticks_worker
  have hexpects (e : Ev) (he : e ∈ tr) : (tickContracts e.tid).expects e.act e.res := by
    have hold := expects_run h e he
    obtain ⟨t, a, r, s, s'⟩ := e
    cases t with
    | lobby => exact hold
    | chan d => cases a <;> exact hold
  have habides := h.abides hstart hbody hexpects
  exact ⟨fun d => habides.1 (.chan d), habides.2⟩

/-! ## The phase and the state -/

/-- What a worker is in the middle of is what the locks of its channel show. -/
structure Bound (c : ChId) (x : Phase) (s : St) : Prop where
  holder : ∀ v, (s.chan c).mtx = some v → v = .lobby ∨ v = .chan c ∧ ∃ l, x = .pooling l
  alive : x ≠ .resting → (s.chan c).worker = .running
  ticking : (s.chan c).ticking = true ↔ x ≠ .resting
  tasks : ∀ l, x = .running l ∨ x = .pooling l → (s.base (.chan c)).runner = l

theorem bound_init (c : ChId) : Bound c .resting (init P) where
  holder := by simp [init, Chan.fresh]
  alive := fun h => absurd rfl h
  ticking := by simp [init, Chan.fresh]
  tasks := by simp

/-- What the lobby does to the lock. -/
theorem Bound.holder_lobby (hi : Bound c x s) (hx : exec .lobby a r s = some s') (v : Srv)
    (hv : (s'.chan c).mtx = some v) : v = .lobby ∨ v = .chan c ∧ ∃ l, x = .pooling l := by
  rw [exec_mtx hx] at hv
  cases a
  case lockPool d =>
    simp only [After.mtx] at hv
    split at hv
    · exact .inl (Option.some.inj hv).symm
    · exact hi.holder v hv
  case unlockPool d => exact hi.holder v (Option.ite_none_left_eq_some.mp hv).2
  case newTracker d m => exact hi.holder v (Option.ite_none_left_eq_some.mp hv).2
  case dropTracker d => exact hi.holder v (Option.ite_none_left_eq_some.mp hv).2
  all_goals exact hi.holder v hv

/-- While a tick is running, the lobby leaves the channel's thread and tasks alone. -/
theorem Bound.spared (hi : Bound c x s) (hp : Pre P .lobby a s) (hx : exec .lobby a r s = some s')
    (hne : x ≠ .resting) : (s'.chan c).worker = .running ∧ (s'.chan c).ticking = true ∧
      (s'.base (.chan c)).runner = (s.base (.chan c)).runner := by
  have hrun := hi.alive hne
  have htick := hi.ticking.mpr hne
  rw [exec_worker hx, exec_ticking hx, exec_runner hx]
  -- a thread that is not there, or not in a tick, is another channel's
  have hother {d : ChId} (hw : (s.chan d).worker ≠ .running) : c ≠ d := fun h => hw (h ▸ hrun)
  have habsent {d : ChId} (hw : (s.chan d).worker = .absent) : c ≠ d := hother (by simp [hw])
  cases a
  case joinWorker d =>
    have hd : c ≠ d := hother (by simp [(need_eq_some.mp hx).1])
    exact ⟨(if_neg hd).trans hrun, htick, rfl⟩
  case newTracker d m =>
    have hd := habsent hp.2.1
    exact ⟨(if_neg hd).trans hrun, (if_neg hd).trans htick, if_neg (by simpa using hd)⟩
  case dropTracker d =>
    have hd := habsent hp.1
    exact ⟨(if_neg hd).trans hrun, (if_neg hd).trans htick, if_neg (by simpa using hd)⟩
  case startWorker d =>
    cases r with
    | false => exact ⟨hrun, htick, rfl⟩
    | true => exact ⟨by simp only [After.worker, hrun, ite_self], htick, rfl⟩
  case newSession d k => exact ⟨hrun, htick, if_neg (by simpa using habsent hp)⟩
  case pushBack d w y => exact ⟨hrun, htick, if_neg (by simpa using habsent hp)⟩
  case pushFront d w y =>
    have hd : c ≠ d := by
      rintro rfl
      have hidle := (need_eq_some.mp hx).1.1
      rw [htick] at hidle
      cases hidle
    exact ⟨hrun, htick, if_neg (by simpa using hd)⟩
  case beginRun => exact ⟨hrun, by simpa [After.ticking] using htick, rfl⟩
  case endRun => exact ⟨hrun, by simpa [After.ticking] using htick, rfl⟩
  case exitThread => exact hp.elim
  all_goals exact ⟨hrun, htick, rfl⟩

/-- The lobby begins no tick of a channel. -/
theorem ticking_lobby (hx : exec .lobby a r s = some s') (ht : (s'.chan c).ticking = true) :
    (s.chan c).ticking = true := by
  rw [exec_ticking hx] at ht
  cases a
  case newTracker d m =>
    simp only [After.ticking] at ht
    split at ht
    · cases ht
    · exact ht
  case dropTracker d =>
    simp only [After.ticking] at ht
    split at ht
    · cases ht
    · exact ht
  case beginRun => simpa [After.ticking] using ht
  case endRun => simpa [After.ticking] using ht
  all_goals exact ht

theorem Bound.lobby (hi : Bound c x s) (hp : Pre P .lobby a s) (hx : exec .lobby a r s = some s') :
    Bound c x s' where
  holder := hi.holder_lobby hx
  alive := fun hne => (hi.spared hp hx hne).1
  ticking := ⟨fun ht => hi.ticking.mp (ticking_lobby hx ht), fun hne => (hi.spared hp hx hne).2.1⟩
  tasks := by
    intro l hl
    have hne : x ≠ .resting := by rcases hl with rfl | rfl <;> simp
    exact (hi.spared hp hx hne).2.2.trans (hi.tasks l hl)

/-- A worker leaves the other channels alone. -/
theorem Bound.elsewhere (hi : Bound c x s) (hd : d ≠ c) (hp : Pre P (.chan d) a s)
    (hx : exec (.chan d) a r s = some s') : Bound c x s' := by
  have hc : c ≠ d := hd.symm
  have hsame : (s'.chan c).mtx = (s.chan c).mtx ∧ (s'.chan c).ticking = (s.chan c).ticking ∧
      (s'.base (.chan c)).runner = (s.base (.chan c)).runner := by
    rw [exec_mtx hx, exec_ticking hx, exec_runner hx]
    cases a
    case lockPool e =>
      obtain rfl : e = d := hp.2.1
      exact ⟨if_neg hc, rfl, rfl⟩
    case unlockPool e =>
      obtain rfl : e = d := hp.2.1
      exact ⟨if_neg hc, rfl, rfl⟩
    case beginRun => exact ⟨rfl, if_neg hc, rfl⟩
    case endRun => exact ⟨rfl, if_neg hc, rfl⟩
    case newTracker | dropTracker | newSession | pushBack | pushFront => exact hp.2.elim
    all_goals exact ⟨rfl, rfl, rfl⟩
  obtain ⟨hmtx, htick, hrunner⟩ := hsame
  have hworker := ((worker_elsewhere (c := c) hp hx).2 hd).2
  exact ⟨hmtx ▸ hi.holder, fun hne => hworker.trans (hi.alive hne), htick ▸ hi.ticking, hrunner ▸ hi.tasks⟩

/-- A call of the channel's own worker moves both. -/
theorem Bound.own {h : Hist sig} (hi : Bound c (phase h) s) (hp : Pre P (.chan c) a s)
    (hb : (tickContract c).before a h) (hx : exec (.chan c) a r s = some s') :
    Bound c (phase (h ++ [⟨a, r⟩])) s' := by
  rw [phase_snoc]
  generalize hphase : phase h = x at hi
  -- nothing but the five calls below changes anything
  have hsame (hstep : x.step ⟨a, r⟩ = x) (hmtx : (s'.chan c).mtx = (s.chan c).mtx)
      (hworker : (s'.chan c).worker = (s.chan c).worker) (htick : (s'.chan c).ticking = (s.chan c).ticking)
      (hrunner : (s'.base (.chan c)).runner = (s.base (.chan c)).runner) : Bound c (x.step ⟨a, r⟩) s' := by
    rw [hstep]
    exact ⟨hmtx ▸ hi.holder, hworker ▸ hi.alive, htick ▸ hi.ticking, hrunner ▸ hi.tasks⟩
  rw [exec_mtx hx, exec_worker hx, exec_ticking hx, exec_runner hx] at hsame
  cases a
  case beginRun =>
    have hl : r = (s.base (.chan c)).runner := (need_eq_some.mp hx).1.1
    have hrest : x = .resting := hphase.symm.trans hb
    refine ⟨fun v hv => ?_, fun _ => (exec_worker hx c).trans hp.1, ?_, fun l hl' => ?_⟩
    · rcases hi.holder v ((exec_mtx hx c).symm.trans hv) with h | ⟨-, l, hl⟩
      · exact .inl h
      · rw [hrest] at hl
        cases hl
    · rw [exec_ticking hx]
      simp [After.ticking, own, Phase.step]
    · rcases hl' with h | h
      · cases h
        exact (exec_runner hx _).trans hl.symm
      · cases h
  case endRun =>
    obtain ⟨l, hrun⟩ := hb
    refine ⟨fun v hv => ?_, fun h => absurd rfl h, ?_, fun l hl => ?_⟩
    · rcases hi.holder v ((exec_mtx hx c).symm.trans hv) with h | ⟨-, m, hm⟩
      · exact .inl h
      · rw [← hphase, hrun] at hm
        cases hm
    · rw [exec_ticking hx]
      simp [After.ticking, own, Phase.step]
    · rcases hl with h | h <;> cases h
  case lockPool e =>
    obtain ⟨rfl, hrun⟩ := hb
    have hx' : x = .running channelTasks := hphase.symm.trans hrun
    subst hx'
    refine ⟨fun v hv => ?_, fun _ => (exec_worker hx e).trans hp.1, ?_, fun l hl => ?_⟩
    · rw [exec_mtx hx] at hv
      simp only [After.mtx, if_true] at hv
      exact .inr ⟨(Option.some.inj hv).symm, channelTasks, rfl⟩
    · rw [exec_ticking hx]
      exact iff_of_true (hi.ticking.mpr (by simp)) (by simp [Phase.step])
    · rcases hl with h | h
      · cases h
      · cases h
        exact (exec_runner hx _).trans (hi.tasks _ (.inl rfl))
  case unlockPool e =>
    obtain ⟨hrun, rfl, hm, -⟩ := hp
    obtain ⟨l, rfl⟩ : ∃ l, x = .pooling l := by
      rcases hi.holder _ hm with h | ⟨-, hl⟩
      · cases h
      · exact hl
    refine ⟨fun v hv => ?_, fun _ => (exec_worker hx e).trans hrun, ?_, fun m hm' => ?_⟩
    · rw [exec_mtx hx] at hv
      simp [After.mtx] at hv
    · rw [exec_ticking hx]
      exact iff_of_true (hi.ticking.mpr (by simp)) (by simp [Phase.step])
    · rcases hm' with h | h
      · cases h
        exact (exec_runner hx _).trans (hi.tasks _ (.inr rfl))
      · cases h
  case exitThread =>
    have hrest : x = .resting := hphase.symm.trans hb
    subst hrest
    refine ⟨fun v hv => ?_, fun h => absurd rfl h, ?_, fun l hl => ?_⟩
    · exact hi.holder v ((exec_mtx hx c).symm.trans hv)
    · rw [exec_ticking hx]
      exact hi.ticking
    · rcases hl with h | h <;> cases h
  case joinWorker | startWorker | newTracker | dropTracker | newSession | pushBack | pushFront =>
    exact hp.2.elim
  all_goals exact hsame (by cases x <;> rfl) rfl rfl rfl rfl

/-- The runs of the server with what each worker is in the middle of. -/
theorem bound {tr : List Ev} {k : Config sig Srv St} (h : (server P).Run (init P) tr k) (c : ChId) :
    Bound c (phase (Sys.own (.chan c) tr)) k.st := by
  have hbefore := ticks_run h
  refine (h.along (I := fun x s => Bound c (phase (Sys.own (.chan c) x)) s) (bound_init c)
    fun x e y hs hi => ?_).1
  have hl := legal h e (by simp [hs])
  obtain ⟨t, a, r, s, s'⟩ := e
  cases t with
  | lobby =>
    rw [Sys.own_snoc_ne x (by simp)]
    exact hi.lobby hl.pre hl.exec
  | chan d =>
    by_cases hd : d = c
    · subst hd
      rw [Sys.own_snoc_self x ⟨.chan d, a, r, s, s'⟩]
      exact hi.own hl.pre (hbefore.2 x _ y hs) hl.exec
    · rw [Sys.own_snoc_ne x (by simpa using hd)]
      exact hi.elsewhere hd hl.pre hl.exec

/-! ## Who waits for whom -/

/-- The lobby waits for the lock that a worker holds, for the end of its thread, or, when it has just made the
channel, for the end of its first tick. A worker waits for the lock that the lobby holds. -/
def Awaits (k : Config sig Srv St) : Srv → Srv → Prop
  | .lobby, .chan d => (k.st.chan d).worker = .running ∧
    (nextCall (k.prog .lobby) = some (.lockPool d) ∧ (k.st.chan d).mtx = some (.chan d) ∨
      nextCall (k.prog .lobby) = some (.joinWorker d) ∨
      (∃ w y, nextCall (k.prog .lobby) = some (.pushFront d w y)) ∧ (k.st.chan d).ticking = true)
  | .chan d, .lobby =>
    nextCall (k.prog (.chan d)) = some (.lockPool d) ∧ (k.st.chan d).mtx = some .lobby
  | _, _ => False

/-- The threads that exist. -/
def Alive (k : Config sig Srv St) : Srv → Prop
  | .lobby => True
  | .chan d => (k.st.chan d).worker = .running

/-- `accept` on a listener that is blocking, and `send` on a socket that is: another thread may have taken the connection
that epoll reported, or the peer may not read. -/
def Outward : Act → Prop
  | .accept | .send _ _ => True
  | _ => False

/-- The thread is at such a call, and when that returns is up to the peers. -/
def Abroad (k : Config sig Srv St) (t : Srv) : Prop := ∃ a, nextCall (k.prog t) = some a ∧ Outward a

/-- The thread can go on whatever the peers do. In a loop whose rounds the model bounds it may have used them up; there
the thread of the program goes on, too. -/
def Busy (P : Params) (k : Config sig Srv St) (t : Srv) : Prop :=
  ¬ Abroad k t ∧ (server P).Goes k t ∨ nextCall (k.prog t) = some .stall

variable {tr : List Ev} {k : Config sig Srv St}

/-- Who is neither busy nor abroad is at a call that another thread blocks. -/
theorem blocked_of_not_busy (h : (server P).Run (init P) tr k) (hb : ¬ (Busy P k t ∨ Abroad k t)) :
    ∃ a f, k.prog t = .act a f ∧ Blocks t k.st a ∧ a ≠ .stall := by
  have hhome : ¬ Abroad k t := fun ha => hb (.inr ha)
  cases hp : k.prog t with
  | ret u => exact absurd (.inl (.inl ⟨hhome, .inl hp⟩)) hb
  | raise e => exact absurd hp ((server_verified h).no_raise e)
  | act a f =>
    refine ⟨a, f, rfl, ?_, ?_⟩
    · by_contra hfree
      obtain ⟨r, s', hx⟩ := enabled hfree
      exact hb (.inl (.inl ⟨hhome, .inr ⟨a, f, r, s', hp, hx⟩⟩))
    · rintro rfl
      exact hb (.inl (.inr (by rw [hp]; rfl)))

theorem lobby_waits (h : (server P).Run (init P) tr k) (ht : ∀ e ∈ tr, ¬ ThrowsLocked e)
    (hb : ¬ (Busy P k .lobby ∨ Abroad k .lobby)) : ∃ d, Awaits k .lobby (.chan d) := by
  obtain ⟨a, f, hp, hblocks, hstall⟩ := blocked_of_not_busy h hb
  have hpre : Pre P .lobby a k.st := (server_verified h).next_pre hp
  have hnext : nextCall (k.prog .lobby) = some a := by rw [hp]; rfl
  cases a
  case lockPool d =>
    obtain ⟨v, hv⟩ := Option.ne_none_iff_exists'.mp hblocks
    rcases (bound h d).holder v hv with rfl | ⟨rfl, l, hl⟩
    · -- the lobby takes a lock when it holds none
      have hgrip := grip h ht
      have hheld := (hgrip.held d).mp hv
      have hnone : heldAfter (Sys.own .lobby tr) = ∅ := before_next h hp hgrip.clean
      rw [hnone] at hheld
      exact absurd hheld (Finset.notMem_empty d)
    · exact ⟨d, (bound h d).alive (by simp [hl]), .inl ⟨hnext, hv⟩⟩
  case joinWorker d =>
    have hthere : (k.st.chan d).worker ≠ .absent := wary_next h hp
    have hrun : (k.st.chan d).worker = .running := by
      cases hw : (k.st.chan d).worker with
      | absent => exact absurd hw hthere
      | running => rfl
      | ended => exact absurd hw hblocks
    exact ⟨d, hrun, .inr (.inl hnext)⟩
  case pushFront d w y =>
    have htick : (k.st.chan d).ticking = true := hblocks
    have hbound := bound h d
    exact ⟨d, hbound.alive (hbound.ticking.mp htick), .inr (.inr ⟨⟨w, y, hnext⟩, htick⟩)⟩
  case pushBack d w y =>
    have htick : (k.st.chan d).ticking = true := hblocks
    have hrun := (bound h d).alive ((bound h d).ticking.mp htick)
    have habsent : (k.st.chan d).worker = .absent := hpre
    rw [hrun] at habsent
    cases habsent
  case beginRun => exact absurd trivial hblocks
  case loadStop d => cases hblocks.1
  case stall => exact absurd rfl hstall
  all_goals exact hblocks.elim

/-- What a worker knows about its next call. -/
theorem ticks_next (h : (server P).Run (init P) tr k) {f : Res a → Code Unit}
    (hp : k.prog (.chan d) = .act a f) : (tickContract d).before a (Sys.own (.chan d) tr) := by
  have hobeys := (ticks_run h).1 d
  rw [hp] at hobeys
  exact hobeys.1

theorem worker_waits (h : (server P).Run (init P) tr k) (hrun : (k.st.chan d).worker = .running)
    (hb : ¬ (Busy P k (.chan d) ∨ Abroad k (.chan d))) : Awaits k (.chan d) .lobby := by
  obtain ⟨a, f, hp, hblocks, hstall⟩ := blocked_of_not_busy h hb
  have hbefore := ticks_next h hp
  have hbound := bound h d
  cases a
  case lockPool e =>
    obtain ⟨rfl, hphase⟩ := hbefore
    obtain ⟨v, hv⟩ := Option.ne_none_iff_exists'.mp hblocks
    rcases hbound.holder v hv with rfl | ⟨-, l, hl⟩
    · exact ⟨by rw [hp]; rfl, hv⟩
    · rw [hphase] at hl
      cases hl
  case beginRun =>
    have htick : (k.st.chan d).ticking = true := Bool.not_eq_false _ ▸ hblocks
    exact absurd hbefore (hbound.ticking.mp htick)
  case loadStop e =>
    obtain ⟨hself, hgone⟩ := hblocks
    cases hself
    exact absurd hrun hgone
  case joinWorker | pushBack | pushFront => exact hbefore.elim
  case stall => exact absurd rfl hstall
  all_goals exact hblocks.elim

/-- **Who is waited for does not wait.** -/
theorem awaited_goes (h : (server P).Run (init P) tr k) (ht : ∀ e ∈ tr, ¬ ThrowsLocked e)
    (hw : Awaits k .lobby (.chan d)) (hback : Awaits k (.chan d) .lobby) : False := by
  obtain ⟨hnext, hheld⟩ := hback
  obtain ⟨f, hp⟩ := nextCall_eq_some.mp hnext
  obtain ⟨hrun, ⟨-, hmine⟩ | hjoin | ⟨⟨w, y, hpush⟩, -⟩⟩ := hw
  · rw [hheld] at hmine
    cases hmine
  · -- inside `Channel::join` the worker is past its critical section
    obtain ⟨g, hg⟩ := nextCall_eq_some.mp hjoin
    exact not_locking h (not_seen h ht ⟨g, hg⟩ hheld).2 ⟨d, f, hp⟩
  · -- a worker that wants the lock has `resolve_pool` among its tasks, and the constructor is through
    have htasks := (bound h d).tasks channelTasks (.inl (ticks_next h hp).2)
    obtain ⟨g, hg⟩ := nextCall_eq_some.mp hpush
    have hpre : Pre P .lobby (.pushFront d w y) k.st := (server_verified h).next_pre hg
    rcases hpre with habsent | ⟨-, -, hboot⟩
    · rw [hrun] at habsent
      cases habsent
    · rw [htasks] at hboot
      exact absurd hboot (by decide)

end

/-- **No deadlock.** In every run on which nothing makes the lobby throw while it holds a `pool_mtx`, every
thread that exists can go on, or is in an `accept` or a `send`, or waits, directly or not, for one that can or is. The
lobby and a worker never wait for each other. -/
theorem never_deadlocked {P : Params} {tr : List Ev} {k : Config sig Srv St}
    (h : (server P).Run (init P) tr k) (hthrows : ∀ e ∈ tr, ¬ ThrowsLocked e) :
    (∀ t, Alive k t → ∃ u, Alive k u ∧ (Busy P k u ∨ Abroad k u) ∧ Relation.ReflTransGen (Awaits k) t u) ∧
    ∀ d, Awaits k .lobby (.chan d) → ¬ Awaits k (.chan d) .lobby := by
  have hwaits (v : Srv) (hv : Alive k v) (hb : ¬ (Busy P k v ∨ Abroad k v)) : ∃ u, Alive k u ∧ Awaits k v u := by
    cases v with
    | lobby =>
      obtain ⟨d, hd⟩ := lobby_waits h hthrows hb
      exact ⟨.chan d, hd.1, hd⟩
    | chan d => exact ⟨.lobby, trivial, worker_waits h hv hb⟩
  have hlobby : Acc (fun u v => Awaits k v u) .lobby := by
    refine ⟨_, fun u hu => ?_⟩
    cases u with
    | lobby => exact hu.elim
    | chan d =>
      refine ⟨_, fun v hv => ?_⟩
      cases v with
      | lobby => exact (awaited_goes h hthrows hu hv).elim
      | chan e => exact hv.elim
  have hwf : WellFounded fun u v => Awaits k v u := by
    refine ⟨fun v => ?_⟩
    cases v with
    | lobby => exact hlobby
    | chan d =>
      refine ⟨_, fun u hu => ?_⟩
      cases u with
      | lobby => exact hlobby
      | chan e => exact hu.elim
  exact ⟨Sys.waits_end hwf hwaits, fun d => awaited_goes h hthrows⟩

/-- The lobby waits for the worker of a channel that it restarts. -/
theorem never_deadlocked_rejoin : ∃ tr k, (server sample).Run (init sample) tr k ∧ Awaiting 1 k ∧
    (∃ u, Alive k u ∧ (Busy sample k u ∨ Abroad k u) ∧ Relation.ReflTransGen (Awaits k) .lobby u) ∧
    ∀ d, Awaits k .lobby (.chan d) → ¬ Awaits k (.chan d) .lobby := by
  obtain ⟨tr, k, hr, hw, hf⟩ := exists_run (P := sample)
    (p := fun tr k => Awaiting 1 k ∧ ∀ e ∈ tr, ¬ Fails ⟨e.act, e.res⟩) rejoins (by decide +kernel)
  have hfree := never_deadlocked hr fun e he ht => hf e he ht.2.1
  exact ⟨tr, k, hr, hw, hfree.1 .lobby trivial, hfree.2⟩

end ChatChannel
