import ChatChannel.Proof.Discipline
import ChatChannel.Proof.Reply

/-!
# The worker of a channel

The programs a channel's thread runs respect their preconditions. While the thread runs, nobody else
writes the members that its `View` collects, so an assertion about the view survives the other
threads without further proof; the triples below are about the worker alone.
-/

set_option autoImplicit false

namespace ChatChannel

open Conc

/-- What the worker of a channel knows of the state, whatever the other threads do. -/
structure View where
  cursor : Option (Fd × Stage)
  remaining : Option (List Fd)
  source : Option (Fd × Nat)
  batch : List Bytes
  current : Option Bytes
  clients : Finset Fd
  joining : List Fd
  leaving : List Fd
  /-- It holds its `pool_mtx`. -/
  held : Bool
  /-- `join_pool`, as long as the lock is held. -/
  pool : List (Fd × MessageReqDto)

/-- The lock's holder is the channel's own worker. -/
def holds (c : ChId) (m : Option Srv) : Bool := decide (m = some (.chan c))

@[simp] theorem holds_none (c : ChId) : holds c none = false := rfl

@[simp] theorem holds_lobby (c : ChId) : holds c (some .lobby) = false := rfl

@[simp] theorem holds_own (c : ChId) : holds c (some (.chan c)) = true := by simp [holds]

theorem holds_eq_true {c : ChId} {m : Option Srv} : holds c m = true ↔ m = some (.chan c) :=
  decide_eq_true_iff

theorem holds_eq_false {c : ChId} {m : Option Srv} : holds c m = false ↔ m ≠ some (.chan c) :=
  decide_eq_false_iff_not

def view (c : ChId) (s : St) : View where
  cursor := (s.base (.chan c)).aux.cursor
  remaining := (s.base (.chan c)).aux.remaining
  source := (s.base (.chan c)).aux.source
  batch := (s.base (.chan c)).aux.batch
  current := (s.base (.chan c)).aux.current
  clients := (s.base (.chan c)).clients
  joining := (s.chan c).joining
  leaving := (s.chan c).leaving
  held := holds c (s.chan c).mtx
  pool := bif holds c (s.chan c).mtx then (s.chan c).joinPool else []

/-- The worker is between two tasks, and not in the middle of anything. -/
structure Rest (v : View) : Prop where
  cursor : v.cursor = none
  source : v.source = none
  batch : v.batch = []
  held : v.held = false

/-- The worker of `c` runs, and `φ` holds of its view. -/
def On (c : ChId) (φ : View → Prop) (s : St) : Prop :=
  (s.chan c).worker = .running ∧ φ (view c s)

section

variable {P : Params} {c : ChId} {t : Srv} {a : Act} {r : Res a} {s s' : St}

/-! ## The view from outside -/

/-- The view after a call, field by field. -/
theorem view_exec (h : exec t a r s = some s') : view c s' =
    { cursor := After.cursor t s (.chan c) a r
      remaining := After.remaining t s (.chan c) a r
      source := After.source t s (.chan c) a r
      batch := After.batch t s (.chan c) a r
      current := After.current t s (.chan c) a r
      clients := After.clients t s (.chan c) a r
      joining := After.joining t s c a r
      leaving := After.leaving t s c a r
      held := holds c (After.mtx t s c a r)
      pool := bif holds c (After.mtx t s c a r) then After.joinPool t s c a r else [] } := by
  unfold view
  rw [exec_cursor h, exec_remaining h, exec_source h, exec_batch h, exec_current h, exec_clients h,
    exec_joining h, exec_leaving h, exec_mtx h, exec_joinPool h]

/-- The other threads leave the view alone, unless they make or destroy the channel. -/
theorem view_other (ht : t ≠ .chan c) (hp : Pre P t a s) (h : exec t a r s = some s') :
    view c s' = view c s ∨ (s.chan c).worker = .absent ∧ Rest (view c s') := by
  have hne : Srv.chan c ≠ t := fun h => ht h.symm
  have hown : t ≠ .lobby → c ≠ own t := by
    intro hl hc
    cases t with
    | lobby => exact hl rfl
    | chan d => exact ht (by rw [hc, own])
  rw [view_exec h]
  cases a
  case newTracker d m =>
    cases t with
    | chan e => exact hp.2.elim
    | lobby =>
      by_cases hc : c = d
      · subst hc
        exact .inr ⟨hp.2.1, by constructor <;> simp [After.cursor, After.source, After.batch,
          After.mtx]⟩
      · left
        simp [view, After.cursor, After.remaining, After.source, After.batch, After.current,
          After.clients, After.joining, After.leaving, After.mtx, After.joinPool, hc]
  case dropTracker d =>
    cases t with
    | chan e => exact hp.2.elim
    | lobby =>
      by_cases hc : c = d
      · subst hc
        exact .inr ⟨hp.1, by constructor <;> simp [After.cursor, After.source, After.batch,
          After.mtx]⟩
      · left
        simp [view, After.cursor, After.remaining, After.source, After.batch, After.current,
          After.clients, After.joining, After.leaving, After.mtx, After.joinPool, hc]
  case lockPool d =>
    left
    by_cases hc : c = d
    · subst hc
      have hfree : (s.chan c).mtx = none := (need_eq_some.mp h).1
      have hother : holds c (some t) = false := holds_eq_false.mpr fun h => ht (Option.some.inj h)
      simp [view, After.mtx, hfree, hother, After.cursor, After.remaining, After.source, After.batch,
        After.current, After.clients, After.joining, After.leaving]
    · simp [view, After.mtx, hc, After.cursor, After.remaining, After.source, After.batch,
        After.current, After.clients, After.joining, After.leaving, After.joinPool]
  case unlockPool d =>
    left
    have hm : holds c (After.mtx t s c (.unlockPool d) r) = holds c (s.chan c).mtx := by
      by_cases hc : c = d
      · subst hc
        cases t with
        | lobby => simp [After.mtx, hp.1]
        | chan e => exact absurd (by rw [hp.2.1]) ht
      · simp [After.mtx, hc]
    simp only [hm]
    rfl
  case emplaceJoin d n m =>
    left
    by_cases hc : c = d
    · subst hc
      cases t with
      | chan e => exact hp.2.elim
      | lobby =>
        simp [view, After.mtx, hp.1, After.cursor, After.remaining, After.source, After.batch,
          After.current, After.clients, After.joining, After.leaving]
    · simp [view, After.mtx, hc, After.cursor, After.remaining, After.source, After.batch,
        After.current, After.clients, After.joining, After.leaving, After.joinPool]
  case takeJoinPool =>
    left
    have hc : c ≠ own t := hown (by rintro rfl; exact hp)
    simp [view, After.mtx, hc, After.cursor, After.remaining, After.source, After.batch,
      After.current, After.clients, After.joining, After.leaving, After.joinPool]
  case takeLeavePool =>
    left
    have hc : c ≠ own t := hown (by rintro rfl; exact hp)
    simp [view, After.mtx, hc, After.cursor, After.remaining, After.source, After.batch,
      After.current, After.clients, After.joining, After.leaving, After.joinPool]
  case addClient n =>
    left
    have hj : After.joining t s c (.addClient n) r = (s.chan c).joining := by
      by_cases hl : t = .lobby
      · simp [After.joining, hl]
      · simp [After.joining, hown hl]
    simp only [hj]
    simp [view, After.mtx, hne, After.cursor, After.remaining, After.source, After.batch,
      After.current, After.clients, After.leaving, After.joinPool]
  case deleteClient n =>
    left
    have hl : After.leaving t s c (.deleteClient n) r = (s.chan c).leaving := by
      by_cases hl : t = .lobby
      · simp [After.leaving, hl]
      · simp [After.leaving, hown hl]
    simp only [hl]
    simp [view, After.mtx, hne, After.cursor, After.remaining, After.source, After.batch,
      After.current, After.clients, After.joining, After.joinPool]
  case recv n =>
    left
    cases r <;> simp [view, After.mtx, hne, After.cursor, After.remaining, After.source,
      After.batch, After.current, After.clients, After.joining, After.leaving, After.joinPool]
  all_goals
    left
    simp [view, After.mtx, hne, After.cursor, After.remaining, After.source, After.batch,
      After.current, After.clients, After.joining, After.leaving, After.joinPool]

theorem worker_other (ht : t ≠ .chan c) (hp : Pre P t a s) (h : exec t a r s = some s')
    (hr : (s.chan c).worker = .running) : (s'.chan c).worker = .running := by
  rw [exec_worker h]
  cases a
  case joinWorker d =>
    have hended : (s.chan d).worker = .ended := (need_eq_some.mp h).1
    have hc : c ≠ d := by
      rintro rfl
      simp [hr] at hended
    simpa [After.worker, hc] using hr
  case startWorker d => cases r <;> simp [After.worker, hr]
  case exitThread =>
    cases t with
    | lobby => exact hp.elim
    | chan e =>
      have hc : c ≠ e := fun hc => ht (by rw [hc])
      simpa [After.worker, own, hc] using hr
  case newTracker d m =>
    cases t with
    | chan e => exact hp.2.elim
    | lobby =>
      have hc : c ≠ d := by
        rintro rfl
        exact absurd hp.2.1 (by simp [hr])
      simpa [After.worker, hc] using hr
  case dropTracker d =>
    cases t with
    | chan e => exact hp.2.elim
    | lobby =>
      have hc : c ≠ d := by
        rintro rfl
        exact absurd hp.1 (by simp [hr])
      simpa [After.worker, hc] using hr
  all_goals exact hr

/-! ## Assertions about the view -/

theorem on_stable (φ : View → Prop) : (discipline P).Stable (.chan c) (On c φ) := by
  intro u a r s s' hu _ hp h _ ⟨hr, hφ⟩
  refine ⟨worker_other hu hp h hr, ?_⟩
  rcases view_other hu hp h with hv | ⟨ha, -⟩
  · rw [hv]
    exact hφ
  · simp [hr] at ha

theorem rest_stable : (discipline P).Stable (.chan c) fun s => Rest (view c s) := by
  intro u a r s s' hu _ hp h _ hrest
  rcases view_other hu hp h with hv | ⟨-, hv⟩
  · rw [hv]
    exact hrest
  · exact hv

/-! ## Triples for calls -/

/-- A call that keeps the worker running. -/
def Plain : Act → Prop
  | .loadStop _ | .exitThread | .joinWorker _ | .startWorker _ | .newTracker _ _
  | .dropTracker _ => False
  | _ => True

theorem worker_plain (ha : Plain a) (h : exec t a r s = some s') :
    (s'.chan c).worker = (s.chan c).worker := by
  rw [exec_worker h]
  cases a <;> first | rfl | exact ha.elim

theorem Pre.of_workerPre (hr : (s.chan c).worker = .running) (ha : Plain a)
    (h : WorkerPre P c s a) : Pre P (.chan c) a s := by
  cases a <;> first | exact ha.elim | exact ⟨hr, h⟩

/-- Calls that change nothing in the view and may be made at any time in a tick. -/
def Still (c : ChId) : Act → Prop
  | .epollWait | .accept | .send _ _ | .getEv | .getClients | .getClientCount | .isListener _
  | .insertDeletion _ | .beginRun | .endRun | .getUserName _ | .systemNow | .newJoinReq
  | .joinPoolEmpty | .pushMq _ _ | .popMq | .clearCurMsgs | .emplaceCurMsg _ _ _ | .getCurMsgs
  | .stall => True
  | .storeEmptySince d _ => d = c
  | _ => False

theorem Still.plain (ha : Still c a) : Plain a := by
  cases a <;> first | exact trivial | exact ha.elim

theorem Still.pre (ha : Still c a) : WorkerPre P c s a := by
  cases a <;> first | exact trivial | exact ha.elim | exact ha

theorem Still.view (ha : Still c a) (h : exec t a r s = some s') : view c s' = view c s := by
  rw [view_exec h]
  cases a <;> first | rfl | exact ha.elim

section

variable {α : Type} {φ : View → Prop} {E : Err → St → Prop}

/-- One call of the worker. -/
theorem On.act {ψ : Res a → View → Prop} (ha : Plain a)
    (hpre : ∀ s, Wf s → φ (view c s) → WorkerPre P c s a)
    (hstep : ∀ r s s', φ (view c s) → exec (.chan c) a r s = some s' → ψ r (view c s')) :
    (discipline P).Triple (.chan c) (On c φ) (call a) (fun r => On c (ψ r)) E := by
  refine .perform (on_stable φ) (fun s hw ⟨hr, hφ⟩ => ?_) (fun r s s' hw ⟨hr, hφ⟩ h _ => ?_)
    fun r => on_stable (ψ r)
  · exact Pre.of_workerPre hr ha (hpre s hw hφ)
  · exact ⟨(worker_plain ha h).trans hr, hstep r s s' hφ h⟩

/-- A call that does not touch the view, with what its answer says. -/
theorem On.ask {ψ : Res a → View → Prop} (ha : Still c a)
    (hans : ∀ r s s', φ (view c s) → exec (.chan c) a r s = some s' → ψ r (view c s)) :
    (discipline P).Triple (.chan c) (On c φ) (call a) (fun r => On c (ψ r)) E :=
  On.act ha.plain (fun _ _ _ => ha.pre) fun r s s' hφ h => by
    rw [ha.view h]
    exact hans r s s' hφ h

/-- A program of such calls. -/
theorem On.still {p : Code α} (hp : p.All (Still c)) :
    (discipline P).Triple (.chan c) (On c φ) p (fun _ => On c φ) (fun _ => On c φ) :=
  .keep (on_stable φ) hp (fun _ _ ha _ hs => Pre.of_workerPre hs.1 ha.plain ha.pre)
    fun _ _ _ _ ha _ hs h _ =>
      ⟨(worker_plain ha.plain h).trans hs.1, by rw [ha.view h]; exact hs.2⟩

theorem On.ret {x : α} {ψ : α → View → Prop} (h : ∀ v, φ v → ψ x v) :
    (discipline P).Triple (.chan c) (On c φ) (.ret x) (fun y => On c (ψ y)) E :=
  .ret (on_stable φ) fun _ _ hs => ⟨hs.1, h _ hs.2⟩

theorem On.raise {e : Err} {ψ : Err → View → Prop} {Q : α → St → Prop} (h : ∀ v, φ v → ψ e v) :
    (discipline P).Triple (.chan c) (On c φ) (.raise e) Q (fun e => On c (ψ e)) :=
  .raise (on_stable φ) fun _ _ hs => ⟨hs.1, h _ hs.2⟩

end

/-! ## Reading from a client -/

/-- In `on_recv` for `n`, before `on_frame` of the frames in `l`. -/
structure Reading (n : Fd) (l : List Bytes) (v : View) : Prop where
  cursor : v.cursor = none
  remaining : v.remaining = none
  source : ∃ k, v.source = some (n, k)
  batch : v.batch = l
  held : v.held = false

/-- In `on_recv`, before the frames are decoded. -/
structure Receiving (v : View) : Prop where
  cursor : v.cursor = none
  remaining : v.remaining = none
  batch : v.batch = []
  held : v.held = false

/-- Between two tasks of a tick, the deletions of which have not begun. -/
structure Ready (v : View) : Prop where
  rest : Rest v
  remaining : v.remaining = none

theorem Ready.receiving {v : View} (h : Ready v) : Receiving v :=
  ⟨h.rest.cursor, h.remaining, h.rest.batch, h.rest.held⟩

theorem Reading.receiving {v : View} {n : Fd} (h : Reading n [] v) : Receiving v :=
  ⟨h.cursor, h.remaining, h.batch, h.held⟩

/-- A `recv` that leaves the loop with the connection's bytes, or goes on. -/
theorem recv_receiving {n : Fd} {r : RecvRes} (hv : Receiving (view c s))
    (h : exec (.chan c) (.recv n) r s = some s') : Receiving (view c s') := by
  rw [view_exec h]
  cases r <;> exact ⟨hv.cursor, hv.remaining, hv.batch, hv.held⟩

theorem recv_reading {n : Fd} {r : RecvRes} (hv : Receiving (view c s))
    (h : exec (.chan c) (.recv n) r s = some s') (hr : r = .again ∨ ∃ b, r = .chunk b) :
    Reading n [] (view c s') := by
  have hc : (File.conn? (s.file n)).isSome := by
    rcases hr with rfl | ⟨b, rfl⟩
    · exact (need_eq_some.mp h).1
    · exact (need_eq_some.mp h).1.1
  obtain ⟨k, hk⟩ := Option.isSome_iff_exists.mp hc
  have hsrc : (view c s').source = some (n, k) := by
    rw [view_exec h]
    rcases hr with rfl | ⟨b, rfl⟩ <;> simp [After.source, hk]
  have hrest := recv_receiving hv h
  exact ⟨hrest.cursor, hrest.remaining, ⟨k, hsrc⟩, hrest.batch, hrest.held⟩

theorem worker_recvLoop (n : Fd) : ∀ fuel : Nat, (discipline P).Triple (.chan c) (On c Receiving)
    (recvLoop n fuel) (fun _ => On c (Reading n [])) (fun _ => On c Receiving)
  | 0 => On.ask (ψ := fun _ => Reading n []) trivial fun _ _ _ _ h => by cases h
  | fuel + 1 => by
    refine .bind (Q := fun r => On c fun v => Receiving v ∧
        ((r = .again ∨ ∃ b, r = .chunk b) → Reading n [] v)) ?_ fun r => ?_
    · exact On.act trivial (fun s _ hv => hv.cursor) fun r s s' hv h =>
        ⟨recv_receiving hv h, recv_reading hv h⟩
    · cases r with
      | again => exact On.ret fun v hv => hv.2 (.inl rfl)
      | error => exact On.raise fun v hv => hv.1
      | fin => exact On.raise fun v hv => hv.1
      | chunk b =>
        simp only
        split
        · exact On.ret fun v hv => hv.2 (.inr ⟨b, rfl⟩)
        · exact .pre (worker_recvLoop n fuel) fun s _ hs => ⟨hs.1, hs.2.1⟩

theorem worker_recvFrame (n : Fd) : (discipline P).Triple (.chan c) (On c Receiving)
    (recvFrame P n) (fun l => On c (Reading n l)) (fun _ => On c Receiving) := by
  refine .bind (worker_recvLoop n P.maxReads) fun _ => ?_
  refine .bind (Q := fun r => On c (Reading n (r.toOption.getD []))) ?_ fun r => ?_
  · refine On.act trivial (fun s _ hv => ⟨hv.cursor, hv.source⟩) fun r s s' hv h => ?_
    rw [view_exec h]
    exact ⟨hv.cursor, hv.remaining, hv.source, by simp [After.batch], hv.held⟩
  · cases r with
    | ok l => exact On.ret fun v hv => hv
    | error e => exact On.raise fun v hv => hv.receiving

theorem worker_chatOnReq {φ : View → Prop} {E : Err → St → Prop} (n : Fd) (target : Bytes)
    (root : P.js.Json) : (discipline P).Triple (.chan c) (On c φ) (chatOnReq P.js n target root)
      (fun _ => On c φ) E := by
  unfold chatOnReq
  split
  · split
    · exact On.ret fun _ h => h
    · refine .bind (On.ask trivial fun _ _ _ h _ => h) fun u => ?_
      cases u with
      | none => exact On.ret fun _ h => h
      | some u => exact On.ask trivial fun _ _ _ h _ => h
  · exact On.ret fun _ h => h

theorem worker_onFrame {E : Err → St → Prop} (n : Fd) (f : Bytes) (l : List Bytes) :
    (discipline P).Triple (.chan c) (On c (Reading n (f :: l))) (onFrame P (.chan c) n f)
      (fun _ => On c (Reading n l)) E := by
  refine .bind (Q := fun _ => On c fun v => Reading n l v ∧ v.current = some f) ?_ fun _ => ?_
  · refine On.act trivial (fun s _ hv => ⟨hv.source, l, hv.batch⟩) fun r s s' hv h => ?_
    have hb : (s.base (.chan c)).aux.batch = f :: l := hv.batch
    rw [view_exec h]
    exact ⟨⟨hv.cursor, hv.remaining, hv.source, by simp [After.batch, hb], hv.held⟩,
      by simp [After.current]⟩
  have hdone : ∀ v, Reading n l v ∧ v.current = some f → Reading n l v := fun _ h => h.1
  cases hreq : requestOf P.js f with
  | none => exact On.ret hdone
  | some q =>
    obtain ⟨target, root⟩ := q
    simp only [channelOnReq]
    split
    · exact .pre (worker_chatOnReq n target root) fun s _ hs => ⟨hs.1, hdone _ hs.2⟩
    rename_i hmsg
    split
    swap
    · exact On.ret hdone
    rename_i hjoin
    cases hu : unpackChannelJoin P.js root with
    | none => exact On.ret hdone
    | some q =>
      obtain ⟨chTo, timestamp⟩ := q
      simp only
      split
      · exact On.ret hdone
      rename_i hto
      have hmoves : moves P (.chan c) f = true := by
        simp [moves, hreq, hu, hmsg, hjoin, hto]
      refine .bind (Q := fun _ => On c fun v => Reading n l v ∧ v.current = some f)
        (On.ask trivial fun _ _ _ h _ => h) fun ptr => ?_
      refine On.act trivial (fun s _ hv => ⟨hv.1.source, ⟨f, hv.2, hmoves⟩, rfl, hto⟩) ?_
      intro r s s' hv h
      rw [view_exec h]
      exact ⟨hv.1.cursor, hv.1.remaining, hv.1.source, hv.1.batch, hv.1.held⟩

theorem worker_endRecv : (discipline P).Triple (.chan c) (On c Receiving)
    (call .endRecv) (fun _ => On c Ready) fun _ _ => False := by
  refine On.act trivial (fun s _ hv => hv.batch) fun r s s' hv h => ?_
  rw [view_exec h]
  exact ⟨⟨hv.cursor, by simp [After.source], by simp [After.batch], hv.held⟩, hv.remaining⟩

theorem worker_onRecv (n : Fd) : (discipline P).Triple (.chan c) (On c Ready)
    (onRecv P (.chan c) n) (fun _ => On c Ready) fun _ _ => False := by
  refine .handle (E := fun _ => On c Receiving) ?_ fun e => ?_
  · refine .bind (Q := fun l => On c (Reading n l)) ?_ fun l => ?_
    · exact .pre (worker_recvFrame n) fun s _ hs => ⟨hs.1, hs.2.receiving⟩
    · refine .bind (.forEach (I := fun l => On c (Reading n l)) (on_stable _)
        (fun f l => worker_onFrame n f l) l) fun _ => ?_
      exact .conseq worker_endRecv (fun s _ hs => ⟨hs.1, hs.2.receiving⟩) (fun _ _ _ h => h)
        fun _ _ _ h => h.elim
  · refine .bind worker_endRecv fun _ => ?_
    exact On.ask trivial fun _ _ _ h _ => h

theorem worker_handleEvents (ev : PollEv) : (discipline P).Triple (.chan c) (On c Ready)
    (handleEvents P (.chan c) ev) (fun _ => On c Ready) fun _ _ => False := by
  refine .bind (On.ask trivial fun _ _ _ h _ => h) fun b => ?_
  cases b with
  | true =>
    refine .bind (On.ask trivial fun _ _ _ h _ => h) fun o => ?_
    cases o <;> exact On.ret fun _ h => h
  | false =>
    simp only [Bool.false_eq_true, if_false]
    split
    · exact On.ask trivial fun _ _ _ h _ => h
    · split
      · exact worker_onRecv ev.fd
      · exact On.ret fun _ h => h

/-! ## Deletions -/

/-- In `resolve_deletion`, with `l` not visited yet. -/
structure Deleting (l : List Fd) (o : Option (Fd × Stage)) (v : View) : Prop where
  cursor : v.cursor = o
  remaining : v.remaining = some l
  source : v.source = none
  batch : v.batch = []
  held : v.held = false

theorem worker_deleteOne (n : Fd) (l : List Fd) : (discipline P).Triple (.chan c)
    (On c (Deleting (n :: l) none)) (do
      call (.setCursor (some n))
      let timestamp ← call .systemNow
      let userName ← call (.getUserName n)
      call (.pushMq n (sysMsg c (ascii "leave") timestamp (userName.getD (ascii "unknown"))))
      tryCatch (trackerDelete n) fun _ => pure ()
      call (.removeUserName n)
      call (.close n)
      call (.clearBuffer n)) (fun _ => On c (Deleting l none)) fun _ _ => False := by
  refine .bind (Q := fun _ => On c (Deleting l (some (n, .picked)))) ?_ fun _ => ?_
  · refine On.act trivial (fun s _ hv => ⟨hv.cursor, hv.source, ?_⟩) fun r s s' hv h => ?_
    · rintro m ⟨⟩
      exact ⟨_, hv.remaining, by simp⟩
    · have hr : (s.base (.chan c)).aux.remaining = some (n :: l) := hv.remaining
      rw [view_exec h]
      exact ⟨by simp [After.cursor], by simp [After.remaining, hr], hv.source, hv.batch, hv.held⟩
  refine .bind (On.ask trivial fun _ _ _ h _ => h) fun timestamp => ?_
  refine .bind (On.ask trivial fun _ _ _ h _ => h) fun userName => ?_
  refine .bind (On.ask trivial fun _ _ _ h _ => h) fun _ => ?_
  refine .bind (Q := fun _ => On c (Deleting l (some (n, .doomed)))) ?_ fun _ => ?_
  · refine .handle (E := fun _ => On c (Deleting l (some (n, .doomed)))) ?_
      fun _ => On.ret fun _ h => h
    refine .bind (Q := fun _ => On c (Deleting l (some (n, .doomed)))) ?_ fun b => ?_
    · refine On.act trivial (fun s _ hv => .inr ⟨holds_eq_false.mp hv.held, hv.cursor⟩) ?_
      intro r s s' hv h
      have hcur : (s.base (.chan c)).aux.cursor = some (n, .picked) := hv.cursor
      rw [view_exec h]
      exact ⟨by simp [After.cursor, hcur], hv.remaining, hv.source, hv.batch, hv.held⟩
    · cases b
      · exact On.raise fun _ h => h
      · exact On.ret fun _ h => h
  refine .bind (Q := fun _ => On c (Deleting l (some (n, .doomed)))) ?_ fun _ => ?_
  · refine On.act trivial (fun s _ hv => hv.cursor) fun r s s' hv h => ?_
    rw [view_exec h]
    exact ⟨hv.cursor, hv.remaining, hv.source, hv.batch, hv.held⟩
  refine .bind (Q := fun _ => On c (Deleting l (some (n, .closed)))) ?_ fun _ => ?_
  · refine On.act trivial (fun s _ hv => hv.cursor) fun r s s' hv h => ?_
    have hcur : (s.base (.chan c)).aux.cursor = some (n, .doomed) := hv.cursor
    rw [view_exec h]
    exact ⟨by simp [After.cursor, hcur], hv.remaining, hv.source, hv.batch, hv.held⟩
  · refine On.act trivial (fun s _ hv => hv.cursor) fun r s s' hv h => ?_
    have hcur : (s.base (.chan c)).aux.cursor = some (n, .closed) := hv.cursor
    rw [view_exec h]
    exact ⟨by simp [After.cursor, hcur], hv.remaining, hv.source, hv.batch, hv.held⟩

theorem worker_resolveDeletion : (discipline P).Triple (.chan c) (On c Ready)
    (channelResolveDeletion c) (fun _ => On c Rest) fun _ _ => False := by
  refine .bind (Q := fun l => On c (Deleting l none)) ?_ fun l => ?_
  · refine On.act trivial (fun s _ hv => ⟨hv.remaining, hv.rest.cursor⟩) fun r s s' hv h => ?_
    rw [view_exec h]
    exact ⟨hv.rest.cursor, by simp [After.remaining], hv.rest.source, hv.rest.batch, hv.rest.held⟩
  refine .bind (.forEach (I := fun l => On c (Deleting l none)) (on_stable _)
    (fun n l => worker_deleteOne n l) l) fun _ => ?_
  refine On.act trivial (fun s _ hv => ⟨hv.cursor, hv.source, by simp⟩) fun r s s' hv h => ?_
  rw [view_exec h]
  exact ⟨by simp [After.cursor], hv.source, hv.batch, hv.held⟩

/-! ## The pools -/

/-- In the critical section of `resolve_pool`. -/
structure Pooling (js ls : List Fd) (v : View) : Prop where
  cursor : v.cursor = none
  remaining : v.remaining = none
  source : v.source = none
  batch : v.batch = []
  held : v.held = true
  joining : v.joining = js
  leaving : v.leaving = ls

/-- The same, with an empty `join_pool`. -/
structure Dismissing (ls : List Fd) (v : View) : Prop where
  pooling : Pooling [] ls v
  pool : v.pool = []

theorem worker_admitOne (p : Fd × MessageReqDto) (l : List (Fd × MessageReqDto)) :
    (discipline P).Triple (.chan c)
      (On c fun v => Pooling (keys (p :: l)) [] v ∧ v.pool = []) (admitOne p)
      (fun _ => On c fun v => Pooling (keys l) [] v ∧ v.pool = []) fun _ _ => False := by
  refine .handle (E := fun _ => On c fun v => Pooling (keys l) [] v ∧ v.pool = []) ?_
    fun _ => On.ret fun _ h => h
  refine .bind (Q := fun _ => On c fun v => Pooling (keys l) [] v ∧ v.pool = []) ?_
    fun _ => On.ask trivial fun _ _ _ h _ => h
  refine .bind (Q := fun _ => On c fun v => Pooling (keys l) [] v ∧ v.pool = []) ?_ fun r => ?_
  · refine On.act trivial (fun s _ ⟨hv, _⟩ => ⟨holds_eq_true.mp hv.held, ?_, hv.leaving⟩) ?_
    · have hj : (s.chan c).joining = keys (p :: l) := hv.joining
      rw [hj]
      exact List.mem_cons_self
    · rintro r s s' ⟨hv, hp⟩ h
      have hj : (s.chan c).joining = p.1 :: keys l := hv.joining
      rw [view_exec h]
      exact ⟨⟨hv.cursor, hv.remaining, hv.source, hv.batch, hv.held,
        by simp [After.joining, own, hj], hv.leaving⟩, hp⟩
  · cases r with
    | ok => exact On.ret fun _ h => h
    | full => exact On.raise fun _ h => h
    | failed => exact On.raise fun _ h => h

theorem worker_dismissOne (p : Fd × MessageReqDto) (l : List (Fd × MessageReqDto)) :
    (discipline P).Triple (.chan c) (On c (Dismissing (keys (p :: l)))) (dismissOne p)
      (fun _ => On c (Dismissing (keys l))) fun _ _ => False := by
  refine .handle (E := fun _ => On c (Dismissing (keys l))) ?_ fun _ => On.ret fun _ h => h
  refine .bind (Q := fun _ => On c (Dismissing (keys l))) ?_
    fun _ => On.ask trivial fun _ _ _ h _ => h
  refine .bind (Q := fun _ => On c (Dismissing (keys l))) ?_ fun r => ?_
  · refine On.act trivial (fun s _ hv => ?_) fun r s s' hv h => ?_
    · have hl : (s.chan c).leaving = keys (p :: l) := hv.pooling.leaving
      have hm := holds_eq_true.mp hv.pooling.held
      have hpool : (s.chan c).joinPool = [] := by simpa [view, hm] using hv.pool
      refine .inl ⟨hm, ?_, hv.pooling.joining, hpool, hv.pooling.cursor⟩
      rw [hl]
      exact List.mem_cons_self
    · have hl : (s.chan c).leaving = p.1 :: keys l := hv.pooling.leaving
      have hcur : (s.base (.chan c)).aux.cursor = none := hv.pooling.cursor
      rw [view_exec h]
      exact ⟨⟨by simp [After.cursor, hcur], hv.pooling.remaining, hv.pooling.source,
        hv.pooling.batch, hv.pooling.held, hv.pooling.joining,
        by simp [After.leaving, own, hl]⟩, hv.pool⟩
  · cases r
    · exact On.raise fun _ h => h
    · exact On.ret fun _ h => h

theorem worker_resolvePoolBody : (discipline P).Triple (.chan c) (On c (Pooling [] []))
    (resolvePoolBody c) (fun _ => On c (Pooling [] [])) fun _ _ => False := by
  refine .bind (Q := fun joins => On c fun v => Pooling (keys joins) [] v ∧ v.pool = []) ?_
    fun joins => ?_
  · refine On.act trivial (fun s _ hv => ⟨holds_eq_true.mp hv.held, hv.joining, hv.leaving⟩) ?_
    intro r s s' hv h
    have hm : holds c (s.chan c).mtx = true := hv.held
    rw [view_exec h]
    exact ⟨⟨hv.cursor, hv.remaining, hv.source, hv.batch, hv.held,
      by simp [After.joining, own], hv.leaving⟩,
      by simp [After.joinPool, After.mtx, own, hm]⟩
  refine .bind (.forEach (I := fun l => On c fun v => Pooling (keys l) [] v ∧ v.pool = [])
    (on_stable _) (fun p l => worker_admitOne p l) joins) fun _ => ?_
  refine .bind (Q := fun leaves => On c (Dismissing (keys leaves))) ?_ fun leaves => ?_
  · refine On.act trivial (fun s _ hv => ⟨holds_eq_true.mp hv.1.held, hv.1.joining,
      hv.1.leaving⟩) fun r s s' hv h => ?_
    rw [view_exec h]
    exact ⟨⟨hv.1.cursor, hv.1.remaining, hv.1.source, hv.1.batch, hv.1.held, hv.1.joining,
      by simp [After.leaving, own]⟩, hv.2⟩
  refine .bind (.forEach (I := fun l => On c (Dismissing (keys l))) (on_stable _)
    (fun p l => worker_dismissOne p l) leaves) fun _ => ?_
  refine .bind (Q := fun k => On c fun v => Dismissing [] v ∧ (k = 0 → v.clients = ∅)) ?_
    fun k => ?_
  · refine On.ask trivial fun k s s' hv h => ⟨hv, fun hk => ?_⟩
    have hcard : k = (s.base (.chan c)).clients.card := (need_eq_some.mp h).1
    exact Finset.card_eq_zero.mp (hcard.symm.trans hk)
  split
  swap
  · exact On.ret fun _ hv => hv.1.pooling
  rename_i hk
  refine .bind (Q := fun _ => On c fun v => Dismissing [] v ∧ v.clients = ∅) ?_ fun b => ?_
  · exact On.ask trivial fun _ s s' hv _ => ⟨hv.1, hv.2 hk⟩
  cases b
  · exact On.ret fun _ hv => hv.1.pooling
  refine .bind (Q := fun _ => On c (Pooling [] [])) ?_ fun _ => ?_
  · refine On.act trivial (fun s _ hv => ?_) fun r s s' hv h => ?_
    · obtain ⟨hv, hcl⟩ := hv
      have hm := holds_eq_true.mp hv.pooling.held
      have hpool : (s.chan c).joinPool = [] := by simpa [view, hm] using hv.pool
      exact ⟨rfl, rfl, hm, ⟨hcl, hpool, hv.pooling.joining⟩⟩
    · rw [view_exec h]
      exact hv.1.pooling
  refine .bind (Q := fun _ => On c (Pooling [] [])) (On.ask trivial fun _ _ _ h _ => h) fun now => ?_
  exact On.ask rfl fun _ _ _ h _ => h

theorem worker_unlock : (discipline P).Triple (.chan c) (On c (Pooling [] []))
    (call (.unlockPool c)) (fun _ => On c Ready) fun _ _ => False := by
  refine On.act trivial (fun s _ hv => ⟨rfl, holds_eq_true.mp hv.held, hv.joining, hv.leaving⟩) ?_
  intro r s s' hv h
  rw [view_exec h]
  exact ⟨⟨hv.cursor, hv.source, hv.batch, by simp [After.mtx]⟩, hv.remaining⟩

theorem worker_resolvePool : (discipline P).Triple (.chan c) (On c Ready) (resolvePool c)
    (fun _ => On c Ready) fun _ _ => False := by
  refine .bind (Q := fun _ => On c (Pooling [] [])) ?_ fun _ => ?_
  · refine .perform (on_stable _) (fun s _ hs => ⟨hs.1, rfl, hs.2.rest.cursor⟩) ?_
      fun _ => on_stable _
    intro r s s' hw hs h _
    have hun := hw.unlocked c (holds_eq_false.mp hs.2.rest.held)
    refine ⟨(worker_plain (a := .lockPool c) trivial h).trans hs.1, ?_⟩
    rw [view_exec h]
    exact ⟨hs.2.rest.cursor, hs.2.remaining, hs.2.rest.source, hs.2.rest.batch,
      by simp [After.mtx], hun.1, hun.2⟩
  · exact .bind (.handle worker_resolvePoolBody fun _ => .false) fun _ => worker_unlock

/-! ## A tick, and the loop -/

theorem still_chatTask : (chatTask P.js).All (Still c) := by
  refine .bind (.bind (.perform trivial) fun q => .forEach (fun _ => .perform trivial) q) fun _ => ?_
  refine .bind (.perform trivial) fun cur => ?_
  split
  · trivial
  · exact .bind (.perform trivial) fun l => .bind (all_broadcast _ l fun _ _ _ => trivial) fun failed =>
      .forEach (fun _ => .perform trivial) failed

/-- What holds between the tasks: the deletions of the tick are behind or before the worker. -/
theorem worker_quiet {x : Task} (hx : x = .polling ∨ x = .clearCurMsgs ∨ x = .chat) :
    (discipline P).Triple (.chan c) (On c Ready) (runTask P (.chan c) x) (fun _ => On c Ready)
      fun _ => On c Rest := by
  have hstill : (runTask P (.chan c) x).All (Still c) := by
    rcases hx with rfl | rfl | rfl
    · refine .bind (.perform trivial) fun o => ?_
      cases o <;> trivial
    · exact .perform trivial
    · exact still_chatTask
  exact .post (On.still hstill) (fun _ _ _ h => h) fun _ _ _ hs => ⟨hs.1, hs.2.rest⟩

theorem worker_clearDeletion : (discipline P).Triple (.chan c) (On c Rest)
    (runTask P (.chan c) .clearDeletion) (fun _ => On c Ready) fun _ => On c Rest := by
  refine On.act trivial (fun _ _ hv => hv.cursor) fun r s s' hv h => ?_
  rw [view_exec h]
  exact ⟨⟨hv.cursor, hv.source, hv.batch, hv.held⟩, by simp [After.remaining]⟩

theorem worker_task {x : Task} (hx : x = .handleEvents ∨ x = .resolvePool) :
    (discipline P).Triple (.chan c) (On c Ready) (runTask P (.chan c) x) (fun _ => On c Ready)
      fun _ => On c Rest := by
  refine .post (D := fun _ _ => False) ?_ (fun _ _ _ h => h) fun _ _ _ h => h.elim
  rcases hx with rfl | rfl
  · refine .bind (Q := fun _ => On c Ready) (On.ask trivial fun _ _ _ h _ => h) fun evs => ?_
    exact .forEach (I := fun _ => On c Ready) (on_stable _)
      (fun ev _ => worker_handleEvents ev) evs
  · exact worker_resolvePool

/-- The tasks of a tick, whether `resolve_pool` is among them yet or not. -/
theorem worker_sessions {l : List (List Task)} (hl : l = bootTasks ∨ l = channelTasks) :
    (discipline P).Triple (.chan c) (On c Rest)
      (Prog.forEach (Prog.forEach (runTask P (.chan c))) l) (fun _ => On c Rest)
      fun _ => On c Rest := by
  have hlast : (discipline P).Triple (.chan c) (On c Ready)
      (runTask P (.chan c) .resolveDeletion) (fun _ => On c Rest) fun _ => On c Rest :=
    .post worker_resolveDeletion (fun _ _ _ h => h) fun _ _ _ h => h.elim
  have hend : (discipline P).Triple (.chan c) (On c Ready)
      (Prog.forEach (runTask P (.chan c)) [.chat, .resolveDeletion]) (fun _ => On c Rest)
      fun _ => On c Rest :=
    .bind (worker_quiet (by simp)) fun _ => .bind hlast fun _ => On.ret fun _ h => h
  have hfront {φ : View → Prop} {p : Code Unit} (hp : (discipline P).Triple (.chan c)
      (On c Ready) p (fun _ => On c φ) fun _ => On c Rest) : (discipline P).Triple (.chan c)
      (On c Rest) ((Prog.forEach (runTask P (.chan c)) [.clearDeletion, .clearCurMsgs]).bind
        fun _ => (Prog.forEach (runTask P (.chan c)) [.polling, .handleEvents]).bind fun _ => p)
      (fun _ => On c φ) fun _ => On c Rest := by
    refine .bind (Q := fun _ => On c Ready) ?_ fun _ => .bind (Q := fun _ => On c Ready) ?_
      fun _ => hp
    · exact .bind worker_clearDeletion fun _ => .bind (worker_quiet (by simp)) fun _ =>
        On.ret fun _ h => h
    · exact .bind (worker_quiet (by simp)) fun _ => .bind (worker_task (by simp)) fun _ =>
        On.ret fun _ h => h
  rcases hl with rfl | rfl
  · exact hfront (.bind hend fun _ => On.ret fun _ h => h)
  · exact hfront (.bind (.bind (worker_task (by simp)) fun _ => hend) fun _ => On.ret fun _ h => h)

theorem worker_run : (discipline P).Triple (.chan c) (On c Rest) (run P (.chan c))
    (fun _ => On c Rest) fun _ => On c Rest := by
  refine .bind (Q := fun l s => (l = bootTasks ∨ l = channelTasks) ∧ On c Rest s) ?_ fun l => ?_
  · refine .perform (on_stable _) (fun s _ hs => Pre.of_workerPre (a := .beginRun) hs.1 trivial trivial)
      ?_ fun l => Outline.Stable.and Outline.Stable.const (on_stable _)
    intro l s s' hw hs h _
    refine ⟨?_, (worker_plain (a := .beginRun) trivial h).trans hs.1, ?_⟩
    · have hl : l = (s.base (.chan c)).runner := (need_eq_some.mp h).1.1
      rw [hl]
      exact hw.tasks c hs.1
    · have hstill : Still c .beginRun := trivial
      rw [hstill.view h]
      exact hs.2
  refine .pure fun hl => ?_
  refine .bind (.handle (worker_sessions hl) fun e => ?_) fun _ =>
    On.ask trivial fun _ _ _ h _ => h
  exact .bind (Q := fun _ => On c Rest) (On.ask trivial fun _ _ _ h _ => h) fun _ =>
    On.raise fun _ h => h

/-- The worker's loop assertion is that it is not in the middle of anything. -/
theorem worker_proc : (discipline P).Triple (.chan c) (fun s => Rest (view c s)) (proc P (.chan c))
    (fun _ s => Rest (view c s)) fun _ _ => False := by
  refine .bind (Q := fun _ => On c Rest) ?_ fun b => ?_
  · refine .perform rest_stable (fun _ _ _ => rfl) (fun r s s' _ hrest h _ => ?_)
      fun _ => on_stable _
    obtain ⟨⟨-, hrun⟩, rfl⟩ := need_eq_some.mp h
    exact ⟨hrun rfl, hrest⟩
  cases b with
  | true =>
    refine .perform (on_stable _) (fun s _ hs => ?_) (fun r s s' _ hs h _ => ?_)
      fun _ => rest_stable
    · exact ⟨hs.1, hs.2.cursor, holds_eq_false.mp hs.2.held⟩
    · rw [view_exec h]
      exact ⟨hs.2.cursor, hs.2.source, hs.2.batch, hs.2.held⟩
  | false =>
    refine .post (B := fun _ => On c Rest) (D := fun _ _ => False) ?_ (fun _ _ _ h => h.2)
      fun _ _ _ h => h
    exact .handle worker_run fun _ => On.ret fun _ h => h

end

end ChatChannel
