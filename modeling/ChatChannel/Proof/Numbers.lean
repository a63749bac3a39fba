import ChatChannel.Conc.Flow
import ChatChannel.Proof.Alphabet
import ChatChannel.Proof.Reply
import ChatChannel.Proof.Runs

/-!
# Where descriptor numbers come from

A server closes what it took from `next_deletion`, and it puts there what it has the number of: an event, a
client, an accepted connection, an entry of `last_act`, the author of a report. So a property of numbers that
all of these have is one of every number that is closed. `Cites` is the part of this that is about program
text, `Possesses` the part that is about states; both leave open what the property is.
-/

set_option autoImplicit false

namespace ChatChannel

open Conc

/-! ## Arguments and answers -/

/-- The answers when the numbers of events are in `E`, and of these the ones that are not the listening
socket's, and all other numbers, in `G`. `D` tells whether channels are destroyed. -/
def Answers (D : Prop) (E G : Fd → Prop) : (a : Act) → Res a → Prop
  | .isListener n, r => r = false → E n → G n
  | .getEv, evs => ∀ ev ∈ evs, E ev.fd
  | .accept, o => ∀ n, o = some n → G n
  | .getClients, l => ∀ n ∈ l, G n
  | .getLastAct, l => ∀ p ∈ l, G p.1
  | .getEfd _, _ => D
  | _, _ => True

/-- Only numbers in `G` are scheduled for deletion. -/
def Arguments (D : Prop) (G : Fd → Prop) : Act → Prop
  | .insertDeletion n | .setLastAct n _ => G n
  | .assignLastAct l => ∀ p ∈ l, G p.1
  | .closeListener | .epollDel _ _ => D
  | _ => True

/-- The judgment of a program on these. -/
abbrev Cites {α : Type} (D : Prop) (E G : Fd → Prop) (p : Code α) (Q : α → Prop) : Prop :=
  p.Under (Answers D E G) (Arguments D G) Q

section

variable {P : Params} {α : Type} {p : Code α} {c : ChId} {n : Fd} {D : Prop} {E G : Fd → Prop}

theorem cites_ask {a : Act} (ha : Arguments D G a) : Cites D E G (call a) (Answers D E G a) := .perform ha

theorem cites_destroyServerBase : Cites D E G (destroyServerBase c) fun _ => True := by
  refine .bind (cites_ask (a := .getEfd c) trivial) fun e hD => ?_
  refine .of_all (.bind (.perform trivial) fun l => ?_)
  have hend : (do
      if (← call .getListenFd) ≠ fdErr then call .closeListener
      call (.dropTracker c) : Code Unit).All (Arguments D G) := by
    refine .bind (.perform trivial) fun n => ?_
    split
    · exact .bind (.perform hD) fun _ => .perform trivial
    · exact .perform trivial
  split
  · refine .bind (.forEach (fun n => .bind (.perform hD) fun _ => ?_) l) fun _ =>
      .bind (.perform trivial) fun _ => hend
    split
    · exact .perform trivial
    · trivial
  · refine .bind (.forEach (fun n => ?_) l) fun _ => hend
    split
    · exact .perform trivial
    · trivial

theorem cites_of_building (hp : p.All Building) : Cites D E G p fun _ => True :=
  .of_all (hp.mono fun a ha => by cases a <;> first | exact trivial | exact ha.elim)

theorem cites_of_enrolling (hp : p.All Enrolling) : Cites D E G p fun _ => True :=
  .of_all (hp.mono fun a ha => by cases a <;> first | exact trivial | exact ha.elim)

theorem cites_sendFrame (b : Bytes) : Cites D E G (sendFrame n b) fun _ => True :=
  .of_all (all_sendFrame (fun _ => trivial) b)

theorem cites_newChannel (m : Int32) : Cites D E G (newChannel c m) fun _ => True := by
  have hbase : Cites D E G (serverBase c m) fun _ => True :=
    .bind (cites_ask (a := .newTracker c m) trivial) fun _ _ =>
      .handle (cites_of_building (building_init c)) fun _ => trivial
  refine .bind hbase fun _ _ => .handle ?_ fun e => .bind cites_destroyServerBase fun _ _ => trivial
  refine .bind (cites_of_building (building_pushb c _ _)) fun _ _ =>
    .bind (cites_of_building (building_pushf c _ _)) fun _ _ =>
      .bind (cites_ask (a := .storeStop c false) trivial) fun _ _ =>
        .bind (cites_ask (a := .startWorker c) trivial) fun b _ => ?_
  cases b with
  | false => trivial
  | true => exact cites_of_building (building_pushf c _ _)

theorem cites_getChannel : Cites D E G (getChannel P c) fun _ => True := by
  refine .bind (cites_ask (a := .findChannel c) trivial) fun b _ => ?_
  cases b with
  | true => trivial
  | false => exact .bind (cites_newChannel _) fun _ _ => (cites_ask (a := .insertChannel c) trivial)

/-! ### Requests and reports -/

theorem cites_tryChannel (pref : ChId) : Cites D E G (tryChannel P pref c) fun _ => True := by
  unfold tryChannel
  split
  · trivial
  · refine .bind cites_getChannel fun _ _ => .bind (cites_ask (a := .lockPool c) trivial) fun _ _ =>
      .bind (cites_ask (a := .pingPool c) trivial) fun b _ => ?_
    cases b with
    | true => trivial
    | false => exact .bind (cites_ask (a := .unlockPool c) trivial) fun _ _ => trivial

theorem cites_firstSome {β : Type} {f : α → Code (Option β)} (hf : ∀ x, Cites D E G (f x) fun _ => True) :
    ∀ xs : List α, Cites D E G (Prog.firstSome f xs) fun _ => True
  | [] => trivial
  | x :: xs => .bind (hf x) fun o _ => by
      cases o with
      | none => exact cites_firstSome hf xs
      | some b => trivial

theorem cites_findOrCreateChannel (pref : ChId) :
    Cites D E G (findOrCreateChannel P pref) fun _ => True := by
  refine .bind cites_getChannel fun _ _ => .bind (cites_ask (a := .lockPool pref) trivial) fun _ _ =>
    .bind (cites_ask (a := .pingPool pref) trivial) fun b _ => ?_
  cases b with
  | true => trivial
  | false =>
    refine .bind (cites_ask (a := .unlockPool pref) trivial) fun _ _ =>
      .bind (cites_ask (a := .channelIds) trivial) fun ids _ =>
        .bind (cites_firstSome (fun _ => cites_tryChannel pref) ids) fun o _ => ?_
    cases o with
    | some c => trivial
    | none =>
      exact .bind (.of_all (all_freshId (fun _ => trivial) trivial _ _)) fun newId _ =>
        .bind cites_getChannel fun _ _ => .bind (cites_ask (a := .lockPool newId) trivial)
          fun _ _ => trivial

theorem cites_lobbyOnReq (target : Bytes) (root : P.js.Json) :
    Cites D E G (lobbyOnReq P n target root) fun _ => True := by
  unfold lobbyOnReq
  split
  · cases unpackLobbyJoin P.js root with
    | none => trivial
    | some q =>
      exact .bind (cites_ask (a := .setUserName n _) trivial) fun _ _ =>
        .bind (cites_findOrCreateChannel _) fun c _ =>
          .bind (cites_of_enrolling (enrolling_hand_over c n _ false).1) fun _ _ =>
            .bind (.of_all (all_trackerDelete trivial)) fun _ _ =>
              .bind (cites_ask (a := .eraseLastAct n) trivial) fun _ _ =>
                cites_ask (a := .unlockPool c) trivial
  · trivial

theorem cites_consumeOne (q : ChannelReport) : Cites D E G (consumeOne P q) fun _ => True := by
  refine .bind cites_getChannel fun _ _ => .bind cites_getChannel fun _ _ =>
    .bind (cites_ask (a := .lockPool q.join.chTo) trivial) fun _ _ =>
      .bind (cites_ask (a := .pingPool q.join.chTo) trivial) fun b _ => ?_
  cases b with
  | true =>
    exact .bind (cites_of_enrolling (enrolling_hand_over q.join.chTo q.from' _ true).1) fun _ _ =>
      .bind (cites_of_enrolling (enrolling_hand_over q.join.chFrom q.from' _ true).2) fun _ _ =>
        .bind (cites_ask (a := .unlockPool q.join.chTo) trivial) fun _ _ =>
          cites_ask (a := .deleteJoinReq q.ptr) trivial
  | false =>
    exact .bind (cites_sendFrame channelFull) fun _ _ => cites_ask (a := .unlockPool q.join.chTo) trivial

theorem cites_consumeLoop : ∀ k : Nat, Cites D E G (consumeLoop P k) fun _ => True
  | 0 => .bind (cites_ask (a := .nextReport) trivial) fun _ _ => trivial
  | k + 1 => .bind (cites_ask (a := .nextReport) trivial) fun o _ => by
      cases o with
      | none => trivial
      | some q => exact .bind (cites_consumeOne q) fun _ _ => cites_consumeLoop k

/-! ### Events -/

theorem cites_lobbyOnAccept (hn : G n) : Cites D E G (lobbyOnAccept n) fun _ => True := by
  have hadd : Cites D E G (trackerAdd n) fun _ => True := by
    refine .bind (cites_ask (a := .addClient n) trivial) fun r _ => ?_
    cases r <;> trivial
  refine .handle (.bind hadd fun _ _ => .bind (cites_ask (a := .setUserName n _) trivial) fun _ _ =>
    .bind (cites_ask (a := .steadyNow) trivial) fun _ _ => cites_ask (a := .setLastAct n _) hn) fun e => ?_
  dsimp only
  split
  · exact .bind (cites_sendFrame serverFull) fun _ _ => cites_ask (a := .insertDeletion n) hn
  · exact cites_ask (a := .insertDeletion n) hn

theorem cites_onRecv (v : Srv) (hn : G n) : Cites D E G (onRecv P v n) fun _ => True := by
  have hframe : ∀ f, Cites D E G (onFrame P v n f) fun _ => True := by
    intro f
    refine .bind (cites_ask (a := .onFrame n f) trivial) fun _ _ => ?_
    split
    · trivial
    · cases v with
      | lobby => exact cites_lobbyOnReq _ _
      | chan c =>
        refine .of_all ((asking_channelOnReq P.js c n _ _).mono fun a ha => ?_)
        cases a <;> first | exact trivial | exact ha.elim
  refine .handle (.bind (.of_all ((fromWire_recvFrame P n).mono fun a ha => ?_)) fun frames _ =>
    .bind (.forEach fun f _ => hframe f) fun _ _ => cites_ask (a := .endRecv) trivial) fun _ =>
      .bind (cites_ask (a := .endRecv) trivial) fun _ _ => cites_ask (a := .insertDeletion n) hn
  cases a <;> first | exact trivial | exact ha.elim

theorem cites_handleEvents (v : Srv) {ev : PollEv} (hev : E ev.fd) :
    Cites D E G (handleEvents P v ev) fun _ => True := by
  refine .bind (cites_ask (a := .isListener ev.fd) trivial) fun b hb => ?_
  cases b with
  | true =>
    refine .bind (cites_ask (a := .accept) trivial) fun o ho => ?_
    cases o with
    | none => trivial
    | some n =>
      cases v with
      | lobby => exact cites_lobbyOnAccept (ho n rfl)
      | chan c => trivial
  | false =>
    have hg : G ev.fd := hb rfl hev
    rw [if_neg (by simp)]
    split
    · exact cites_ask (a := .insertDeletion ev.fd) hg
    · split
      · exact cites_onRecv v hg
      · trivial

theorem cites_chatTask : Cites D E G (chatTask P.js) fun _ => True := by
  have htake : Cites D E G resolveTimestamps fun _ => True :=
    .bind (cites_ask (a := .popMq) trivial) fun q _ =>
      .forEach fun i _ => cites_ask (a := .emplaceCurMsg i.2.timestamp i.1 i.2) trivial
  have hsend (b : Bytes) : ∀ l : List Fd, (∀ n ∈ l, G n) →
      Cites D E G (broadcast b l) fun failed => ∀ n ∈ failed, G n := by
    intro l
    induction l with
    | nil => exact fun hl => hl
    | cons n ns ih =>
      intro hl
      have hone : Cites D E G (Prog.handle ((sendFrame n b).bind fun _ => pure []) fun _ => pure [n])
          fun failed => ∀ m ∈ failed, G m :=
        .handle (.bind (cites_sendFrame b) fun _ _ m hm => absurd hm (by simp)) fun _ m hm => by
          rw [List.mem_singleton.mp hm]
          exact hl n List.mem_cons_self
      refine .bind hone fun failed hf => .bind (ih fun m hm => hl m (List.mem_cons_of_mem _ hm))
        fun rest hr => ?_
      intro m hm
      exact (List.mem_append.mp hm).elim (hf m) (hr m)
  refine .bind htake fun _ _ => .bind (cites_ask (a := .getCurMsgs) trivial) fun cur _ => ?_
  split
  · trivial
  · exact .bind (cites_ask (a := .getClients) trivial) fun l hl => .bind (hsend _ l hl) fun failed hf =>
      .forEach fun n hn => cites_ask (a := .insertDeletion n) (hf n hn)

/-! ### Tasks -/

theorem cites_checkLobby : Cites D E G checkLobby fun _ => True := by
  refine .bind (cites_ask (a := .steadyNow) trivial) fun now _ =>
    .bind (cites_ask (a := .getLastAct) trivial) fun acts hacts => ?_
  refine .bind (.forEach fun p hp => ?_) fun _ _ => cites_ask (a := .assignLastAct _) fun p hp => ?_
  · split
    · trivial
    · exact cites_ask (a := .insertDeletion p.1) (hacts p hp)
  · exact hacts p (List.mem_filter.mp hp).1

theorem cites_checkChannels : Cites D E G checkChannels fun _ => True := by
  refine .bind (cites_ask (a := .systemNow) trivial) fun now _ =>
    .bind (cites_ask (a := .channelIds) trivial) fun ids _ => .forEach fun c _ =>
      .bind (cites_ask (a := .loadStop c) trivial) fun b _ => ?_
  cases b with
  | false => trivial
  | true =>
    refine .bind (cites_ask (a := .loadEmptySince c) trivial) fun e _ => ?_
    have hdelete : Cites D E G (deleteChannel c) fun _ => True := by
      refine .bind (cites_ask (a := .storeStop c true) trivial) fun _ _ =>
        .bind (cites_ask (a := .joinable c) trivial) fun b _ => ?_
      cases b with
      | true => exact .bind (cites_ask (a := .joinWorker c) trivial) fun _ _ => cites_destroyServerBase
      | false => exact cites_destroyServerBase
    split
    · exact .bind hdelete fun _ _ => cites_ask (a := .eraseChannel c) trivial
    · trivial

theorem cites_housekeeping : Cites D E G housekeeping fun _ => True := by
  refine .bind (cites_ask (a := .systemNow) trivial) fun now _ =>
    .bind (cites_ask (a := .loadThrottle) trivial) fun last _ => ?_
  split
  · trivial
  · exact .bind (cites_ask (a := .storeThrottle now) trivial) fun _ _ => .bind cites_checkLobby fun _ _ =>
      cites_checkChannels

theorem cites_lobbyResolveDeletion : Cites D E G lobbyResolveDeletion fun _ => True := by
  refine .bind (cites_ask (a := .getDeletion) trivial) fun l _ => .bind (.forEach fun n _ => ?_)
    fun _ _ => cites_ask (a := .setCursor none) trivial
  refine .bind (cites_ask (a := .setCursor (some n)) trivial) fun _ _ => .bind (Q := fun _ => True) ?_
    fun b _ => ?_
  · exact .handle (.bind (.of_all (all_trackerDelete trivial)) fun _ _ => trivial) fun _ => trivial
  · cases b with
    | false => trivial
    | true =>
      exact .bind (cites_ask (a := .removeUserName n) trivial) fun _ _ =>
        .bind (cites_ask (a := .close n) trivial) fun _ _ => cites_ask (a := .clearBuffer n) trivial

theorem cites_resolvePool : Cites D E G (resolvePool c) fun _ => True := by
  refine .bind (cites_ask (a := .lockPool c) trivial) fun _ _ => .bind (.handle (.of_all
    ((poolCall_resolvePoolBody c).mono fun a ha => ?_)) fun _ =>
      .bind (cites_ask (a := .unlockPool c) trivial) fun _ _ => trivial) fun _ _ =>
        cites_ask (a := .unlockPool c) trivial
  cases a <;> first | exact trivial | exact ha.elim

theorem cites_runTask (v : Srv) (x : Task) : Cites D E G (runTask P v x) fun _ => True := by
  cases x with
  | clearDeletion => exact cites_ask (a := .clearDeletion) trivial
  | polling =>
    refine .bind (cites_ask (a := .epollWait) trivial) fun o _ => ?_
    cases o <;> trivial
  | handleEvents =>
    exact .bind (cites_ask (a := .getEv) trivial) fun evs hevs =>
      .forEach fun ev hev => cites_handleEvents v (hevs ev hev)
  | resolveDeletion =>
    cases v with
    | lobby => exact cites_lobbyResolveDeletion
    | chan c =>
      refine .of_all ((deletionCall_resolveDeletion c).mono fun a ha => ?_)
      cases a <;> first | exact trivial | exact ha.elim
  | clearCurMsgs => exact cites_ask (a := .clearCurMsgs) trivial
  | chat => exact cites_chatTask
  | resolvePool => exact cites_resolvePool
  | consumeReport =>
    exact .bind (cites_ask (a := .popReports) trivial) fun k _ => .handle (cites_consumeLoop k) fun _ =>
      .bind (cites_ask (a := .dropReports) trivial) fun _ _ => trivial
  | housekeeping => exact cites_housekeeping

theorem cites_proc : ∀ v, Cites D E G (proc P v) fun _ => True := by
  have hrun (v : Srv) : Cites D E G (run P v) fun _ => True :=
    .bind (cites_ask (a := .beginRun) trivial) fun l _ =>
      .bind (.handle (.forEach fun _ _ => .forEach fun x _ => cites_runTask v x) fun _ =>
        .bind (cites_ask (a := .endRun) trivial) fun _ _ => trivial) fun _ _ =>
          cites_ask (a := .endRun) trivial
  intro v
  cases v with
  | lobby =>
    refine .bind (cites_ask (a := .loadRunning) trivial) fun b _ => ?_
    cases b with
    | false => trivial
    | true => exact .handle (hrun .lobby) fun _ => trivial
  | chan c =>
    refine .bind (cites_ask (a := .loadStop c) trivial) fun b _ => ?_
    cases b with
    | true => exact cites_ask (a := .exitThread) trivial
    | false => exact .handle (hrun (.chan c)) fun _ => trivial

end

/-! ## The numbers a state has -/

/-- The numbers of events are in `E`, and every other number that a server has is in `G`. -/
structure Possesses (E G : Fd → Prop) (s : St) : Prop where
  events : ∀ v, ∀ ev ∈ (s.base v).events, E ev.fd
  clients : ∀ v, ∀ n ∈ (s.base v).clients, G n
  nextDeletion : ∀ v, ∀ n ∈ (s.base v).nextDeletion, G n
  remaining : ∀ v l, (s.base v).aux.remaining = some l → ∀ n ∈ l, G n
  cursor : ∀ v n st, (s.base v).aux.cursor = some (n, st) → G n
  arrived : ∀ v n, (s.base v).aux.arrived = some n → G n
  source : ∀ v n k, (s.base v).aux.source = some (n, k) → G n
  reports : ∀ q ∈ underWay s, G q.from'
  joinPool : ∀ c, ∀ n ∈ keys (s.chan c).joinPool, G n
  joining : ∀ c, ∀ n ∈ (s.chan c).joining, G n
  lastAct : ∀ p ∈ s.lobby.lastAct, G p.1

theorem possesses_init (P : Params) (E G : Fd → Prop) : Possesses E G (init P) where
  events := fun v => by cases v <;> simp [init, Base.fresh]
  clients := fun v => by cases v <;> simp [init, Base.fresh]
  nextDeletion := fun v => by cases v <;> simp [init, Base.fresh]
  remaining := fun v => by cases v <;> simp [init, Base.fresh, Aux.fresh]
  cursor := fun v => by cases v <;> simp [init, Base.fresh, Aux.fresh]
  arrived := fun v => by cases v <;> simp [init, Base.fresh, Aux.fresh]
  source := fun v => by cases v <;> simp [init, Base.fresh, Aux.fresh]
  reports := by simp [underWay, init]
  joinPool := fun c => by simp [init, Chan.fresh]
  joining := fun c => by simp [init, Chan.fresh]
  lastAct := by simp [init]

namespace Possesses

variable {P : Params} {t : Srv} {a : Act} {r : Res a} {s s' : St} {D : Prop} {E G : Fd → Prop}

/-- What is added to a tracker has arrived, or was in the pool. -/
theorem added (hi : Possesses E G s) {n : Fd} (hp : Pre P t (.addClient n) s) : G n := by
  cases t with
  | lobby => exact hi.arrived _ _ hp.1
  | chan d => exact hi.joining d _ hp.2.2.1

/-- One call: what is free or a connection is in `G`, and what epoll watches is in `E`. -/
theorem step (hi : Possesses E G s) (hfree : ∀ n, s.file n = none → G n)
    (hconn : ∀ n k, s.file n = some (.conn k) → G n) (hevent : ∀ v, ∀ n ∈ s.registered v, E n)
    (hp : Pre P t a s) (ha : Arguments D G a) (hx : exec t a r s = some s') : Possesses E G s' where
  events := by
    intro v ev hev
    rw [exec_events hx] at hev
    cases a
    case epollWait =>
      cases r with
      | none => exact hi.events v ev hev
      | some evs =>
        simp only [After.events] at hev
        split at hev
        · exact hevent t _ ((need_eq_some.mp hx).1.2.2.2 ev hev)
        · exact hi.events v ev hev
    case newTracker | dropTracker =>
      simp only [After.events] at hev
      split at hev
      · simp at hev
      · exact hi.events v ev hev
    all_goals exact hi.events v ev hev
  clients := by
    intro v n hn
    rw [exec_clients hx] at hn
    cases a
    case addClient m =>
      simp only [After.clients] at hn
      split at hn
      · split at hn
        · rcases Finset.mem_insert.mp hn with rfl | hn
          · exact hi.added hp
          · exact hi.clients v n hn
        · exact hi.clients v n hn
      · exact hi.clients v n hn
    case deleteClient m =>
      simp only [After.clients] at hn
      split at hn
      · split at hn
        · exact hi.clients v n (Finset.mem_of_mem_erase hn)
        · exact hi.clients v n hn
      · exact hi.clients v n hn
    case newTracker | dropTracker =>
      simp only [After.clients] at hn
      split at hn
      · simp at hn
      · exact hi.clients v n hn
    all_goals exact hi.clients v n hn
  nextDeletion := by
    intro v n hn
    rw [exec_nextDeletion hx] at hn
    cases a
    case insertDeletion m =>
      simp only [After.nextDeletion] at hn
      split at hn
      · rcases Finset.mem_insert.mp hn with rfl | hn
        · exact ha
        · exact hi.nextDeletion v n hn
      · exact hi.nextDeletion v n hn
    case insertDeletionAt c m =>
      simp only [After.nextDeletion] at hn
      split at hn
      · rcases Finset.mem_insert.mp hn with rfl | hn
        · cases t with
          | lobby =>
            obtain ⟨q, hq, rfl, -⟩ := hp
            exact hi.reports q (mem_underWay.mpr (.inr (.inr hq)))
          | chan d => exact hp.2.elim
        · exact hi.nextDeletion v n hn
      · exact hi.nextDeletion v n hn
    case clearDeletion | newTracker | dropTracker =>
      simp only [After.nextDeletion] at hn
      split at hn
      · simp at hn
      · exact hi.nextDeletion v n hn
    all_goals exact hi.nextDeletion v n hn
  remaining := by
    intro v l hl n hn
    rw [exec_remaining hx] at hl
    cases a
    case getDeletion =>
      simp only [After.remaining] at hl
      split at hl
      · cases hl
        have hset : l.toFinset = (s.base t).nextDeletion := (need_eq_some.mp hx).1.2
        exact hi.nextDeletion t n (by simpa [← hset] using hn)
      · exact hi.remaining v l hl n hn
    case setCursor o =>
      simp only [After.remaining] at hl
      split at hl
      · cases o with
        | none => exact hi.remaining v l hl n hn
        | some m =>
          obtain ⟨l', hl', rfl⟩ := Option.map_eq_some_iff.mp hl
          exact hi.remaining v l' hl' n (List.mem_of_mem_erase hn)
      · exact hi.remaining v l hl n hn
    case clearDeletion | newTracker | dropTracker =>
      simp only [After.remaining] at hl
      split at hl
      · cases hl
      · exact hi.remaining v l hl n hn
    all_goals exact hi.remaining v l hl n hn
  cursor := by
    intro v n st hc
    rw [exec_cursor hx] at hc
    cases a
    case setCursor o =>
      simp only [After.cursor] at hc
      split at hc
      · rename_i hv
        subst hv
        cases o with
        | none => cases hc
        | some m =>
          cases hc
          have hmem : ∃ l, (s.base v).aux.remaining = some l ∧ n ∈ l := by
            cases v with
            | lobby => exact hp.2.2 n rfl
            | chan d => exact hp.2.2.2 n rfl
          obtain ⟨l, hl, hn⟩ := hmem
          exact hi.remaining v l hl n hn
      · exact hi.cursor v n st hc
    case deleteClient m =>
      simp only [After.cursor] at hc
      split at hc
      · split at hc
        · rename_i h
          cases hc
          exact hi.cursor _ _ _ h.1
        · exact hi.cursor v n st hc
      · exact hi.cursor v n st hc
    case close m =>
      simp only [After.cursor] at hc
      split at hc
      · split at hc
        · rename_i h
          cases hc
          exact hi.cursor _ _ _ h
        · exact hi.cursor v n st hc
      · exact hi.cursor v n st hc
    case clearBuffer m =>
      simp only [After.cursor] at hc
      split at hc
      · split at hc
        · cases hc
        · exact hi.cursor v n st hc
      · exact hi.cursor v n st hc
    case newTracker | dropTracker =>
      simp only [After.cursor] at hc
      split at hc
      · cases hc
      · exact hi.cursor v n st hc
    all_goals exact hi.cursor v n st hc
  arrived := by
    intro v n hn
    rw [exec_arrived hx] at hn
    cases a
    case accept =>
      cases r with
      | none => exact hi.arrived v n hn
      | some m =>
        simp only [After.arrived] at hn
        split at hn
        · cases hn
          exact hfree _ (need_eq_some.mp hx).1.2.2
        · exact hi.arrived v n hn
    case addClient m =>
      simp only [After.arrived] at hn
      split at hn
      · split at hn
        · cases hn
        · exact hi.arrived v n hn
      · exact hi.arrived v n hn
    case newTracker | dropTracker =>
      simp only [After.arrived] at hn
      split at hn
      · cases hn
      · exact hi.arrived v n hn
    all_goals exact hi.arrived v n hn
  source := by
    intro v n k hn
    rw [exec_source hx] at hn
    have hfrom {m : Fd} (h : (File.conn? (s.file m)).map (fun k => (m, k)) = some (n, k)) : G n := by
      obtain ⟨k', hk, he⟩ := Option.map_eq_some_iff.mp h
      cases he
      exact hconn _ _ (conn?_eq_some.mp hk)
    cases a
    case recv m =>
      cases r with
      | chunk | again =>
        simp only [After.source] at hn
        split at hn
        · exact hfrom hn
        · exact hi.source v n k hn
      | fin | error => exact hi.source v n k hn
    case endRecv | newTracker | dropTracker =>
      simp only [After.source] at hn
      split at hn
      · cases hn
      · exact hi.source v n k hn
    all_goals exact hi.source v n k hn
  reports := by
    intro q hq
    rcases underWay_before hx hq with hq | ⟨p, rfl, -⟩
    · exact hi.reports q hq
    · cases t with
      | lobby => exact hp.elim
      | chan d =>
        obtain ⟨-, ⟨k, hk⟩, -⟩ := hp
        exact hi.source _ _ _ hk
  joinPool := by
    intro c n hn
    rw [exec_joinPool hx] at hn
    cases a
    case emplaceJoin d m x =>
      simp only [After.joinPool] at hn
      split at hn
      · rcases mem_keys_emplace.mp hn with rfl | hn
        · cases t with
          | lobby =>
            obtain ⟨-, -, -, -, -, -, hreq, hsrc⟩ := hp
            cases hq : s.lobby.req with
            | none =>
              obtain ⟨k, hk⟩ := hsrc hq
              exact hi.source _ _ _ hk
            | some q =>
              rw [← (hreq q hq).1]
              exact hi.reports q (mem_underWay.mpr (.inr (.inr hq)))
          | chan e => exact hp.2.elim
        · exact hi.joinPool c n hn
      · exact hi.joinPool c n hn
    case takeJoinPool | newTracker | dropTracker =>
      simp only [After.joinPool] at hn
      split at hn
      · simp at hn
      · exact hi.joinPool c n hn
    all_goals exact hi.joinPool c n hn
  joining := by
    intro c n hn
    rw [exec_joining hx] at hn
    cases a
    case takeJoinPool =>
      simp only [After.joining] at hn
      split at hn
      · have hperm : r.Perm (s.chan (own t)).joinPool := (need_eq_some.mp hx).1
        exact hi.joinPool _ n ((keys_perm hperm).mem_iff.mp hn)
      · exact hi.joining c n hn
    case addClient m =>
      simp only [After.joining] at hn
      split at hn
      · split at hn
        · exact hi.joining c n hn
        · exact hi.joining c n (List.mem_of_mem_erase hn)
      · exact hi.joining c n hn
    case newTracker | dropTracker =>
      simp only [After.joining] at hn
      split at hn
      · simp at hn
      · exact hi.joining c n hn
    all_goals exact hi.joining c n hn
  lastAct := by
    intro p hp'
    rw [exec_lobby hx] at hp'
    cases a
    case setLastAct m x =>
      rcases List.mem_append.mp hp' with h | h
      · exact hi.lastAct p (List.mem_filter.mp h).1
      · rw [List.mem_singleton.mp h]
        exact ha
    case eraseLastAct m => exact hi.lastAct p (List.mem_filter.mp hp').1
    case assignLastAct l => exact ha p hp'
    all_goals exact hi.lastAct p hp'


/-- The answers are as expected. -/
theorem answers (hi : Possesses E G s) (hfree : ∀ n, s.file n = none → G n)
    (hlisten : ∀ n, n ≠ s.listenFd → E n → G n) (hD : ∀ c, a = .getEfd c → D)
    (hx : exec t a r s = some s') : Answers D E G a r := by
  cases a
  case isListener n =>
    have hr : r = decide (n = s.listenFd) := (need_eq_some.mp hx).1
    intro hf
    rw [hr] at hf
    exact hlisten n (of_decide_eq_false hf)
  case getEv =>
    have hr : r = (s.base t).events := (need_eq_some.mp hx).1
    intro ev hev
    exact hi.events t ev (hr ▸ hev)
  case accept =>
    intro n hn
    subst hn
    exact hfree n (need_eq_some.mp hx).1.2.2
  case getClients =>
    have hr : List.toFinset (r : List Fd) = (s.base t).clients := (need_eq_some.mp hx).1.2
    intro n hn
    exact hi.clients t n (by simpa [← hr] using hn)
  case getLastAct =>
    have hr : List.Perm r s.lobby.lastAct := (need_eq_some.mp hx).1
    intro p hp
    exact hi.lastAct p (hr.mem_iff.mp hp)
  case getEfd c => exact hD c rfl
  all_goals trivial

end Possesses

end ChatChannel
