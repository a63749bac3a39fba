import ChatChannel.Proof.Moving
import ChatChannel.Proof.Reply

/-!
# The lobby's thread

The programs of the lobby's thread respect their preconditions: the consumption of reports, the
requests in frames, the admission of connections, deletions and housekeeping, and the loop.
-/

set_option autoImplicit false

namespace ChatChannel

open Conc

section

variable {P : Params} {c : ChId} {n : Fd} {a : Act} {s s' : St} {F : St → Prop}
  {E : Err → St → Prop} {φ : Ctx → Prop}

/-! ## Calls that the lobby's knowledge does not depend on -/

/-- Calls that change nothing the lobby's thread keeps track of. -/
def Mute : Act → Prop
  | .epollWait | .send _ _ | .getEv | .getClients | .getClientCount | .isListener _
  | .insertDeletion _ | .beginRun | .endRun | .loadRunning | .systemNow | .steadyNow
  | .deleteJoinReq _ | .setLastAct _ _ | .eraseLastAct _ | .getLastAct | .assignLastAct _
  | .loadThrottle | .storeThrottle _ | .channelIds | .stall => True
  | _ => False

theorem Mute.talk (ha : Mute a) : Talk a := by
  cases a <;> first | exact trivial | exact ha.elim

theorem Mute.keeps {b : Option ChId} (ha : Mute a) : Keeps b a := by
  cases a <;> first | exact trivial | exact ha.elim

theorem Mute.pre (ha : Mute a) : LobbyPre P s a := by
  cases a <;> first | exact trivial | exact ha.elim

theorem Mute.site (ha : Mute a) {r : Res a} (h : exec .lobby a r s = some s') :
    site c s' = site c s := by
  rw [site_exec h]
  cases a <;> first | rfl | exact ha.elim

theorem framed_lob {b : Option ChId} {ψ : Site → Prop} (hF : Framed P Mute F) :
    Framed P Mute (Lob b c ψ F) where
  stable := lob_stable ψ hF.stable
  keep := by
    intro a r s s' ha hw hp h hs
    refine ⟨hs.house.keep ha.keeps h, ?_, hF.keep ha hw hp h hs.frame⟩
    rw [ha.site h]
    exact hs.here

theorem framed_at (hF : Framed P Mute F) : Framed P Mute (At F) where
  stable := at_stable hF.stable
  keep := fun ha hw hp h hs => ⟨hs.1.keep ha.keeps h, hF.keep ha hw hp h hs.2⟩

theorem framed_moved (c : ChId) : Framed P Mute (Moved c) where
  stable := moved_stable c
  keep := by
    intro a r s s' ha _ _ h hs
    have hmtx : (s'.chan c).mtx = (s.chan c).mtx := by
      rw [exec_mtx h]
      cases a <;> first | rfl | exact ha.elim
    have hun : (s'.chan c).unpublished = (s.chan c).unpublished := by
      rw [exec_unpublished h]
      cases a <;> first | rfl | exact ha.elim
    have hpl : (s'.base .lobby).aux.placed = (s.base .lobby).aux.placed := by
      rw [exec_placed h]
      cases a <;> first | rfl | exact ha.elim
    refine ⟨hmtx.trans hs.held, fun n hn => ?_⟩
    rw [hun] at hn
    rw [hpl, exec_log h]
    exact (hs.entries n hn).imp id fun ⟨d, hd⟩ => ⟨d, List.mem_append_left _ hd⟩

/-- Programs of such calls keep what the lobby knows. -/
theorem mute_keep {α : Type} {p : Code α} (hF : Framed P Mute F) (hp : p.All Mute) :
    (discipline P).Triple .lobby F p (fun _ => F) (fun _ => F) :=
  .keep hF.stable hp (fun _ _ ha _ _ => ha.pre) fun _ _ _ _ ha hw hs h _ =>
    hF.keep ha hw ha.pre h hs

/-- One such call, with what its answer says. -/
theorem mute_call (hF : Framed P Mute F) (ha : Mute a) :
    (discipline P).Triple .lobby F (call a) (fun _ => F) E :=
  .perform hF.stable (fun _ _ _ => ha.pre) (fun _ _ _ hw hs h _ => hF.keep ha hw ha.pre h hs)
    fun _ => hF.stable

theorem mute_ctx (φ : Ctx → Prop) : Framed P Mute fun s => φ (ctx s) :=
  (framed_ctx φ).mono fun _ h => h.talk

/-- The members of `Ctx` after a call. -/
theorem ctx_exec {r : Res a} (h : exec .lobby a r s = some s') : ctx s' =
    { remaining := After.remaining .lobby s .lobby a r
      arrived := After.arrived .lobby s .lobby a r
      source := After.source .lobby s .lobby a r
      batch := After.batch .lobby s .lobby a r
      current := After.current .lobby s .lobby a r
      localQ := (After.lobby .lobby s a r).localQ
      req := (After.lobby .lobby s a r).req } := by
  unfold ctx
  rw [exec_remaining h, exec_arrived h, exec_source h, exec_batch h, exec_current h, exec_lobby h]

/-- The lobby between two operations on the map, with `φ` of what it is in the middle of. -/
def In (φ : Ctx → Prop) : St → Prop := At fun s => φ (ctx s)

theorem in_stable (φ : Ctx → Prop) : (discipline P).Stable .lobby (In φ) :=
  at_stable (ctx_stable φ)

theorem framed_in (φ : Ctx → Prop) : Framed P Mute (In φ) := framed_at (mute_ctx φ)

theorem In.mono {φ ψ : Ctx → Prop} (hs : In φ s) (h : ∀ x, φ x → ψ x) : In ψ s :=
  ⟨hs.1, h _ hs.2⟩

/-- A call that changes what the lobby's thread is in the middle of, but nothing of the house. -/
theorem In.act {ψ : Res a → Ctx → Prop} (hk : Keeps none a)
    (hpre : ∀ s, House none s → φ (ctx s) → LobbyPre P s a)
    (hstep : ∀ r s s', φ (ctx s) → exec .lobby a r s = some s' → ψ r (ctx s')) :
    (discipline P).Triple .lobby (In φ) (call a) (fun r => In (ψ r)) E :=
  .perform (in_stable φ) (fun s _ hs => hpre s hs.1 hs.2)
    (fun r s s' _ hs h _ => ⟨hs.1.keep hk h, hstep r s s' hs.2 h⟩) fun r => in_stable (ψ r)

theorem In.ret {α : Type} {x : α} {ψ : α → Ctx → Prop} (h : ∀ v, φ v → ψ x v) :
    (discipline P).Triple .lobby (In φ) (.ret x) (fun y => In (ψ y)) E :=
  .ret (in_stable φ) fun _ _ hs => hs.mono h

theorem In.raise {α : Type} {e : Err} {ψ : Err → Ctx → Prop} {Q : α → St → Prop}
    (h : ∀ v, φ v → ψ e v) :
    (discipline P).Triple .lobby (In φ) (.raise e) Q (fun e => In (ψ e)) :=
  .raise (in_stable φ) fun _ _ hs => hs.mono h

/-! ## Between two tasks -/

/-- The lobby is not in the middle of anything. -/
structure Idle (x : Ctx) : Prop where
  source : x.source = none
  batch : x.batch = []
  localQ : x.localQ = []
  req : x.req = none

/-- The same, before the deletions of the tick. -/
structure Waiting (x : Ctx) : Prop where
  idle : Idle x
  remaining : x.remaining = none

/-! ## Reports -/

/-- In `consume_report`, with `k` reports left. -/
structure Consuming (k : Nat) (x : Ctx) : Prop where
  source : x.source = none
  batch : x.batch = []
  remaining : x.remaining = none
  localQ : x.localQ.length = k

/-- At the report `r`, with `k` left behind it. -/
structure Answering (r : ChannelReport) (k : Nat) (x : Ctx) : Prop where
  consuming : Consuming k x
  req : x.req = some r

theorem lobby_consumeOne (r : ChannelReport) (k : Nat) : (discipline P).Triple .lobby
    (In (Answering r k)) (consumeOne P r) (fun _ => In (Answering r k))
    (fun _ => In (Answering r k)) := by
  have hF := framed_ctx (P := P) (Answering r k)
  have hM := hF.mono fun _ h => Manage.talk h
  refine .bind (.post (lobby_getChannel hM) (fun _ _ _ hs => hs.at id) fun _ _ _ h => h)
    fun _ => .bind (lobby_getChannel hM) fun _ => .bind (lobby_lock hM) fun _ =>
      .bind (lobby_ping hM) fun b => ?_
  cases b with
  | true =>
    refine .pre (A := Lob none r.join.chTo (Locked r.join.chTo) fun s =>
      Answering r k (ctx s) ∧ Reserved r.join.chTo s) ?_
      fun s _ hs => hs.mono (fun _ h => h) fun h => ⟨h.1, h.2 rfl⟩
    have hent : ∀ s, Answering r k (ctx s) → Entitled r.from' r.join.chTo (ctx s) := by
      intro s hx
      refine ⟨fun r' hr' => ?_, fun hn => ?_⟩
      · rw [hx.req] at hr'
        cases hr'
        exact ⟨rfl, rfl⟩
      · rw [hx.req] at hn
        cases hn
    have hrep : ∀ s, Answering r k (ctx s) →
        Reported r.from' r.join.chTo r.join.chFrom (ctx s) :=
      fun s hx => ⟨r, hx.req, rfl, rfl, rfl⟩
    exact .bind (lobby_joinAndLogging hF hent _ _) fun _ =>
      .bind (lobby_leaveAndLogging hF hrep _) fun _ => .bind (lobby_release hF) fun _ =>
        mute_call (framed_in _) trivial
  | false =>
    refine .pre (A := Lob none r.join.chTo (Locked r.join.chTo) fun s => Answering r k (ctx s)) ?_
      fun s _ hs => hs.mono (fun _ h => h) And.left
    exact .bind (.post (mute_keep (framed_lob (mute_ctx (Answering r k)))
      (all_sendFrame (fun _ => trivial) _)) (fun _ _ _ h => h) fun _ _ _ hs => hs.at id)
      fun _ => lobby_unlock hM

/-- What taking the next report of `k` leaves. -/
def Taken (k : Nat) (r : Option ChannelReport) (x : Ctx) : Prop :=
  match r with
  | none => k = 0 ∧ Waiting x
  | some r => 0 < k ∧ Answering r (k - 1) x

theorem lobby_nextReport (k : Nat) : (discipline P).Triple .lobby (In (Consuming k))
    (call .nextReport) (fun r => In (Taken k r)) E := by
  refine In.act (a := .nextReport) trivial (fun _ _ _ => trivial) fun r s s' hx h => ?_
  have hr : r = s.lobby.localQ.head? := (need_eq_some.mp h).1
  have hlen : s.lobby.localQ.length = k := hx.localQ
  rw [ctx_exec h, hr]
  cases hq : s.lobby.localQ with
  | nil =>
    rw [hq] at hr hlen
    exact ⟨hlen.symm, ⟨hx.source, hx.batch, by simp [After.lobby, hq], rfl⟩, hx.remaining⟩
  | cons q qs =>
    rw [hq] at hr hlen
    simp only [List.length_cons] at hlen
    refine ⟨by omega, ⟨hx.source, hx.batch, hx.remaining, ?_⟩, rfl⟩
    simp only [After.lobby, hq, List.tail_cons]
    omega

theorem lobby_consumeLoop : ∀ k, (discipline P).Triple .lobby (In (Consuming k)) (consumeLoop P k)
    (fun _ => In Waiting) (fun _ => In fun x => ∃ j, Consuming j x)
  | 0 => by
    refine .bind (lobby_nextReport 0) fun r => ?_
    refine In.ret fun x hx => ?_
    cases r with
    | none => exact hx.2
    | some r => exact absurd hx.1 (lt_irrefl 0)
  | k + 1 => by
    refine .bind (lobby_nextReport (k + 1)) fun r => ?_
    cases r with
    | none => exact In.ret fun x hx => absurd hx.1 (Nat.succ_ne_zero k)
    | some r =>
      refine .pre (A := In (Answering r k)) ?_ fun s _ hs => hs.mono fun _ hx => hx.2
      exact .bind (.post (lobby_consumeOne r k) (fun _ _ _ hs => hs.mono fun _ hx => hx.consuming)
        fun _ _ _ hs => hs.mono fun _ hx => ⟨k, hx.consuming⟩) fun _ => lobby_consumeLoop k

theorem lobby_consumeReport : (discipline P).Triple .lobby (In Waiting) (consumeReport P)
    (fun _ => In Waiting) (fun _ => In Idle) := by
  refine .bind (Q := fun k => In (Consuming k)) ?_ fun k => ?_
  · refine In.act (a := .popReports) trivial
      (fun s _ hx => ⟨hx.idle.localQ, hx.idle.req⟩) fun k s s' hx h => ?_
    have hk : k = s.lobby.reports.length := (need_eq_some.mp h).1
    rw [ctx_exec h]
    exact ⟨hx.idle.source, hx.idle.batch, hx.remaining, hk.symm⟩
  · refine .handle (lobby_consumeLoop k) fun e => ?_
    refine .bind (Q := fun _ => In Idle) ?_ fun _ => In.raise fun _ h => h
    refine In.act (a := .dropReports) trivial (fun _ _ _ => trivial) ?_
    rintro r s s' ⟨j, hx⟩ h
    rw [ctx_exec h]
    exact ⟨hx.source, hx.batch, rfl, rfl⟩

/-! ## Frames -/

/-- In `on_recv` for `n`, with the frames `l` left. -/
structure Handling (n : Fd) (l : List Bytes) (x : Ctx) : Prop where
  source : ∃ k, x.source = some (n, k)
  batch : x.batch = l
  remaining : x.remaining = none
  localQ : x.localQ = []
  req : x.req = none

/-- At the frame `f`. -/
structure Serving (n : Fd) (f : Bytes) (l : List Bytes) (x : Ctx) : Prop where
  handling : Handling n l x
  current : x.current = some f

/-- At the end of `on_recv`: the frames are handled, or one that moves its client was given up. -/
structure Ending (P : Params) (x : Ctx) : Prop where
  remaining : x.remaining = none
  localQ : x.localQ = []
  req : x.req = none
  batch : x.batch = [] ∨ ∃ f, x.current = some f ∧ moves P .lobby f = true

/-- The request of a client to enter a channel, up to the release of the lock. -/
def Moving (n : Fd) (f : Bytes) (l : List Bytes) (s : St) : Prop :=
  Serving n f l (ctx s) ∧ Named n s

theorem framed_moving (n : Fd) (f : Bytes) (l : List Bytes) : Framed P Talk (Moving n f l) :=
  (framed_ctx (Serving n f l)).and (framed_named n)

theorem Serving.ending {f : Bytes} {l : List Bytes} {x : Ctx} (hx : Serving n f l x)
    (hf : moves P .lobby f = true) : Ending P x :=
  ⟨hx.handling.remaining, hx.handling.localQ, hx.handling.req, .inr ⟨f, hx.current, hf⟩⟩

theorem lobby_setUserName (f : Bytes) (l : List Bytes) (u : Bytes) : (discipline P).Triple .lobby
    (In (Serving n f l)) (call (.setUserName n u)) (fun _ => At (Moving n f l)) E := by
  refine .perform (in_stable _) (fun s _ hs => hs.2.handling.req) (fun r s s' hw hs h _ => ?_)
    fun _ => at_stable (framed_moving n f l).stable
  refine ⟨hs.1.keep (a := .setUserName n u) trivial h, ?_, .inl ?_⟩
  · rw [ctx_exec h]
    exact hs.2
  · rw [exec_names h]
    simp [After.names]

theorem lobby_takeOut {f : Bytes} {l : List Bytes} (hf : moves P .lobby f = true) :
    (discipline P).Triple .lobby (AfterJoin c n (Moving n f l)) (trackerDelete n)
      (fun _ => At fun s => Moving n f l s ∧ Moved c s) (fun _ => In (Ending P)) := by
  have hF := framed_moving (P := P) n f l
  have hpre : ∀ s, AfterJoin c n (Moving n f l) s → LobbyPre P s (.deleteClient n) := by
    rintro s (hs | hs)
    · obtain ⟨k, hk⟩ := hs.frame.1.handling.source
      exact .inr ⟨hs.house.cursor, hs.frame.1.handling.req, ⟨k, f, hk, hs.frame.1.current, hf⟩,
        .inl ⟨c, hs.here.placed_here⟩⟩
    · obtain ⟨k, hk⟩ := hs.frame.1.1.handling.source
      refine .inr ⟨hs.house.cursor, hs.frame.1.1.handling.req,
        ⟨k, f, hk, hs.frame.1.1.current, hf⟩, .inr ⟨hs.here.placed, ?_⟩⟩
      -- a client without a name is being closed
      rcases hs.frame.2 with hn | hsp
      · rcases hs.frame.1.2 with hnamed | hex
        · exact absurd hn hnamed
        · exact .inl hex
      · exact .inr hsp
  refine .bind (Q := fun b => At fun s => Moving n f l s ∧ (b = true → Moved c s)) ?_ fun b => ?_
  swap
  · have hst : (discipline P).Stable .lobby
        (At fun s => Moving n f l s ∧ (b = true → Moved c s)) :=
      at_stable (Outline.Stable.and hF.stable (Outline.Stable.imp (moved_stable c)))
    cases b
    · exact .raise hst fun s _ hs => ⟨hs.1, hs.2.1.1.ending hf⟩
    · exact .ret hst fun s _ hs => ⟨hs.1, hs.2.1, hs.2.2 rfl⟩
  refine .perform (afterJoin_stable hF.stable) (fun s _ hs => hpre s hs) ?_
    fun b => at_stable (Outline.Stable.and hF.stable (Outline.Stable.imp (moved_stable c)))
  intro b s s' hw hs h _
  have hmtx : (s'.chan c).mtx = (s.chan c).mtx := exec_mtx h c
  have hun : (s'.chan c).unpublished = (s.chan c).unpublished := exec_unpublished h c
  have hplaced := exec_placed h .lobby
  rcases hs with hs | hs
  · have hm := lobbyHolds_eq_true.mp hs.here.held
    have hu : (s.chan c).unpublished = {n} := by simpa [site, hm] using hs.here.unpublished
    have hp : (s.base .lobby).aux.placed = some (c, n, false) := hs.here.placed
    refine ⟨hs.house.keep (a := .deleteClient n) trivial h,
      hF.keep (a := .deleteClient n) trivial hw (hpre s (.inl hs)) h hs.frame, ?_⟩
    rintro rfl
    refine ⟨hmtx.trans hm, fun k hk => .inl ?_⟩
    rw [hun, hu, Finset.mem_singleton] at hk
    rw [hplaced, hk]
    simp [After.placed, hp]
  · have hm := lobbyHolds_eq_true.mp hs.here.held
    have hu : (s.chan c).unpublished = ∅ := by simpa [site, hm] using hs.here.unpublished
    refine ⟨hs.house.keep (a := .deleteClient n) trivial h,
      hF.keep (a := .deleteClient n) trivial hw (hpre s (.inr hs)) h hs.frame.1, ?_⟩
    rintro -
    refine ⟨hmtx.trans hm, fun k hk => ?_⟩
    rw [hun, hu] at hk
    exact absurd hk (Finset.notMem_empty k)

theorem lobby_onReq (f : Bytes) (l : List Bytes) {target : Bytes} {root : P.js.Json}
    (hreq : requestOf P.js f = some (target, root)) : (discipline P).Triple .lobby
    (In (Serving n f l)) (lobbyOnReq P n target root) (fun _ => In (Handling n l))
    (fun _ => In (Ending P)) := by
  unfold lobbyOnReq
  split
  swap
  · exact In.ret fun x hx => hx.handling
  rename_i hjoin
  cases hu : unpackLobbyJoin P.js root with
  | none => exact In.ret fun x hx => hx.handling
  | some q =>
    obtain ⟨channelId, timestamp, userName⟩ := q
    have hf : moves P .lobby f = true := by simp [moves, hreq, hjoin, hu]
    have hF := framed_moving (P := P) n f l
    have hM := hF.mono fun _ h => Manage.talk h
    refine .bind (lobby_setUserName f l userName) fun _ => ?_
    refine .bind (.post (lobby_findOrCreate hM channelId) (fun _ _ _ h => h)
      fun _ _ _ hs => ⟨hs.1, hs.2.1.ending hf⟩) fun d => ?_
    have hent : ∀ s, Moving n f l s → Entitled n d (ctx s) := by
      intro s hs
      refine ⟨fun r hr => ?_, fun _ => hs.1.handling.source⟩
      rw [hs.1.handling.req] at hr
      cases hr
    refine .bind (lobby_joinAndLogging hF hent _ _) fun _ => .bind (lobby_takeOut hf) fun _ => ?_
    refine .bind (Q := fun _ => At fun s => Moving n f l s ∧ Moved d s) ?_ fun _ => ?_
    · exact mute_call (framed_at ((hF.mono fun _ h => Mute.talk h).and (framed_moved d))) trivial
    · exact .post (B := fun _ => At (Moving n f l)) (lobby_release hF)
        (fun _ _ _ hs => ⟨hs.1, hs.2.1.handling⟩) fun _ _ _ h => h

theorem lobby_onFrame (f : Bytes) (l : List Bytes) : (discipline P).Triple .lobby
    (In (Handling n (f :: l))) (onFrame P .lobby n f) (fun _ => In (Handling n l))
    (fun _ => In (Ending P)) := by
  refine .bind (Q := fun _ => In (Serving n f l)) ?_ fun _ => ?_
  · refine In.act (a := .onFrame n f) trivial (fun s _ hx => ⟨hx.source, l, hx.batch⟩) ?_
    intro r s s' hx h
    have hb : (s.base .lobby).aux.batch = f :: l := hx.batch
    rw [ctx_exec h]
    exact ⟨⟨hx.source, by simp [After.batch, hb], hx.remaining, hx.localQ, hx.req⟩,
      by simp [After.current]⟩
  · cases hreq : requestOf P.js f with
    | none => exact In.ret fun x hx => hx.handling
    | some q => exact lobby_onReq f l hreq

/-! ## Reading from a client -/

/-- In `on_recv`, before the frames are decoded. -/
structure Taking (x : Ctx) : Prop where
  remaining : x.remaining = none
  localQ : x.localQ = []
  req : x.req = none
  batch : x.batch = []

theorem Taking.ending {x : Ctx} (hx : Taking x) : Ending P x :=
  ⟨hx.remaining, hx.localQ, hx.req, .inl hx.batch⟩

theorem Waiting.taking {x : Ctx} (hx : Waiting x) : Taking x :=
  ⟨hx.remaining, hx.idle.localQ, hx.idle.req, hx.idle.batch⟩

theorem Handling.taking {x : Ctx} (hx : Handling n [] x) : Taking x :=
  ⟨hx.remaining, hx.localQ, hx.req, hx.batch⟩

theorem recv_taking {r : RecvRes} (hx : Taking (ctx s))
    (h : exec .lobby (.recv n) r s = some s') : Taking (ctx s') := by
  rw [ctx_exec h]
  cases r <;> exact ⟨hx.remaining, hx.localQ, hx.req, hx.batch⟩

theorem recv_handling {r : RecvRes} (hx : Taking (ctx s))
    (h : exec .lobby (.recv n) r s = some s') (hr : r = .again ∨ ∃ b, r = .chunk b) :
    Handling n [] (ctx s') := by
  have hc : (File.conn? (s.file n)).isSome := by
    rcases hr with rfl | ⟨b, rfl⟩
    · exact (need_eq_some.mp h).1
    · exact (need_eq_some.mp h).1.1
  obtain ⟨k, hk⟩ := Option.isSome_iff_exists.mp hc
  have hsrc : (ctx s').source = some (n, k) := by
    rw [ctx_exec h]
    rcases hr with rfl | ⟨b, rfl⟩ <;> simp [After.source, hk]
  have hrest := recv_taking hx h
  exact ⟨⟨k, hsrc⟩, hrest.batch, hrest.remaining, hrest.localQ, hrest.req⟩

theorem lobby_recvLoop (n : Fd) : ∀ fuel : Nat, (discipline P).Triple .lobby (In Taking)
    (recvLoop n fuel) (fun _ => In (Handling n [])) (fun _ => In Taking)
  | 0 => In.act (a := .stall) trivial (fun _ _ _ => trivial) fun _ _ _ _ h => by cases h
  | fuel + 1 => by
    refine .bind (Q := fun r => In fun x => Taking x ∧
        ((r = .again ∨ ∃ b, r = .chunk b) → Handling n [] x)) ?_ fun r => ?_
    · exact In.act (a := .recv n) trivial (fun s hh _ => hh.cursor) fun r s s' hx h =>
        ⟨recv_taking hx h, recv_handling hx h⟩
    · cases r with
      | again => exact In.ret fun x hx => hx.2 (.inl rfl)
      | error => exact In.raise fun x hx => hx.1
      | fin => exact In.raise fun x hx => hx.1
      | chunk b =>
        simp only
        split
        · exact In.ret fun x hx => hx.2 (.inr ⟨b, rfl⟩)
        · exact .pre (lobby_recvLoop n fuel) fun s _ hs => hs.mono fun _ hx => hx.1

theorem lobby_recvFrame (n : Fd) : (discipline P).Triple .lobby (In Taking) (recvFrame P n)
    (fun l => In (Handling n l)) (fun _ => In Taking) := by
  refine .bind (lobby_recvLoop n P.maxReads) fun _ => ?_
  refine .bind (Q := fun r => In (Handling n (r.toOption.getD []))) ?_ fun r => ?_
  · refine In.act (a := .decode n) trivial (fun s hh hx => ⟨hh.cursor, hx.source⟩) ?_
    intro r s s' hx h
    rw [ctx_exec h]
    exact ⟨hx.source, by simp [After.batch], hx.remaining, hx.localQ, hx.req⟩
  · cases r with
    | ok l => exact In.ret fun x hx => hx
    | error e => exact In.raise fun x hx => hx.taking

theorem lobby_endRecv : (discipline P).Triple .lobby (In (Ending P)) (call .endRecv)
    (fun _ => In Waiting) E := by
  refine In.act (a := .endRecv) trivial (fun s _ hx => hx.batch) fun r s s' hx h => ?_
  rw [ctx_exec h]
  exact ⟨⟨by simp [After.source], by simp [After.batch], hx.localQ, hx.req⟩, hx.remaining⟩

theorem lobby_onRecv (n : Fd) : (discipline P).Triple .lobby (In Waiting) (onRecv P .lobby n)
    (fun _ => In Waiting) E := by
  refine .handle (E := fun _ => In (Ending P)) ?_ fun e => ?_
  · refine .bind (Q := fun l => In (Handling n l)) ?_ fun l => ?_
    · exact .conseq (lobby_recvFrame n) (fun s _ hs => hs.mono fun _ hx => hx.taking)
        (fun _ _ _ h => h) fun _ _ _ hs => hs.mono fun _ hx => hx.ending
    · refine .bind (.forEach (I := fun l => In (Handling n l)) (in_stable _)
        (fun f l => lobby_onFrame f l) l) fun _ => ?_
      exact .pre lobby_endRecv fun s _ hs => hs.mono fun _ hx => hx.taking.ending
  · exact .bind lobby_endRecv fun _ => mute_call (framed_in _) trivial

/-! ## Admission -/

theorem lobby_trackerAdd : (discipline P).Triple .lobby
    (In fun x => Waiting x ∧ x.arrived = some n) (trackerAdd n) (fun _ => In Waiting)
    (fun _ => In Waiting) := by
  refine .bind (Q := fun _ => In Waiting) ?_ fun r => ?_
  · refine In.act (a := .addClient n) trivial
      (fun s hh hx => ⟨hx.2, hx.1.remaining, hh.cursor⟩) fun r s s' hx h => ?_
    rw [ctx_exec h]
    exact ⟨⟨hx.1.idle.source, hx.1.idle.batch, hx.1.idle.localQ, hx.1.idle.req⟩,
      hx.1.remaining⟩
  · cases r with
    | ok => exact In.ret fun _ h => h
    | full => exact In.raise fun _ h => h
    | failed => exact In.raise fun _ h => h

theorem lobby_onAccept : (discipline P).Triple .lobby
    (In fun x => Waiting x ∧ x.arrived = some n) (lobbyOnAccept n) (fun _ => In Waiting)
    (fun _ => In Waiting) := by
  refine .handle (E := fun _ => In Waiting) ?_ fun e => ?_
  · refine .bind lobby_trackerAdd fun _ => .bind (Q := fun _ => In Waiting) ?_ fun _ =>
      .bind (mute_call (framed_in Waiting) trivial) fun now => mute_call (framed_in Waiting) trivial
    refine In.act (a := .setUserName n (tempName n)) trivial (fun s _ hx => hx.idle.req) ?_
    intro r s s' hx h
    rw [ctx_exec h]
    exact hx
  · have hlast : (discipline P).Triple .lobby (In Waiting) (call (.insertDeletion n))
        (fun _ => In Waiting) (fun _ => In Waiting) := mute_call (framed_in Waiting) trivial
    by_cases he : e = Err.poolFull
    · subst he
      exact .bind (mute_keep (framed_in Waiting) (all_sendFrame (fun _ => trivial) _))
        fun _ => hlast
    · rw [if_neg he]
      exact hlast

theorem lobby_handleEvents (ev : PollEv) : (discipline P).Triple .lobby (In Waiting)
    (handleEvents P .lobby ev) (fun _ => In Waiting) (fun _ => In Waiting) := by
  refine .bind (mute_call (framed_in Waiting) trivial) fun b => ?_
  cases b with
  | true =>
    refine .bind (Q := fun o => In fun x => Waiting x ∧ ∀ m, o = some m → x.arrived = some m) ?_
      fun o => ?_
    · refine In.act (a := .accept) trivial (fun _ _ _ => trivial) fun o s s' hx h => ?_
      rw [ctx_exec h]
      cases o with
      | none => exact ⟨hx, by simp⟩
      | some m =>
        exact ⟨⟨⟨hx.idle.source, hx.idle.batch, hx.idle.localQ, hx.idle.req⟩, hx.remaining⟩,
          by simp [After.arrived]⟩
    · cases o with
      | none => exact In.ret fun x hx => hx.1
      | some m => exact .pre lobby_onAccept fun s _ hs => hs.mono fun x hx => ⟨hx.1, hx.2 m rfl⟩
  | false =>
    simp only [Bool.false_eq_true, if_false]
    split
    · exact mute_call (framed_in Waiting) trivial
    · split
      · exact lobby_onRecv ev.fd
      · exact In.ret fun _ h => h

/-! ## Deletions -/

/-- In `resolve_deletion`, with `l` not visited yet. -/
structure Clearing (l : List Fd) (φ : Option (Fd × Stage) → Prop) (s : St) : Prop where
  rooms : Rooms none s
  idle : Idle (ctx s)
  remaining : (ctx s).remaining = some l
  cursor : φ (s.base .lobby).aux.cursor

/-- The last descriptor is done with, or was not deleted from the tracker. -/
def Passed (o : Option (Fd × Stage)) : Prop := ∀ n st, o = some (n, st) → st = .picked

theorem clearing_stable (l : List Fd) (φ : Option (Fd × Stage) → Prop) :
    (discipline P).Stable .lobby (Clearing l φ) :=
  fun hu hw hp h hw' hs => ⟨rooms_stable none hu hw hp h hw' hs.rooms,
    ctx_stable Idle hu hw hp h hw' hs.idle,
    ctx_stable (fun x => x.remaining = some l) hu hw hp h hw' hs.remaining,
    cursor_stable φ hu hw hp h hw' hs.cursor⟩

/-- One call on the descriptor at the cursor. -/
theorem Clearing.act {l l' : List Fd} {φ : Option (Fd × Stage) → Prop}
    {ψ : Res a → Option (Fd × Stage) → Prop} (hk : Keeps none a ∨ ∃ o, a = .setCursor o)
    (hpre : ∀ s, Clearing l φ s → LobbyPre P s a)
    (hidle : ∀ r s s', Clearing l φ s → exec .lobby a r s = some s' →
      Idle (ctx s') ∧ (ctx s').remaining = some l')
    (hcur : ∀ r s s', Clearing l φ s → exec .lobby a r s = some s' →
      ψ r (s'.base .lobby).aux.cursor) :
    (discipline P).Triple .lobby (Clearing l φ) (call a) (fun r => Clearing l' (ψ r)) E :=
  .perform (clearing_stable l φ) (fun s _ hs => hpre s hs)
    (fun r s s' _ hs h _ => ⟨hs.rooms.keep hk h, (hidle r s s' hs h).1, (hidle r s s' hs h).2,
      hcur r s s' hs h⟩) fun r => clearing_stable l' (ψ r)

/-- A call that leaves alone what `Idle` says. -/
theorem Clearing.idle_keep {l : List Fd} {φ : Option (Fd × Stage) → Prop}
    (hs : Clearing l φ s) (heq : ctx s' = ctx s) :
    Idle (ctx s') ∧ (ctx s').remaining = some l := by
  rw [heq]
  exact ⟨hs.idle, hs.remaining⟩

theorem lobby_deleteOne (n : Fd) (l : List Fd) : (discipline P).Triple .lobby
    (Clearing (n :: l) Passed) (do
      call (.setCursor (some n))
      let deleted ← tryCatch (do trackerDelete n; pure true) fun _ => pure false
      if deleted then
        call (.removeUserName n)
        call (.close n)
        call (.clearBuffer n)) (fun _ => Clearing l Passed) E := by
  refine .bind (Q := fun _ => Clearing l (· = some (n, .picked))) ?_ fun _ => ?_
  · refine Clearing.act (.inr ⟨_, rfl⟩) (fun s hs => ⟨hs.cursor, hs.idle.source, ?_⟩)
      (fun r s s' hs h => ?_) ?_
    · rintro m ⟨⟩
      exact ⟨_, hs.remaining, by simp⟩
    · have hr : (s.base .lobby).aux.remaining = some (n :: l) := hs.remaining
      rw [ctx_exec h]
      exact ⟨⟨hs.idle.source, hs.idle.batch, hs.idle.localQ, hs.idle.req⟩,
        by simp [After.remaining, hr]⟩
    · intro r s s' hs h
      rw [exec_cursor h]
      simp [After.cursor]
  refine .bind (Q := fun b => Clearing l (fun o => (b = true ∧ o = some (n, .doomed)) ∨
    (b = false ∧ o = some (n, .picked)))) ?_ fun b => ?_
  · refine .handle (E := fun _ => Clearing l (· = some (n, .picked))) ?_ fun _ => ?_
    swap
    · refine .ret (clearing_stable l _) fun s _ hs => ?_
      exact ⟨hs.rooms, hs.idle, hs.remaining, .inr ⟨rfl, hs.cursor⟩⟩
    refine .bind (Q := fun _ => Clearing l (· = some (n, .doomed))) ?_ fun _ => ?_
    swap
    · refine .ret (clearing_stable l _) fun s _ hs => ?_
      exact ⟨hs.rooms, hs.idle, hs.remaining, .inl ⟨rfl, hs.cursor⟩⟩
    refine .bind (Q := fun b => Clearing l (fun o => (b = true ∧ o = some (n, .doomed)) ∨
      (b = false ∧ o = some (n, .picked)))) ?_ fun b => ?_
    · refine Clearing.act (a := .deleteClient n) (.inl trivial) (fun s hs => .inl hs.cursor)
        (fun r s s' hs h => hs.idle_keep ?_) fun b s s' hs h => ?_
      · rw [ctx_exec h]
        rfl
      · have hcur : (s.base .lobby).aux.cursor = some (n, .picked) := hs.cursor
        rw [exec_cursor h]
        cases b <;> simp [After.cursor, hcur]
    · cases b
      · refine .raise (clearing_stable l _) fun s _ hs => ⟨hs.rooms, hs.idle, hs.remaining, ?_⟩
        exact hs.cursor.elim (fun h => absurd h.1 (by simp)) And.right
      · refine .ret (clearing_stable l _) fun s _ hs => ⟨hs.rooms, hs.idle, hs.remaining, ?_⟩
        exact hs.cursor.elim And.right fun h => absurd h.1 (by simp)
  cases b with
  | false =>
    refine .ret (clearing_stable l _) fun s _ hs => ⟨hs.rooms, hs.idle, hs.remaining, ?_⟩
    rcases hs.cursor with ⟨hb, -⟩ | ⟨-, hc⟩
    · exact absurd hb (by simp)
    · rw [hc]
      rintro m st ⟨⟩
      rfl
  | true =>
    refine .pre (A := Clearing l (· = some (n, .doomed))) ?_ fun s _ hs =>
      ⟨hs.rooms, hs.idle, hs.remaining, hs.cursor.elim And.right fun h => absurd h.1 (by simp)⟩
    refine .bind (Q := fun _ => Clearing l (· = some (n, .doomed))) ?_ fun _ =>
      .bind (Q := fun _ => Clearing l (· = some (n, .closed))) ?_ fun _ => ?_
    · refine Clearing.act (a := .removeUserName n) (.inl trivial) (fun s hs => hs.cursor)
        (fun r s s' hs h => hs.idle_keep ?_) fun b s s' hs h => ?_
      · rw [ctx_exec h]
        rfl
      · rw [exec_cursor h]
        exact hs.cursor
    · refine Clearing.act (a := .close n) (.inl trivial) (fun s hs => .inl hs.cursor)
        (fun r s s' hs h => hs.idle_keep ?_) fun b s s' hs h => ?_
      · rw [ctx_exec h]
        rfl
      · have hcur : (s.base .lobby).aux.cursor = some (n, .doomed) := hs.cursor
        rw [exec_cursor h]
        simp [After.cursor, hcur]
    · refine Clearing.act (a := .clearBuffer n) (.inl trivial) (fun s hs => hs.cursor)
        (fun r s s' hs h => hs.idle_keep ?_) fun b s s' hs h => ?_
      · rw [ctx_exec h]
        rfl
      · have hcur : (s.base .lobby).aux.cursor = some (n, .closed) := hs.cursor
        rw [exec_cursor h]
        simp [After.cursor, hcur, Passed]

theorem lobby_resolveDeletion : (discipline P).Triple .lobby (In Waiting) lobbyResolveDeletion
    (fun _ => In Idle) E := by
  refine .bind (Q := fun l => Clearing l Passed) ?_ fun l => ?_
  · refine .perform (in_stable _) (fun s _ hs => ⟨hs.2.remaining, hs.1.cursor⟩)
      (fun l s s' _ hs h _ => ?_) fun l => clearing_stable l _
    have hh := hs.1.keep (a := .getDeletion) trivial h
    refine ⟨hh.toRooms, ?_, ?_, ?_⟩
    · rw [ctx_exec h]
      exact ⟨hs.2.idle.source, hs.2.idle.batch, hs.2.idle.localQ, hs.2.idle.req⟩
    · rw [ctx_exec h]
      simp [After.remaining]
    · rw [hh.cursor]
      rintro m st ⟨⟩
  refine .bind (.forEach (I := fun l => Clearing l Passed) (clearing_stable [] _)
    (fun n l => lobby_deleteOne n l) l) fun _ => ?_
  refine .perform (clearing_stable [] _) (fun s _ hs => ⟨hs.cursor, hs.idle.source, by simp⟩)
    (fun r s s' _ hs h _ => ?_) fun _ => in_stable _
  refine ⟨⟨hs.rooms.keep (.inr ⟨none, rfl⟩) h, ?_⟩, ?_⟩
  · rw [exec_cursor h]
    simp [After.cursor]
  · have hctx := ctx_exec h
    exact ⟨by rw [hctx]; exact hs.idle.source, by rw [hctx]; exact hs.idle.batch,
      by rw [hctx]; exact hs.idle.localQ, by rw [hctx]; exact hs.idle.req⟩

/-! ## Housekeeping -/

theorem mute_checkLobby : checkLobby.All Mute := by
  refine .bind (.perform trivial) fun now => .bind (.perform trivial) fun acts =>
    .bind (.forEach (fun p => ?_) acts) fun _ => .perform trivial
  split
  · trivial
  · exact .perform trivial

theorem lobby_housekeeping : (discipline P).Triple .lobby (In Waiting) housekeeping
    (fun _ => In Waiting) (fun _ => In Waiting) := by
  refine .bind (mute_call (framed_in Waiting) trivial) fun now => ?_
  refine .bind (Q := fun _ => In Waiting) ?_ fun last => ?_
  · exact In.act (a := .loadThrottle) trivial (fun _ _ _ => trivial) fun r s s' hx h => by
      rw [ctx_exec h]
      exact hx
  split
  · exact In.ret fun _ h => h
  refine .bind (mute_call (framed_in Waiting) trivial) fun _ =>
    .bind (mute_keep (framed_in Waiting) mute_checkLobby) fun _ =>
    .bind (mute_call (framed_in Waiting) trivial) fun now' =>
    .bind (mute_call (framed_in Waiting) trivial) fun ids => ?_
  have hF := (framed_ctx (P := P) Waiting).mono fun _ h => Manage.talk h
  exact .forEach (I := fun _ => In Waiting) (in_stable _) (fun c _ => lobby_reap hF now') ids

/-! ## A tick, and the loop -/

theorem lobby_sessions : (discipline P).Triple .lobby (In Idle)
    (Prog.forEach (Prog.forEach (runTask P .lobby)) lobbyTasks) (fun _ => In Idle)
    (fun _ => In Idle) := by
  have hdone : ∀ s, In Waiting s → In Idle s := fun s hs => hs.mono fun _ hx => hx.idle
  have hclear : (discipline P).Triple .lobby (In Idle) (runTask P .lobby .clearDeletion)
      (fun _ => In Waiting) (fun _ => In Idle) := by
    refine In.act (a := .clearDeletion) trivial (fun s hh _ => hh.cursor) fun r s s' hx h => ?_
    rw [ctx_exec h]
    exact ⟨⟨hx.source, hx.batch, hx.localQ, hx.req⟩, by simp [After.remaining]⟩
  have hpoll : (discipline P).Triple .lobby (In Waiting) (runTask P .lobby .polling)
      (fun _ => In Waiting) (fun _ => In Idle) := by
    refine .bind (mute_call (framed_in Waiting) trivial) fun o => ?_
    cases o with
    | none => exact In.raise fun x hx => hx.idle
    | some evs => exact In.ret fun _ h => h
  have hevents : (discipline P).Triple .lobby (In Waiting) (runTask P .lobby .handleEvents)
      (fun _ => In Waiting) (fun _ => In Idle) := by
    refine .bind (mute_call (framed_in Waiting) trivial) fun evs => ?_
    exact .post (.forEach (I := fun _ => In Waiting) (in_stable _)
      (fun ev _ => lobby_handleEvents ev) evs) (fun _ _ _ h => h) fun _ s _ hs => hdone s hs
  have hhouse : (discipline P).Triple .lobby (In Waiting) (runTask P .lobby .housekeeping)
      (fun _ => In Waiting) (fun _ => In Idle) :=
    .post lobby_housekeeping (fun _ _ _ h => h) fun _ s _ hs => hdone s hs
  have hstep {p q : Code Unit} {A B C : St → Prop}
      (hp : (discipline P).Triple .lobby A p (fun _ => B) fun _ => In Idle)
      (hq : (discipline P).Triple .lobby B q (fun _ => C) fun _ => In Idle) :
      (discipline P).Triple .lobby A (p.bind fun _ => q) (fun _ => C) fun _ => In Idle :=
    .bind hp fun _ => hq
  have hend (ψ : Ctx → Prop) : (discipline P).Triple .lobby (In ψ) (.ret ()) (fun _ => In ψ)
      fun _ => In Idle := In.ret fun _ h => h
  exact hstep (hstep hclear (hstep lobby_consumeReport (hend _)))
    (hstep (hstep hpoll (hstep hevents (hend _)))
      (hstep (hstep hhouse (hstep lobby_resolveDeletion (hend _))) (hend _)))

theorem lobby_run : (discipline P).Triple .lobby (In Idle) (run P .lobby) (fun _ => In Idle)
    (fun _ => In Idle) := by
  refine .bind (Q := fun l s => l = lobbyTasks ∧ In Idle s) ?_ fun l => .pure ?_
  · refine .perform (in_stable _) (fun _ _ _ => trivial) ?_
      fun l => Outline.Stable.and Outline.Stable.const (in_stable _)
    intro l s s' hw hs h _
    have hl : l = (s.base .lobby).runner := (need_eq_some.mp h).1.1
    exact ⟨hl.trans hw.main, (framed_in (P := P) Idle).keep (a := .beginRun) trivial hw trivial h hs⟩
  · rintro rfl
    refine .bind (.handle lobby_sessions fun e => ?_) fun _ => mute_call (framed_in Idle) trivial
    exact .bind (mute_call (framed_in Idle) trivial) fun _ => In.raise fun _ h => h

/-- The lobby's loop assertion is that it is not in the middle of anything. -/
theorem lobby_proc : (discipline P).Triple .lobby (In Idle) (proc P .lobby) (fun _ => In Idle)
    fun _ _ => False := by
  refine .bind (mute_call (framed_in Idle) trivial) fun b => ?_
  cases b with
  | true => exact .handle lobby_run fun _ => In.ret fun _ h => h
  | false => exact In.ret fun _ h => h

end

end ChatChannel
