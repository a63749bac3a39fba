import ChatChannel.Proof.Management

/-!
# Taking a client into a pool

`Channel::join` and `Channel::leave` as the lobby calls them, under the lock of the channel the
client moves to: either the client is in that channel's pool afterwards, or it has no name, or the
channel could not get a thread.
-/

set_option autoImplicit false

namespace ChatChannel

open Conc

/-- The lobby is at a request of `n` to enter `c`: a report, or a frame of its own. -/
structure Entitled (n : Fd) (c : ChId) (x : Ctx) : Prop where
  report : ∀ r, x.req = some r → r.from' = n ∧ r.join.chTo = c
  frame : x.req = none → ∃ k, x.source = some (n, k)

/-- The client was put into the pool of the locked channel. -/
structure Joined (c : ChId) (n : Fd) (v : Site) : Prop where
  held : v.held = true
  placed : v.placed = some (c, n, false)
  pool : n ∈ v.pool
  unpublished : v.unpublished = {n}

/-- Nobody was. -/
structure Skipped (v : Site) : Prop where
  held : v.held = true
  placed : v.placed = none
  unpublished : v.unpublished = ∅

section

variable {P : Params} {c : ChId} {n : Fd} {a : Act} {s s' : St} {F : St → Prop}
  {E : Err → St → Prop}

theorem Locked.skipped {v : Site} (hv : Locked c v) : Skipped v :=
  ⟨hv.held, hv.placed, hv.unpublished⟩

theorem Joined.placed_here (hv : Joined c n (site c s)) : Placed c n s := by
  have hm := lobbyHolds_eq_true.mp hv.held
  have hpool := hv.pool
  simp only [site, hm, lobbyHolds_lobby, cond_true] at hpool
  exact ⟨hv.placed, hm, hpool⟩

/-! ## Starting a stopped channel -/

/-- The calls that restart a channel's thread. -/
def Restart : Act → Prop
  | .loadStop _ | .joinable _ | .joinWorker _ | .startWorker _ | .storeStop _ _
  | .storeEmptySince _ _ => True
  | _ => False

theorem Restart.talk (ha : Restart a) : Talk a := by
  cases a <;> first | exact trivial | exact ha.elim

/-- And the one that looks up a name before. -/
def Glance : Act → Prop
  | .getUserName _ => True
  | a => Restart a

theorem Glance.talk (ha : Glance a) : Talk a := by
  cases a <;> first | exact trivial | exact ha.elim

theorem Restart.glance (ha : Restart a) : Glance a := by
  cases a <;> first | exact trivial | exact ha.elim

theorem framed_reserved (c : ChId) : Framed P Glance (Reserved c) where
  stable := reserved_stable c
  keep := by
    rintro a r s s' ha _ _ h ⟨hm, hs⟩
    have hmtx : (s'.chan c).mtx = (s.chan c).mtx := by
      rw [exec_mtx h]
      cases a <;> first | rfl | exact ha.elim
    have hclients : (s'.base (.chan c)).clients = (s.base (.chan c)).clients := by
      rw [exec_clients h]
      cases a <;> first | rfl | exact ha.elim
    have hpool : (s'.chan c).joinPool = (s.chan c).joinPool := by
      rw [exec_joinPool h]
      cases a <;> first | rfl | exact ha.elim
    have hjoining : (s'.chan c).joining = (s.chan c).joining := by
      rw [exec_joining h]
      cases a <;> first | rfl | exact ha.elim
    have hmax : (s'.base (.chan c)).maxFd = (s.base (.chan c)).maxFd := by
      rw [exec_maxFd h]
      cases a <;> first | rfl | exact ha.elim
    refine ⟨hmtx.trans hm, hs.imp (fun hr => ?_) fun hh => ?_⟩
    · unfold Room
      rw [hclients, hpool, hmax]
      exact hr
    · exact ⟨hclients.trans hh.clients, hpool.trans hh.joinPool, hjoining.trans hh.joining⟩

/-- In `join`, before the entry is made. -/
structure Joining (c : ChId) (n : Fd) (v : Site) : Prop where
  locked : Locked c v
  known : v.known = some n
  runner : v.runner = channelTasks

theorem framed_spawnFailed (K : Act → Prop) : Framed P K SpawnFailed :=
  framed_log (fun l => ∃ c, LogEv.spawnFailed c true ∈ l)
    (fun _ _ ⟨c, hc⟩ => ⟨c, List.mem_append_left _ hc⟩) K

/-- The restart calls leave alone what `Joining` says. -/
theorem Joining.keep (hv : Joining c n (site c s)) (ha : Restart a) {r : Res a}
    (h : exec .lobby a r s = some s') : Joining c n (site c s') := by
  obtain ⟨⟨hmem, hheld, hplaced, hun⟩, hknown, hrun⟩ := hv
  rw [site_exec h]
  cases a <;> first | exact ha.elim | exact ⟨⟨hmem, hheld, hplaced, hun⟩, hknown, hrun⟩

theorem lobby_startWorker (hF : Framed P Talk F) : (discipline P).Triple .lobby
    (Lob (some c) c (fun v => Joining c n v ∧ v.absent = true) fun s => F s ∧ Reserved c s)
    (call (.startWorker c))
    (fun b => Lob (some c) c (Joining c n)
      fun s => (F s ∧ Reserved c s) ∧ (b = false → SpawnFailed s)) E := by
  have hG := ((hF.mono fun _ h => Glance.talk h).and (framed_reserved (P := P) c)).mono
    fun _ h => Restart.glance h
  have hpre : ∀ s, Lob (some c) c (fun v => Joining c n v ∧ v.absent = true)
      (fun s => F s ∧ Reserved c s) s → LobbyPre P s (.startWorker c) :=
    fun s hs => ⟨of_decide_eq_true hs.here.2, .inr hs.here.1.runner⟩
  refine .perform (lob_stable _ hG.stable) (fun s _ hs => hpre s hs) (fun b s s' hw hs h _ => ?_)
    fun b => lob_stable _ (Outline.Stable.and hG.stable
      (Outline.Stable.imp (framed_spawnFailed Talk).stable))
  refine ⟨hs.house.keep (a := .startWorker c) rfl h, hs.here.1.keep (a := .startWorker c) trivial h,
    hG.keep (a := .startWorker c) trivial hw (hpre s hs) h hs.frame, ?_⟩
  rintro rfl
  have hmem : c ∈ s.lobby.ids := hs.here.1.locked.mem
  refine ⟨c, ?_⟩
  rw [exec_log h]
  simp [After.log, hmem]

/-- `Channel::join` up to the entry in the pool: the channel has a thread and its flag is down. -/
theorem lobby_restart (hF : Framed P Talk F) {k : Code Unit} {Q : Unit → St → Prop}
    (hk : (discipline P).Triple .lobby
      (Lob (some c) c (fun v => Joining c n v ∧ v.stop = false) fun s => F s ∧ Reserved c s) k Q
      fun _ => Lob none c Skipped fun s => F s ∧ SpawnFailed s) :
    (discipline P).Triple .lobby
      (Lob none c (fun v => Locked c v ∧ v.known = some n) fun s => F s ∧ Reserved c s)
      (do
        if ← call (.loadStop c) then
          if ← call (.joinable c) then call (.joinWorker c)
          unless ← call (.startWorker c) do throw Err.threadFailed
          call (.storeStop c false)
          call (.storeEmptySince c 0)
        k) Q fun _ => Lob none c Skipped fun s => F s ∧ SpawnFailed s := by
  have hG := ((hF.mono fun _ h => Glance.talk h).and (framed_reserved (P := P) c)).mono
    fun _ h => Restart.glance h
  refine .pre (A := Lob (some c) c (Joining c n) fun s => F s ∧ Reserved c s) ?_ fun s _ hs =>
    ⟨hs.house.enter c, ⟨hs.here.1, hs.here.2, hs.house.tasks c hs.here.1.mem (by simp)⟩, hs.frame⟩
  refine .bind (Q := fun b => Lob (some c) c (fun v => Joining c n v ∧ v.stop = b)
    fun s => F s ∧ Reserved c s) ?_ fun b => ?_
  · refine Lob.act hG trivial trivial (fun _ _ _ => trivial) fun b s s' hs h => ?_
    obtain ⟨⟨rfl, -⟩, rfl⟩ := need_eq_some.mp h
    have hm := hs.here.locked.held
    exact ⟨hs.here, by simp only [site] at hm ⊢; simp [hm]⟩
  cases b with
  | false => exact hk
  | true =>
    refine .pre (A := Lob (some c) c (Joining c n) fun s => F s ∧ Reserved c s) ?_
      fun s _ hs => hs.mono (fun _ h => h.1) id
    refine .bind (Q := fun b => Lob (some c) c
      (fun v => Joining c n v ∧ (b = false → v.absent = true)) fun s => F s ∧ Reserved c s)
      ?_ fun b => ?_
    · refine Lob.act hG trivial trivial (fun _ _ _ => trivial) fun b s s' hs h => ?_
      obtain ⟨hb, rfl⟩ := need_eq_some.mp h
      refine ⟨hs.here, fun hf => ?_⟩
      rw [hf] at hb
      exact decide_eq_true (not_not.mp (of_decide_eq_false hb.symm))
    have hstart : (discipline P).Triple .lobby
        (Lob (some c) c (fun v => Joining c n v ∧ v.absent = true) fun s => F s ∧ Reserved c s)
        (do
          unless ← call (.startWorker c) do throw Err.threadFailed
          call (.storeStop c false)
          call (.storeEmptySince c 0)
          k) Q fun _ => Lob none c Skipped fun s => F s ∧ SpawnFailed s := by
      refine .bind (lobby_startWorker hF) fun b => ?_
      cases b with
      | false =>
        refine .raise (lob_stable _ (Outline.Stable.and hG.stable
          (Outline.Stable.imp (framed_spawnFailed Talk).stable))) fun s _ hs => ?_
        exact ⟨hs.house.settle hs.here.locked.mem hs.here.runner, hs.here.locked.skipped,
          hs.frame.1.1, hs.frame.2 rfl⟩
      | true =>
        refine .pre (A := Lob (some c) c (Joining c n) fun s => F s ∧ Reserved c s) ?_
          fun s _ hs => hs.mono (fun _ h => h) And.left
        refine .bind (Q := fun _ => Lob (some c) c (fun v => Joining c n v ∧ v.stop = false)
          fun s => F s ∧ Reserved c s) ?_ fun _ => .bind (Q := fun _ =>
            Lob (some c) c (fun v => Joining c n v ∧ v.stop = false) fun s => F s ∧ Reserved c s)
          ?_ fun _ => hk
        · refine Lob.act hG trivial trivial (fun s _ _ hb => absurd hb (by simp)) ?_
          intro r s s' hs h
          refine ⟨hs.here.keep (a := .storeStop c false) trivial h, ?_⟩
          rw [site_exec h]
          simp [After.stopFlag]
        · refine Lob.act hG trivial trivial (fun _ _ _ => trivial) fun r s s' hs h => ?_
          refine ⟨hs.here.1.keep (a := .storeEmptySince c 0) trivial h, ?_⟩
          rw [site_exec h]
          exact hs.here.2
    cases b with
    | true =>
      refine .bind (Q := fun _ => Lob (some c) c (fun v => Joining c n v ∧ v.absent = true)
        fun s => F s ∧ Reserved c s) ?_ fun _ => hstart
      refine Lob.act hG trivial rfl (fun _ _ _ => trivial) fun r s s' hs h => ?_
      refine ⟨hs.here.1.keep (a := .joinWorker c) trivial h, ?_⟩
      rw [site_exec h]
      simp [After.worker]
    | false => exact .pre hstart fun s _ hs => hs.mono (fun v hv => ⟨hv.1, hv.2 rfl⟩) id

/-! ## `join` and `leave` -/

theorem lobby_emplaceJoin (hF : Framed P Talk F) (he : ∀ s, F s → Entitled n c (ctx s))
    (m : MessageReqDto) : (discipline P).Triple .lobby
    (Lob (some c) c (fun v => Joining c n v ∧ v.stop = false) fun s => F s ∧ Reserved c s)
    (call (.emplaceJoin c n m)) (fun _ => Lob none c (Joined c n) F) E := by
  have hpre : ∀ s, Lob (some c) c (fun v => Joining c n v ∧ v.stop = false)
      (fun s => F s ∧ Reserved c s) s → LobbyPre P s (.emplaceJoin c n m) := by
    intro s hs
    have hm := hs.frame.2.1
    have hstop : (s.chan c).stopFlag = false := by simpa [site, hm] using hs.here.2
    have hent := he s hs.frame.1
    exact ⟨hm, hstop, hs.here.1.locked.mem, hs.house.cursor, hs.frame.2.2, hs.here.1.known,
      hent.report, hent.frame⟩
  refine .perform (lob_stable _ (Outline.Stable.and hF.stable (reserved_stable c)))
    (fun s _ hs => hpre s hs) (fun r s s' hw hs h _ => ?_) fun _ => lob_stable _ hF.stable
  have hm := hs.frame.2.1
  have hun : (s.chan c).unpublished = ∅ := by
    simpa [site, hm] using hs.here.1.locked.unpublished
  have hids : s'.lobby.ids = s.lobby.ids := by rw [exec_lobby h]; rfl
  have hrun : (s'.base (.chan c)).runner = (s.base (.chan c)).runner := exec_runner h _
  have hmem : c ∈ s'.lobby.ids := by
    rw [hids]
    exact hs.here.1.locked.mem
  refine ⟨?_, ?_, hF.keep (a := .emplaceJoin c n m) trivial hw (hpre s hs) h hs.frame.1⟩
  · exact (hs.house.keep (a := .emplaceJoin c n m) trivial h).settle hmem
      (hrun.trans hs.here.1.runner)
  · rw [site_exec h]
    constructor
    · simp [After.mtx, hm]
    · simp [After.placed]
    · simp [After.mtx, After.joinPool, hm, mem_keys_emplace]
    · simp [After.mtx, After.unpublished, hm, hun]

/-- What `join_and_logging` leaves. -/
def AfterJoin (c : ChId) (n : Fd) (F : St → Prop) (s : St) : Prop :=
  Lob none c (Joined c n) F s ∨
    Lob none c Skipped (fun s => F s ∧ (s.names n = none ∨ SpawnFailed s)) s

theorem unnamed_stable (n : Fd) : (discipline P).Stable .lobby fun s => s.names n = none :=
  fun hu _ hp h _ hn => unnamed_other hu hp h hn

theorem missed_stable (n : Fd) :
    (discipline P).Stable .lobby fun s => s.names n = none ∨ SpawnFailed s :=
  Outline.Stable.or (unnamed_stable n) (framed_spawnFailed Talk).stable

theorem afterJoin_stable (hF : (discipline P).Stable .lobby F) :
    (discipline P).Stable .lobby (AfterJoin c n F) :=
  Outline.Stable.or (lob_stable _ hF) (lob_stable _ (Outline.Stable.and hF (missed_stable n)))

theorem lobby_getUserName {K : Act → Prop} {φ : Site → Prop} (hF : Framed P K F)
    (ha : K (.getUserName n)) (hφ : ∀ v o, φ v → φ { v with known := o }) :
    (discipline P).Triple .lobby (Lob none c φ F) (call (.getUserName n))
      (fun r => Lob none c (fun v => φ v ∧ (r ≠ none → v.known = some n))
        fun s => F s ∧ (r = none → s.names n = none)) E := by
  refine .perform (lob_stable _ hF.stable) (fun _ _ _ => trivial) (fun r s s' hw hs h _ => ?_)
    fun r => lob_stable _ (Outline.Stable.and hF.stable (Outline.Stable.imp (unnamed_stable n)))
  have hr : r = s.names n := (need_eq_some.mp h).1
  have hsite : site c s' = { site c s with known := r.map fun _ => n } := by
    rw [site_exec h]
    rfl
  refine ⟨hs.house.keep (a := .getUserName n) trivial h, ?_,
    hF.keep (a := .getUserName n) ha hw trivial h hs.frame, fun hn => ?_⟩
  · rw [hsite]
    refine ⟨hφ _ _ hs.here, fun hne => ?_⟩
    obtain ⟨u, rfl⟩ := Option.ne_none_iff_exists'.mp hne
    rfl
  · rw [exec_names h]
    exact hr.symm.trans hn

theorem lobby_joinAndLogging (hF : Framed P Talk F) (he : ∀ s, F s → Entitled n c (ctx s))
    (timestamp : Msec64) (re : Bool) : (discipline P).Triple .lobby
    (Lob none c (Locked c) fun s => F s ∧ Reserved c s) (joinAndLogging c n timestamp re)
    (fun _ => AfterJoin c n F) E := by
  have hG := (hF.mono fun _ h => Glance.talk h).and (framed_reserved (P := P) c)
  refine .handle (E := fun _ => Lob none c Skipped fun s => F s ∧ SpawnFailed s) ?_ fun _ => ?_
  swap
  · refine .ret (lob_stable _ (Outline.Stable.and hF.stable (framed_spawnFailed Talk).stable)) ?_
    exact fun s _ hs => .inr (hs.mono (fun _ h => h) fun h => ⟨h.1, .inr h.2⟩)
  refine .bind (lobby_getUserName hG trivial fun v o hv => ⟨hv.mem, hv.held, hv.placed,
    hv.unpublished⟩) fun r => ?_
  cases r with
  | none =>
    refine .ret (lob_stable _ (Outline.Stable.and hG.stable
      (Outline.Stable.imp (unnamed_stable n)))) fun s _ hs => .inr ?_
    exact hs.mono (fun v hv => hv.1.skipped) fun h => ⟨h.1.1, .inl (h.2 rfl)⟩
  | some u =>
    refine .pre (A := Lob none c (fun v => Locked c v ∧ v.known = some n)
      fun s => F s ∧ Reserved c s) ?_ fun s _ hs =>
        hs.mono (fun v hv => ⟨hv.1, hv.2 (by simp)⟩) And.left
    refine .post (B := fun _ => Lob none c (Joined c n) F) ?_ (fun _ _ _ hs => .inl hs)
      fun _ _ _ hs => hs
    exact lobby_restart hF (lobby_emplaceJoin hF he _)

/-! ## Leaving the old channel -/

/-- The lock of `c` can be released: the entries of its pool were taken from, or scheduled for
removal at, the place they come from. -/
structure Moved (c : ChId) (s : St) : Prop where
  held : (s.chan c).mtx = some .lobby
  entries : ∀ n ∈ (s.chan c).unpublished,
    (s.base .lobby).aux.placed = some (c, n, true) ∨ ∃ d, .evicted d n ∈ s.log

theorem Moved.unlockable (hh : House none s) (hs : Moved c s) : LobbyPre P s (.unlockPool c) :=
  ⟨hs.held, hh.cursor, hs.entries⟩

theorem moved_stable (c : ChId) : (discipline P).Stable .lobby (Moved c) := by
  intro u a r s s' hu _ hp h _ hs
  obtain ⟨hm, -, -, hun, -⟩ := locked_other hu hp h hs.held
  refine ⟨hm, fun n hn => ?_⟩
  rw [hun] at hn
  rw [base_lobby_other hu h, exec_log h]
  exact (hs.entries n hn).imp id fun ⟨d, hd⟩ => ⟨d, List.mem_append_left _ hd⟩

/-- The report of `n` that `consume_report` is at, as `leave_and_logging` needs it. -/
def Reported (n : Fd) (c d : ChId) (x : Ctx) : Prop :=
  ∃ r, x.req = some r ∧ r.from' = n ∧ r.join.chFrom = d ∧ r.join.chTo = c

theorem Skipped.moved (hv : Skipped (site c s)) : Moved c s := by
  have hm := lobbyHolds_eq_true.mp hv.held
  have hun : (s.chan c).unpublished = ∅ := by simpa [site, hm] using hv.unpublished
  exact ⟨hm, by simp [hun]⟩

theorem lobby_evict (hF : Framed P Talk F) {d : ChId} (he : ∀ s, F s → Reported n c d (ctx s)) :
    (discipline P).Triple .lobby (AfterJoin c n F) (call (.insertDeletionAt d n))
      (fun _ => At fun s => F s ∧ Moved c s) E := by
  have hpre : ∀ s, AfterJoin c n F s → LobbyPre P s (.insertDeletionAt d n) := by
    intro s hs
    have hf : F s := by
      rcases hs with hs | hs
      · exact hs.frame
      · exact hs.frame.1
    obtain ⟨r, h1, h2, h3, -⟩ := he s hf
    exact ⟨r, h1, h2, h3⟩
  refine .perform (afterJoin_stable hF.stable) (fun s _ hs => hpre s hs)
    (fun r s s' hw hs h _ => ?_) fun _ => at_stable (Outline.Stable.and hF.stable (moved_stable c))
  have hmtx : (s'.chan c).mtx = (s.chan c).mtx := exec_mtx h c
  have hun : (s'.chan c).unpublished = (s.chan c).unpublished := exec_unpublished h c
  have hlog : s'.log = s.log ++ [.evicted d n] := exec_log h
  have hplaced : (s'.base .lobby).aux.placed = (s.base .lobby).aux.placed := exec_placed h .lobby
  rcases hs with hs | hs
  · have hj := hs.here
    have hm := lobbyHolds_eq_true.mp hj.held
    have hu : (s.chan c).unpublished = {n} := by simpa [site, hm] using hj.unpublished
    refine ⟨hs.house.keep (a := .insertDeletionAt d n) trivial h,
      hF.keep (a := .insertDeletionAt d n) trivial hw (hpre s (.inl hs)) h hs.frame,
      hmtx.trans hm, fun m hmem => .inr ⟨d, ?_⟩⟩
    rw [hun, hu, Finset.mem_singleton] at hmem
    rw [hlog, hmem]
    simp
  · have hmv := hs.here.moved
    refine ⟨hs.house.keep (a := .insertDeletionAt d n) trivial h,
      hF.keep (a := .insertDeletionAt d n) trivial hw (hpre s (.inr hs)) h hs.frame.1,
      hmtx.trans hmv.held, fun m hmem => ?_⟩
    rw [hplaced, hlog]
    rw [hun] at hmem
    exact (hmv.entries m hmem).imp id (by
      rintro ⟨e, he⟩
      exact ⟨e, List.mem_append_left _ he⟩)

/-- What is left to look at when the client still has its name. -/
def Departing (c : ChId) (n : Fd) (F : St → Prop) (s : St) : Prop :=
  Lob none c (fun v => Joined c n v ∧ v.known = some n) F s ∨
    Lob none c (fun v => Skipped v ∧ v.known = some n) (fun s => F s ∧ SpawnFailed s) s

theorem departing_stable (hF : (discipline P).Stable .lobby F) :
    (discipline P).Stable .lobby (Departing c n F) :=
  Outline.Stable.or (lob_stable _ hF)
    (lob_stable _ (Outline.Stable.and hF (framed_spawnFailed Talk).stable))

theorem lobby_lookAgain (hF : Framed P Talk F) : (discipline P).Triple .lobby (AfterJoin c n F)
    (call (.getUserName n))
    (fun r s => match r with | none => AfterJoin c n F s | some _ => Departing c n F s) E := by
  refine .perform (afterJoin_stable hF.stable) (fun _ _ _ => trivial) (fun r s s' hw hs h _ => ?_)
    fun r => ?_
  swap
  · cases r with
    | none => exact afterJoin_stable hF.stable
    | some u => exact departing_stable hF.stable
  have hr : r = s.names n := (need_eq_some.mp h).1
  have hnames : s'.names = s.names := exec_names h
  have hsite : site c s' = { site c s with known := r.map fun _ => n } := by
    rw [site_exec h]
    rfl
  have hlog : SpawnFailed s → SpawnFailed s' :=
    fun hs => (framed_spawnFailed (P := P) Talk).keep (a := .getUserName n) trivial hw trivial h hs
  have hframe : F s → F s' := fun hs => hF.keep (a := .getUserName n) trivial hw trivial h hs
  rcases hs with hs | hs
  · have hj : Joined c n (site c s') := by
      rw [hsite]
      exact ⟨hs.here.held, hs.here.placed, hs.here.pool, hs.here.unpublished⟩
    have hh := hs.house.keep (a := .getUserName n) trivial h
    cases r with
    | none => exact .inl ⟨hh, hj, hframe hs.frame⟩
    | some u => exact .inl ⟨hh, ⟨hj, by rw [hsite]; rfl⟩, hframe hs.frame⟩
  · have hj : Skipped (site c s') := by
      rw [hsite]
      exact ⟨hs.here.held, hs.here.placed, hs.here.unpublished⟩
    have hh := hs.house.keep (a := .getUserName n) trivial h
    cases r with
    | none => exact .inr ⟨hh, hj, hframe hs.frame.1, hs.frame.2.imp (hnames ▸ ·) hlog⟩
    | some u =>
      -- who had no name before has none now
      rcases hs.frame.2 with hn | hsp
      · rw [hn] at hr
        cases hr
      · exact .inr ⟨hh, ⟨hj, by rw [hsite]; rfl⟩, hframe hs.frame.1, hlog hsp⟩

theorem lobby_emplaceLeave (hF : Framed P Talk F) {d : ChId}
    (he : ∀ s, F s → Reported n c d (ctx s)) (m : MessageReqDto) :
    (discipline P).Triple .lobby (Departing c n F) (call (.emplaceLeave d n m))
      (fun _ => At fun s => F s ∧ Moved c s) E := by
  have hpre : ∀ s, Departing c n F s → LobbyPre P s (.emplaceLeave d n m) := by
    rintro s (hs | hs)
    · obtain ⟨r, h1, h2, h3, rfl⟩ := he s hs.frame
      exact ⟨hs.here.2, r, h1, h2, h3, .inl hs.here.1.placed_here⟩
    · obtain ⟨r, h1, h2, h3, -⟩ := he s hs.frame.1
      exact ⟨hs.here.2, r, h1, h2, h3, .inr ⟨hs.here.1.placed, hs.frame.2⟩⟩
  refine .perform (departing_stable hF.stable) (fun s _ hs => hpre s hs)
    (fun r s s' hw hs h _ => ?_) fun _ => at_stable (Outline.Stable.and hF.stable (moved_stable c))
  have hmtx : (s'.chan c).mtx = (s.chan c).mtx := exec_mtx h c
  have hun : (s'.chan c).unpublished = (s.chan c).unpublished := exec_unpublished h c
  have hplaced := exec_placed h .lobby
  rcases hs with hs | hs
  · have hj := hs.here.1
    have hm := lobbyHolds_eq_true.mp hj.held
    have hu : (s.chan c).unpublished = {n} := by simpa [site, hm] using hj.unpublished
    have hp : (s.base .lobby).aux.placed = some (c, n, false) := hj.placed
    refine ⟨hs.house.keep (a := .emplaceLeave d n m) trivial h,
      hF.keep (a := .emplaceLeave d n m) trivial hw (hpre s (.inl hs)) h hs.frame,
      hmtx.trans hm, fun k hk => .inl ?_⟩
    rw [hun, hu, Finset.mem_singleton] at hk
    rw [hplaced, hk]
    simp [After.placed, hp]
  · have hj := hs.here.1
    have hm := lobbyHolds_eq_true.mp hj.held
    have hu : (s.chan c).unpublished = ∅ := by simpa [site, hm] using hj.unpublished
    refine ⟨hs.house.keep (a := .emplaceLeave d n m) trivial h,
      hF.keep (a := .emplaceLeave d n m) trivial hw (hpre s (.inr hs)) h hs.frame.1,
      hmtx.trans hm, fun k hk => ?_⟩
    rw [hun, hu] at hk
    exact absurd hk (Finset.notMem_empty k)

theorem lobby_leaveAndLogging (hF : Framed P Talk F) {d : ChId}
    (he : ∀ s, F s → Reported n c d (ctx s)) (timestamp : Msec64) :
    (discipline P).Triple .lobby (AfterJoin c n F) (leaveAndLogging d n timestamp)
      (fun _ => At fun s => F s ∧ Moved c s) E := by
  refine .handle (E := fun _ _ => False) ?_ fun _ => .false
  refine .bind (lobby_lookAgain hF) fun r => ?_
  cases r with
  | none => exact lobby_evict hF he
  | some u => exact lobby_emplaceLeave hF he _

theorem lobby_release (hF : Framed P Talk F) : (discipline P).Triple .lobby
    (At fun s => F s ∧ Moved c s) (startPooling c) (fun _ => At F) E := by
  have hpre : ∀ s, At (fun s => F s ∧ Moved c s) s → LobbyPre P s (.unlockPool c) :=
    fun s hs => hs.2.2.unlockable hs.1
  refine .perform (at_stable (Outline.Stable.and hF.stable (moved_stable c)))
    (fun s _ hs => hpre s hs) (fun r s s' hw hs h _ => ?_) fun _ => at_stable hF.stable
  exact ⟨hs.1.keep (a := .unlockPool c) trivial h,
    hF.keep (a := .unlockPool c) trivial hw (hpre s hs) h hs.2.1⟩

end

end ChatChannel
