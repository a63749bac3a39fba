import ChatChannel.Proof.Discipline

/-!
# What the lobby's thread relies on

The members the lobby alone writes, collected in `Ctx`, and the facts about channels that survive
their workers: a thread that does not run stays so, a pool whose lock the lobby holds does not
change, an empty channel stays empty. `House` is what holds of the map of channels between two
operations on it.
-/

set_option autoImplicit false

namespace ChatChannel

open Conc

/-- What the lobby's thread is in the middle of. -/
structure Ctx where
  remaining : Option (List Fd)
  arrived : Option Fd
  source : Option (Fd × Nat)
  batch : List Bytes
  current : Option Bytes
  localQ : List ChannelReport
  req : Option ChannelReport

def ctx (s : St) : Ctx where
  remaining := (s.base .lobby).aux.remaining
  arrived := (s.base .lobby).aux.arrived
  source := (s.base .lobby).aux.source
  batch := (s.base .lobby).aux.batch
  current := (s.base .lobby).aux.current
  localQ := s.lobby.localQ
  req := s.lobby.req

/-- The channels of the map have all their tasks, and no thread runs for any other, except for the
channel that is being made or destroyed. -/
structure Rooms (busy : Option ChId) (s : St) : Prop where
  nodup : s.lobby.ids.Nodup
  absent : ∀ c, c ∉ s.lobby.ids → busy ≠ some c → (s.chan c).worker = .absent
  tasks : ∀ c ∈ s.lobby.ids, busy ≠ some c → (s.base (.chan c)).runner = channelTasks

/-- The same, with no deletion under way. -/
structure House (busy : Option ChId) (s : St) : Prop extends Rooms busy s where
  cursor : (s.base .lobby).aux.cursor = none

/-- The descriptor has a name, unless a channel is closing it. -/
def Named (n : Fd) (s : St) : Prop := s.names n ≠ none ∨ Exempt n s

/-- What the lobby knows of a channel, whatever the workers do. The members under `pool_mtx` count
as long as the lobby holds it. -/
structure Site where
  ids : List ChId
  listenFd : Fd
  /-- No thread object is attached. -/
  absent : Bool
  runner : List (List Task)
  efd : Fd
  held : Bool
  stop : Bool
  pool : List Fd
  unpublished : Finset Fd
  known : Option Fd
  placed : Option (ChId × Fd × Bool)
  scrapped : Option (ChId × Bool)

/-- The lock's holder is the lobby. -/
def lobbyHolds (m : Option Srv) : Bool := decide (m = some .lobby)

def site (c : ChId) (s : St) : Site where
  ids := s.lobby.ids
  listenFd := s.listenFd
  absent := decide ((s.chan c).worker = .absent)
  runner := (s.base (.chan c)).runner
  efd := (s.base (.chan c)).efd
  held := lobbyHolds (s.chan c).mtx
  stop := lobbyHolds (s.chan c).mtx && (s.chan c).stopFlag
  pool := bif lobbyHolds (s.chan c).mtx then keys (s.chan c).joinPool else []
  unpublished := bif lobbyHolds (s.chan c).mtx then (s.chan c).unpublished else ∅
  known := (s.base .lobby).aux.known
  placed := (s.base .lobby).aux.placed
  scrapped := (s.base .lobby).aux.scrapped

section

variable {P : Params} {t : Srv} {a : Act} {r : Res a} {s s' : St} {c : ChId} {n : Fd}

/-! ## Steps of the workers -/

/-- A worker leaves the lobby's own record alone. -/
theorem base_lobby_other (ht : t ≠ .lobby) (h : exec t a r s = some s') :
    s'.base .lobby = s.base .lobby := by
  have hne : Srv.lobby ≠ t := fun h => ht h.symm
  rw [exec_base h]
  cases a
  case epollWait => cases r <;> simp [After.base, St.atBase, hne]
  case accept => cases r <;> simp [After.base, St.atBase, hne]
  case recv n => cases r <;> simp [After.base, St.atBase, hne]
  case epollCreate d => cases r <;> simp [After.base, St.atBase]
  all_goals first | rfl | simp [After.base, St.atBase, hne]

/-- A worker changes nothing in the lobby but its queue of reports. -/
theorem lobby_other (ht : t ≠ .lobby) (hp : Pre P t a s) (h : exec t a r s = some s') :
    s'.lobby = { s.lobby with reports := s'.lobby.reports } := by
  obtain ⟨d, rfl⟩ : ∃ d, t = .chan d := by
    cases t with
    | lobby => exact absurd rfl ht
    | chan d => exact ⟨d, rfl⟩
  rw [exec_lobby h]
  cases a <;> first | rfl | exact hp.2.elim

theorem ctx_other (ht : t ≠ .lobby) (hp : Pre P t a s) (h : exec t a r s = some s') :
    ctx s' = ctx s := by
  unfold ctx
  rw [base_lobby_other ht h, lobby_other ht hp h]

theorem listenFd_other (ht : t ≠ .lobby) (hp : Pre P t a s) (h : exec t a r s = some s') :
    s'.listenFd = s.listenFd := by
  obtain ⟨d, rfl⟩ : ∃ d, t = .chan d := by
    cases t with
    | lobby => exact absurd rfl ht
    | chan d => exact ⟨d, rfl⟩
  rw [exec_listenFd h]
  cases a <;> first | rfl | exact hp.2.elim

/-! ### Facts about a channel -/

theorem absent_other (ht : t ≠ .lobby) (hp : Pre P t a s) (h : exec t a r s = some s')
    (hw : (s.chan c).worker = .absent) : (s'.chan c).worker = .absent := by
  obtain ⟨d, rfl⟩ : ∃ d, t = .chan d := by
    cases t with
    | lobby => exact absurd rfl ht
    | chan d => exact ⟨d, rfl⟩
  rw [exec_worker h]
  cases a
  case exitThread =>
    have hc : c ≠ d := by
      rintro rfl
      exact absurd hp.1 (by simp [hw])
    simpa [After.worker, own, hc] using hw
  all_goals first | exact hw | exact hp.2.elim

theorem runner_other (ht : t ≠ .lobby) (hp : Pre P t a s) (h : exec t a r s = some s') :
    (s'.base (.chan c)).runner = (s.base (.chan c)).runner := by
  obtain ⟨d, rfl⟩ : ∃ d, t = .chan d := by
    cases t with
    | lobby => exact absurd rfl ht
    | chan d => exact ⟨d, rfl⟩
  rw [exec_runner h]
  cases a <;> first | rfl | exact hp.2.elim

theorem efd_other (ht : t ≠ .lobby) (hp : Pre P t a s) (h : exec t a r s = some s') :
    (s'.base (.chan c)).efd = (s.base (.chan c)).efd := by
  obtain ⟨d, rfl⟩ : ∃ d, t = .chan d := by
    cases t with
    | lobby => exact absurd rfl ht
    | chan d => exact ⟨d, rfl⟩
  rw [exec_efd h]
  cases a <;> first | rfl | exact hp.2.elim

theorem hollow_other (ht : t ≠ .lobby) (hp : Pre P t a s) (h : exec t a r s = some s')
    (hh : Hollow c s) : Hollow c s' := by
  refine hh.step hp h ?_
  rintro n m rfl
  cases t with
  | lobby => exact ht rfl
  | chan d => exact hp.2.elim

/-- A pool whose lock the lobby holds. -/
theorem locked_other (ht : t ≠ .lobby) (hp : Pre P t a s) (h : exec t a r s = some s')
    (hm : (s.chan c).mtx = some .lobby) : (s'.chan c).mtx = some .lobby ∧
      (s'.chan c).stopFlag = (s.chan c).stopFlag ∧ (s'.chan c).joinPool = (s.chan c).joinPool ∧
      (s'.chan c).unpublished = (s.chan c).unpublished ∧
      (s'.base (.chan c)).clients ⊆ (s.base (.chan c)).clients := by
  obtain ⟨d, rfl⟩ : ∃ d, t = .chan d := by
    cases t with
    | lobby => exact absurd rfl ht
    | chan d => exact ⟨d, rfl⟩
  rw [exec_mtx h, exec_stopFlag h, exec_joinPool h, exec_unpublished h, exec_clients h]
  -- the calls that would change one of them are made under the worker's own lock
  have hne : (s.chan d).mtx = some (.chan d) → c ≠ d := by
    rintro hd rfl
    simp [hm] at hd
  cases a
  case lockPool e =>
    have hc : c ≠ e := by
      rintro rfl
      have hfree : (s.chan c).mtx = none := (need_eq_some.mp h).1
      simp [hm] at hfree
    simpa [After.mtx, After.stopFlag, After.joinPool, After.unpublished, After.clients, hc] using hm
  case unlockPool e =>
    obtain ⟨-, rfl, hd, -⟩ := hp
    simpa [After.mtx, After.stopFlag, After.joinPool, After.unpublished, After.clients, hne hd]
      using hm
  case storeStop e b =>
    obtain ⟨-, rfl, -, hd, -⟩ := hp
    simpa [After.mtx, After.stopFlag, After.joinPool, After.unpublished, After.clients, hne hd]
      using hm
  case takeJoinPool =>
    simpa [After.mtx, After.stopFlag, After.joinPool, After.unpublished, After.clients, own,
      hne hp.2.1] using hm
  case addClient n =>
    simpa [After.mtx, After.stopFlag, After.joinPool, After.unpublished, After.clients,
      hne hp.2.1] using hm
  case deleteClient n =>
    refine ⟨hm, rfl, rfl, rfl, ?_⟩
    simp only [After.clients]
    split
    · split
      · exact Finset.erase_subset _ _
      · exact subset_rfl
    · exact subset_rfl
  all_goals first | exact ⟨hm, rfl, rfl, rfl, subset_rfl⟩ | exact hp.2.elim

/-! ### Descriptors that are about to be closed -/

/-- A doomed descriptor stays so until the server closes it. -/
theorem doomed_step {v : Srv} (hw : Wf s) (hp : Pre P t a s) (h : exec t a r s = some s')
    (hc : (s.base v).aux.cursor = some (n, .doomed)) :
    (s'.base v).aux.cursor = some (n, .doomed) ∨ a = .close n := by
  have hrun : ∀ d, v = .chan d → (s.chan d).worker ≠ .absent := by
    rintro d rfl hn
    rw [hw.resting d (by simp [hn])] at hc
    cases hc
  rw [exec_cursor h]
  cases a
  case newTracker d m =>
    cases t with
    | chan e => exact hp.2.elim
    | lobby =>
      have hvd : v ≠ .chan d := fun hv => hrun d hv hp.2.1
      simpa [After.cursor, hvd] using hc
  case dropTracker d =>
    cases t with
    | chan e => exact hp.2.elim
    | lobby =>
      have hvd : v ≠ .chan d := fun hv => hrun d hv hp.1
      simpa [After.cursor, hvd] using hc
  case setCursor o =>
    by_cases ht : v = t
    · subst ht
      cases v with
      | lobby => exact absurd (hp.1 n _ hc) (by simp)
      | chan d =>
        rw [hp.2.1] at hc
        cases hc
    · simpa [After.cursor, ht] using hc
  case deleteClient m => simp [After.cursor, hc]
  case close m =>
    by_cases ht : v = t
    · subst ht
      right
      cases v with
      | lobby =>
        rcases hp with hm | ⟨hm, -⟩
        · rw [hc] at hm
          cases hm
          rfl
        · rw [hc] at hm
          cases hm
      | chan d =>
        have hm : (s.base (.chan d)).aux.cursor = some (m, .doomed) := hp.2
        rw [hc] at hm
        cases hm
        rfl
    · simpa [After.cursor, ht] using Or.inl hc
  case clearBuffer m => simp [After.cursor, hc]
  all_goals exact .inl hc

/-- Only the lobby's tracker ends an exemption. -/
theorem Exempt.step (hw : Wf s) (hp : Pre P t a s) (h : exec t a r s = some s')
    (hne : ∀ m, t = .lobby → a ≠ .addClient m) (he : Exempt n s) : Exempt n s' := by
  have hlog : ∀ k, .admitted k ∈ s'.log → .admitted k ∈ s.log := by
    intro k hk
    rcases admitted_before h hk with hk | ⟨m, ha, ht, -⟩
    · exact hk
    · exact absurd ha (hne m ht)
  rcases he with ⟨c, hc⟩ | hfile
  · rcases doomed_step hw hp h hc with hc | rfl
    · exact .inl ⟨c, hc⟩
    · right
      intro k hk
      rw [exec_file h] at hk
      exact absurd rfl (closeFile_conn.mp hk).1
  · right
    intro k hk hadm
    rcases conn_before h hk with hk | ⟨rfl, -⟩
    · exact hfile k hk (hlog k hadm)
    · exact absurd (hw.admitted _ (hlog _ hadm)) (lt_irrefl _)

/-- A name is taken away only by a thread that is bound to close the descriptor. -/
theorem names_step (hp : Pre P t a s) (h : exec t a r s = some s') (hn : s.names n ≠ none) :
    s'.names n ≠ none ∨ a = .removeUserName n ∧ (s.base t).aux.cursor = some (n, .doomed) := by
  rw [exec_names h]
  cases a
  case setUserName m u =>
    left
    simp only [After.names, Function.update_apply]
    split
    · simp
    · exact hn
  case removeUserName m =>
    by_cases hm : n = m
    · subst hm
      refine .inr ⟨rfl, ?_⟩
      cases t with
      | lobby => exact hp
      | chan e => exact hp.2
    · left
      simpa [After.names, Function.update_of_ne hm] using hn
  all_goals exact .inl hn

theorem Named.step (hw : Wf s) (hp : Pre P t a s) (h : exec t a r s = some s')
    (hne : ∀ m, t = .lobby → a ≠ .addClient m) (hrm : t = .lobby → a ≠ .removeUserName n)
    (hn : Named n s) : Named n s' := by
  rcases hn with hn | he
  · rcases names_step hp h hn with hn | ⟨rfl, hc⟩
    · exact .inl hn
    · cases t with
      | lobby => exact absurd rfl (hrm rfl)
      | chan e => exact .inr (Exempt.step hw hp h (by simp) (.inl ⟨e, hc⟩))
  · exact .inr (he.step hw hp h hne)

theorem unnamed_other (ht : t ≠ .lobby) (hp : Pre P t a s) (h : exec t a r s = some s')
    (hn : s.names n = none) : s'.names n = none := by
  obtain ⟨d, rfl⟩ : ∃ d, t = .chan d := by
    cases t with
    | lobby => exact absurd rfl ht
    | chan d => exact ⟨d, rfl⟩
  rw [exec_names h]
  cases a
  case removeUserName m =>
    simp only [After.names, Function.update_apply]
    split
    · rfl
    · exact hn
  all_goals first | exact hn | exact hp.2.elim

/-! ### Assertions that survive -/

theorem ctx_stable (φ : Ctx → Prop) : (discipline P).Stable .lobby fun s => φ (ctx s) := by
  intro u a r s s' hu _ hp h _ hφ
  rwa [ctx_other hu hp h]

theorem cursor_stable (φ : Option (Fd × Stage) → Prop) :
    (discipline P).Stable .lobby fun s => φ (s.base .lobby).aux.cursor := by
  intro u a r s s' hu _ _ h _ hφ
  rwa [base_lobby_other hu h]

theorem rooms_stable (b : Option ChId) : (discipline P).Stable .lobby (Rooms b) := by
  intro u a r s s' hu _ hp h _ hs
  have hids : s'.lobby.ids = s.lobby.ids := by rw [lobby_other hu hp h]
  refine ⟨?_, fun c hc hb => ?_, fun c hc hb => ?_⟩
  · rw [hids]
    exact hs.nodup
  · rw [hids] at hc
    exact absent_other hu hp h (hs.absent c hc hb)
  · rw [hids] at hc
    rw [runner_other hu hp h]
    exact hs.tasks c hc hb

theorem house_stable (b : Option ChId) : (discipline P).Stable .lobby (House b) :=
  fun hu hw hp h hw' hs =>
    ⟨rooms_stable b hu hw hp h hw' hs.toRooms, cursor_stable (· = none) hu hw hp h hw' hs.cursor⟩

theorem named_stable (n : Fd) : (discipline P).Stable .lobby (Named n) := by
  intro u a r s s' hu hw hp h _ hn
  exact hn.step hw hp h (fun _ ht => absurd ht hu) fun ht => absurd ht hu

/-! ## Sites -/

@[simp] theorem lobbyHolds_none : lobbyHolds none = false := rfl

@[simp] theorem lobbyHolds_lobby : lobbyHolds (some .lobby) = true := rfl

theorem lobbyHolds_eq_true {m : Option Srv} : lobbyHolds m = true ↔ m = some .lobby :=
  decide_eq_true_iff

theorem lobbyHolds_eq_false {m : Option Srv} : lobbyHolds m = false ↔ m ≠ some .lobby :=
  decide_eq_false_iff_not

/-- Nor does a worker attach or take its own thread object, or give the lobby a lock. -/
theorem absent_other_iff (ht : t ≠ .lobby) (hp : Pre P t a s) (h : exec t a r s = some s') :
    (s'.chan c).worker = .absent ↔ (s.chan c).worker = .absent := by
  refine ⟨fun hw => ?_, absent_other ht hp h⟩
  obtain ⟨d, rfl⟩ : ∃ d, t = .chan d := by
    cases t with
    | lobby => exact absurd rfl ht
    | chan d => exact ⟨d, rfl⟩
  rw [exec_worker h] at hw
  cases a
  case exitThread =>
    by_cases hc : c = d
    · simp [After.worker, own, hc] at hw
    · simpa [After.worker, own, hc] using hw
  all_goals first | exact hw | exact hp.2.elim

theorem unlocked_other (ht : t ≠ .lobby) (hp : Pre P t a s) (h : exec t a r s = some s')
    (hm : (s.chan c).mtx ≠ some .lobby) : (s'.chan c).mtx ≠ some .lobby := by
  obtain ⟨d, rfl⟩ : ∃ d, t = .chan d := by
    cases t with
    | lobby => exact absurd rfl ht
    | chan d => exact ⟨d, rfl⟩
  rw [exec_mtx h]
  cases a
  case lockPool e =>
    by_cases hc : c = e
    · simp [After.mtx, hc]
    · simpa [After.mtx, hc] using hm
  case unlockPool e =>
    by_cases hc : c = e
    · simp [After.mtx, hc]
    · simpa [After.mtx, hc] using hm
  all_goals first | exact hm | exact hp.2.elim

theorem site_other (ht : t ≠ .lobby) (hp : Pre P t a s) (h : exec t a r s = some s') :
    site c s' = site c s := by
  have hids : s'.lobby.ids = s.lobby.ids := by rw [lobby_other ht hp h]
  have habs : decide ((s'.chan c).worker = .absent) = decide ((s.chan c).worker = .absent) :=
    decide_eq_decide.mpr (absent_other_iff ht hp h)
  unfold site
  rw [hids, habs, listenFd_other ht hp h, runner_other ht hp h, efd_other ht hp h,
    base_lobby_other ht h]
  by_cases hm : (s.chan c).mtx = some .lobby
  · obtain ⟨hm', hstop, hpool, hun, -⟩ := locked_other ht hp h hm
    rw [hm, hm', hstop, hpool, hun]
  · have hm' := unlocked_other ht hp h hm
    rw [lobbyHolds_eq_false.mpr hm, lobbyHolds_eq_false.mpr hm']
    rfl

theorem site_stable (c : ChId) (φ : Site → Prop) :
    (discipline P).Stable .lobby fun s => φ (site c s) := by
  intro u a r s s' hu _ hp h _ hφ
  rwa [site_other hu hp h]

/-- The site after a call, field by field. -/
theorem site_exec (h : exec t a r s = some s') : site c s' =
    { ids := (After.lobby t s a r).ids
      listenFd := After.listenFd s a r
      absent := decide (After.worker t s c a r = .absent)
      runner := After.runner s (.chan c) a r
      efd := After.efd s (.chan c) a r
      held := lobbyHolds (After.mtx t s c a r)
      stop := lobbyHolds (After.mtx t s c a r) && After.stopFlag s c a r
      pool := bif lobbyHolds (After.mtx t s c a r) then keys (After.joinPool t s c a r) else []
      unpublished := bif lobbyHolds (After.mtx t s c a r) then After.unpublished s c a r else ∅
      known := After.known t s .lobby a r
      placed := After.placed t s .lobby a r
      scrapped := After.scrapped t s .lobby a r } := by
  unfold site
  rw [exec_lobby h, exec_listenFd h, exec_worker h, exec_runner h, exec_efd h, exec_mtx h,
    exec_stopFlag h, exec_joinPool h, exec_unpublished h, exec_known h, exec_placed h,
    exec_scrapped h]

/-! ## Management of channels -/

/-- The calls that leave alone what the lobby's thread is in the middle of. -/
def Talk : Act → Prop
  | .accept | .recv _ | .addClient _ | .decode _ | .clearBuffer _ | .onFrame _ _ | .endRecv
  | .clearDeletion | .getDeletion | .setCursor _ | .setUserName _ _ | .removeUserName _
  | .report _ _ _ | .popReports | .nextReport | .dropReports | .exitThread | .takeJoinPool
  | .takeLeavePool => False
  | _ => True

/-- Those that put nobody in a pool. -/
def Manage : Act → Prop
  | .emplaceJoin _ _ _ => False
  | a => Talk a

theorem Manage.talk (ha : Manage a) : Talk a := by
  cases a <;> first | exact ha | exact ha.elim

/-- An assertion of the lobby that the calls in `K` keep. -/
structure Framed (P : Params) (K : Act → Prop) (F : St → Prop) : Prop where
  stable : (discipline P).Stable .lobby F
  keep : ∀ {a : Act} {r : Res a} {s s' : St}, K a → Wf s → LobbyPre P s a →
    exec .lobby a r s = some s' → F s → F s'

theorem Framed.and {K : Act → Prop} {F G : St → Prop} (hF : Framed P K F) (hG : Framed P K G) :
    Framed P K fun s => F s ∧ G s where
  stable := Outline.Stable.and hF.stable hG.stable
  keep := fun ha hw hp h hs => ⟨hF.keep ha hw hp h hs.1, hG.keep ha hw hp h hs.2⟩

theorem Framed.mono {K K' : Act → Prop} {F : St → Prop} (hF : Framed P K F)
    (hK : ∀ a, K' a → K a) : Framed P K' F where
  stable := hF.stable
  keep := fun ha => hF.keep (hK _ ha)

theorem framed_ctx (φ : Ctx → Prop) : Framed P Talk fun s => φ (ctx s) where
  stable := ctx_stable φ
  keep := by
    intro a r s s' ha _ _ h hφ
    have heq : ctx s' = ctx s := by
      unfold ctx
      rw [exec_remaining h, exec_arrived h, exec_source h, exec_batch h, exec_current h,
        exec_lobby h]
      cases a
      case newTracker d m => simp [After.remaining, After.arrived, After.source, After.batch,
        After.current, After.lobby]
      case dropTracker d => simp [After.remaining, After.arrived, After.source, After.batch,
        After.current, After.lobby]
      all_goals first | rfl | exact ha.elim
    rwa [heq]

theorem framed_named (n : Fd) : Framed P Talk (Named n) where
  stable := named_stable n
  keep := by
    intro a r s s' ha hw hp h hn
    refine Named.step (t := .lobby) hw hp h (fun m _ => ?_) (fun _ => ?_) hn
    · rintro rfl
      exact ha
    · rintro rfl
      exact ha

theorem framed_hollow (c : ChId) : Framed P Manage (Hollow c) where
  stable := fun hu _ hp h _ hh => hollow_other hu hp h hh
  keep := by
    intro a r s s' ha _ hp h hh
    refine Hollow.step (t := .lobby) hh hp h ?_
    rintro n m rfl
    exact ha

/-- What the log says stays said. -/
theorem framed_log (φ : List LogEv → Prop) (hφ : ∀ l l', φ l → φ (l ++ l')) (K : Act → Prop) :
    Framed P K fun s => φ s.log where
  stable := by
    intro u a r s s' _ _ _ h _ hs
    rw [exec_log h]
    exact hφ _ _ hs
  keep := by
    intro a r s s' _ _ _ h hs
    rw [exec_log h]
    exact hφ _ _ hs

/-- The calls that keep the house in order. Those on a channel's thread or tasks are for the
channel at work. -/
def Keeps (b : Option ChId) : Act → Prop
  | .newTracker c _ | .newSession c _ | .pushBack c _ _ | .pushFront c _ _ | .startWorker c
  | .joinWorker c | .dropTracker c => b = some c
  | .insertChannel _ | .eraseChannel _ | .setCursor _ | .exitThread => False
  | _ => True

theorem Rooms.keep {b : Option ChId} (hs : Rooms b s) (ha : Keeps b a ∨ ∃ o, a = .setCursor o)
    (h : exec .lobby a r s = some s') : Rooms b s' := by
  have hids : s'.lobby.ids = s.lobby.ids := by
    rw [exec_lobby h]
    rcases ha with ha | ⟨o, rfl⟩
    · cases a <;> first | rfl | exact ha.elim
    · rfl
  refine ⟨?_, fun c hc hb => ?_, fun c hc hb => ?_⟩
  · rw [hids]
    exact hs.nodup
  · rw [hids] at hc
    have hw := hs.absent c hc hb
    have hne : ∀ d, b = some d → c ≠ d := by
      rintro d hd rfl
      exact hb hd
    rw [exec_worker h]
    rcases ha with ha | ⟨o, rfl⟩
    swap
    · exact hw
    cases a
    case startWorker d => cases r <;> simp [After.worker, hne d ha, hw]
    all_goals first | exact hw | exact ha.elim | simp [After.worker, hw]
  · rw [hids] at hc
    have ht := hs.tasks c hc hb
    have hne : ∀ d, b = some d → c ≠ d := by
      rintro d hd rfl
      exact hb hd
    rw [exec_runner h]
    rcases ha with ha | ⟨o, rfl⟩
    swap
    · exact ht
    cases a <;> first | exact ht | exact ha.elim | simpa [After.runner, hne _ ha] using ht

theorem House.keep {b : Option ChId} (hs : House b s) (ha : Keeps b a)
    (h : exec .lobby a r s = some s') : House b s' := by
  refine ⟨hs.toRooms.keep (.inl ha) h, ?_⟩
  have hcur := hs.cursor
  rw [exec_cursor h]
  cases a <;> first | exact hcur | exact ha.elim | simp [After.cursor, hcur]

theorem House.enter (c : ChId) (hs : House none s) : House (some c) s :=
  ⟨⟨hs.nodup, fun d hd _ => hs.absent d hd (by simp),
    fun d hd _ => hs.tasks d hd (by simp)⟩, hs.cursor⟩

/-- The channel at work is not in the map and has no thread. -/
theorem House.leave (hs : House (some c) s) (hc : c ∉ s.lobby.ids)
    (hw : (s.chan c).worker = .absent) : House none s := by
  refine ⟨⟨hs.nodup, fun d hd _ => ?_, fun d hd _ => ?_⟩, hs.cursor⟩
  · by_cases hdc : c = d
    · rw [← hdc]
      exact hw
    · exact hs.absent d hd (by simp [hdc])
  · have hdc : c ≠ d := by
      rintro rfl
      exact hc hd
    exact hs.tasks d hd (by simp [hdc])

/-- The channel at work is in the map and has its tasks. -/
theorem House.settle (hs : House (some c) s) (hc : c ∈ s.lobby.ids)
    (ht : (s.base (.chan c)).runner = channelTasks) : House none s := by
  refine ⟨⟨hs.nodup, fun d hd _ => ?_, fun d hd _ => ?_⟩, hs.cursor⟩
  · have hdc : c ≠ d := by
      rintro rfl
      exact hd hc
    exact hs.absent d hd (by simp [hdc])
  · by_cases hdc : c = d
    · rw [← hdc]
      exact ht
    · exact hs.tasks d hd (by simp [hdc])

end

end ChatChannel
