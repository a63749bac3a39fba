import ChatChannel.Proof.Lobby

/-!
# Making, finding and destroying channels

The functions of the lobby's thread that work on the map of channels. Each keeps the house in order
on every way out, and keeps whatever assertion `F` the caller has about what it is in the middle of.
-/

set_option autoImplicit false

namespace ChatChannel

open Conc

/-- The lobby at work on `b`, knowing `φ` of the site of `c`, in a caller's context `F`. -/
structure Lob (b : Option ChId) (c : ChId) (φ : Site → Prop) (F : St → Prop) (s : St) : Prop where
  house : House b s
  here : φ (site c s)
  frame : F s

section

variable {P : Params} {b : Option ChId} {c : ChId} {a : Act} {s s' : St} {K : Act → Prop}
  {φ : Site → Prop} {F : St → Prop} {E : Err → St → Prop}

theorem lob_stable (φ : Site → Prop) (hF : (discipline P).Stable .lobby F) :
    (discipline P).Stable .lobby (Lob b c φ F) :=
  fun hu hw hp h hw' hs => ⟨house_stable b hu hw hp h hw' hs.house,
    site_stable c φ hu hw hp h hw' hs.here, hF hu hw hp h hw' hs.frame⟩

/-- One call of the lobby that its context allows. -/
theorem Lob.act {ψ : Res a → Site → Prop} (hF : Framed P K F) (ha : K a) (hk : Keeps b a)
    (hpre : ∀ s, Wf s → Lob b c φ F s → LobbyPre P s a)
    (hstep : ∀ r s s', Lob b c φ F s → exec .lobby a r s = some s' → ψ r (site c s')) :
    (discipline P).Triple .lobby (Lob b c φ F) (call a) (fun r => Lob b c (ψ r) F) E :=
  .perform (lob_stable φ hF.stable) (fun s hw hs => hpre s hw hs)
    (fun r s s' hw hs h _ => ⟨hs.house.keep hk h, hstep r s s' hs h,
      hF.keep ha hw (hpre s hw hs) h hs.frame⟩)
    fun r => lob_stable (ψ r) hF.stable

theorem Lob.ret {α : Type} {x : α} {ψ : α → Site → Prop} (hF : (discipline P).Stable .lobby F)
    (h : ∀ v, φ v → ψ x v) :
    (discipline P).Triple .lobby (Lob b c φ F) (.ret x) (fun y => Lob b c (ψ y) F) E :=
  .ret (lob_stable φ hF) fun _ _ hs => ⟨hs.house, h _ hs.here, hs.frame⟩

theorem Lob.raise {α : Type} {e : Err} {ψ : Err → Site → Prop} {Q : α → St → Prop}
    (hF : (discipline P).Stable .lobby F) (h : ∀ v, φ v → ψ e v) :
    (discipline P).Triple .lobby (Lob b c φ F) (.raise e) Q (fun e => Lob b c (ψ e) F) :=
  .raise (lob_stable φ hF) fun _ _ hs => ⟨hs.house, h _ hs.here, hs.frame⟩

theorem Lob.mono {b : Option ChId} {c : ChId} {φ ψ : Site → Prop} {F G : St → Prop}
    (hs : Lob b c φ F s) (h : ∀ v, φ v → ψ v) (hFG : F s → G s) : Lob b c ψ G s :=
  ⟨hs.house, h _ hs.here, hFG hs.frame⟩

/-! ## Construction -/

/-- The channel has no thread, and the tasks `l`. `I` is about the map. -/
structure Making (I : List ChId → Prop) (l : List (List Task)) (v : Site) : Prop where
  absent : v.absent = true
  runner : v.runner = l
  ids : I v.ids

variable {I : List ChId → Prop} {l : List (List Task)}

theorem Making.worker (hv : Making I l (site c s)) : (s.chan c).worker = .absent :=
  of_decide_eq_true hv.absent

theorem lobby_setNetwork (hF : Framed P Manage F) : (discipline P).Triple .lobby
    (Lob b c (fun v => Making I l v ∧ v.listenFd = fdErr) F) setNetwork
    (fun _ => Lob b c (Making I l) F) (fun _ => Lob b c (Making I l) F) := by
  refine .bind (Q := fun _ => Lob b c (Making I l) F) ?_ fun o => ?_
  · refine Lob.act hF trivial trivial (fun s _ hs => hs.here.2) fun r s s' hs h => ?_
    rw [site_exec h]
    exact ⟨hs.here.1.absent, hs.here.1.runner, hs.here.1.ids⟩
  cases o with
  | none => exact Lob.raise hF.stable fun _ h => h
  | some n =>
    refine .bind (Q := fun _ => Lob b c (Making I l) F) ?_ fun o => ?_
    · refine Lob.act hF trivial trivial (fun _ _ _ => trivial) fun r s s' hs h => ?_
      rw [site_exec h]
      exact ⟨hs.here.absent, hs.here.runner, hs.here.ids⟩
    cases o
    · exact Lob.raise hF.stable fun _ h => h
    · exact Lob.ret hF.stable fun _ h => h

theorem lobby_trackerInit (hF : Framed P Manage F) : (discipline P).Triple .lobby
    (Lob b c (Making I l) F) (trackerInit c) (fun _ => Lob b c (Making I l) F)
    (fun _ => Lob b c (Making I l) F) := by
  refine .bind (Q := fun _ => Lob b c (Making I l) F) ?_ fun o => ?_
  · refine Lob.act hF trivial trivial (fun s _ hs => hs.here.worker) fun r s s' hs h => ?_
    rw [site_exec h]
    exact ⟨hs.here.absent, hs.here.runner, hs.here.ids⟩
  cases o with
  | none => exact Lob.raise hF.stable fun _ h => h
  | some n =>
    refine .bind (Q := fun _ => Lob b c (Making I l) F) ?_ fun o => ?_
    · refine Lob.act hF trivial trivial (fun s _ hs => hs.here.worker) fun r s s' hs h => ?_
      rw [site_exec h]
      exact ⟨hs.here.absent, hs.here.runner, hs.here.ids⟩
    cases o
    · exact Lob.raise hF.stable fun _ h => h
    · exact Lob.ret hF.stable fun _ h => h

/-- `pushb` and `pushf` throw exactly if the session does not exist. -/
theorem lobby_pushb (hF : Framed P Manage F) (w : Nat) (x : Task) : (discipline P).Triple .lobby
    (Lob (some c) c (Making I l) F) (pushb c w x)
    (fun _ => Lob (some c) c (fun v => w < l.length ∧ Making I (pushTask false w x l) v) F)
    (fun _ => Lob (some c) c (fun v => ¬ w < l.length ∧ Making I (pushTask false w x l) v) F) := by
  refine .bind (Q := fun r => Lob (some c) c (fun v => r = decide (w < l.length) ∧
    Making I (pushTask false w x l) v) F) ?_ fun o => ?_
  · refine Lob.act hF trivial rfl (fun s _ hs => hs.here.worker) fun r s s' hs h => ?_
    have hl : (s.base (.chan c)).runner = l := hs.here.runner
    have hr := (need_eq_some.mp h).1.2
    rw [hl] at hr
    rw [site_exec h]
    exact ⟨hr, hs.here.absent, by simp [After.runner, hl], hs.here.ids⟩
  cases o
  · exact Lob.raise hF.stable fun v hv => ⟨of_decide_eq_false hv.1.symm, hv.2⟩
  · exact Lob.ret hF.stable fun v hv => ⟨of_decide_eq_true hv.1.symm, hv.2⟩

theorem lobby_pushf (hF : Framed P Manage F) (w : Nat) (x : Task) : (discipline P).Triple .lobby
    (Lob (some c) c (Making I l) F) (pushf c w x)
    (fun _ => Lob (some c) c (fun v => w < l.length ∧ Making I (pushTask true w x l) v) F)
    (fun _ => Lob (some c) c (fun v => ¬ w < l.length ∧ Making I (pushTask true w x l) v) F) := by
  refine .bind (Q := fun r => Lob (some c) c (fun v => r = decide (w < l.length) ∧
    Making I (pushTask true w x l) v) F) ?_ fun o => ?_
  · refine Lob.act hF trivial rfl (fun s _ hs => .inl hs.here.worker) fun r s s' hs h => ?_
    have hl : (s.base (.chan c)).runner = l := hs.here.runner
    have hr := (need_eq_some.mp h).1.2
    rw [hl] at hr
    rw [site_exec h]
    exact ⟨hr, hs.here.absent, by simp [After.runner, hl], hs.here.ids⟩
  cases o
  · exact Lob.raise hF.stable fun v hv => ⟨of_decide_eq_false hv.1.symm, hv.2⟩
  · exact Lob.ret hF.stable fun v hv => ⟨of_decide_eq_true hv.1.symm, hv.2⟩

/-- In a session that exists they do not throw. -/
theorem lobby_pushb_ok (hF : Framed P Manage F) {w : Nat} (x : Task) (hw : w < l.length) :
    (discipline P).Triple .lobby (Lob (some c) c (Making I l) F) (pushb c w x)
      (fun _ => Lob (some c) c (Making I (pushTask false w x l)) F) E :=
  .post (lobby_pushb hF w x) (fun _ _ _ hs => hs.mono (fun _ h => h.2) id)
    fun _ _ _ hs => absurd hw hs.here.1

theorem lobby_pushf_ok (hF : Framed P Manage F) {w : Nat} (x : Task) (hw : w < l.length) :
    (discipline P).Triple .lobby (Lob (some c) c (Making I l) F) (pushf c w x)
      (fun _ => Lob (some c) c (Making I (pushTask true w x l)) F) E :=
  .post (lobby_pushf hF w x) (fun _ _ _ hs => hs.mono (fun _ h => h.2) id)
    fun _ _ _ hs => absurd hw hs.here.1

/-- The tasks `ServerBase` pushes. -/
def baseTasks : List (List Task) :=
  [[.clearDeletion], [.polling, .handleEvents], [.resolveDeletion]]

theorem lobby_newTracker (hF : Framed P Manage F) : (discipline P).Triple .lobby
    (Lob none c (fun v => c ∉ v.ids) F) (call (.newTracker c P.chMaxFd))
    (fun _ => Lob (some c) c (Making (c ∉ ·) []) fun s => F s ∧ Hollow c s) E := by
  have hpre : ∀ s, Lob none c (fun v => c ∉ v.ids) F s →
      LobbyPre P s (.newTracker c P.chMaxFd) :=
    fun s hs => ⟨rfl, hs.house.absent c hs.here (by simp), hs.here⟩
  refine .perform (lob_stable _ hF.stable) (fun s _ hs => hpre s hs) (fun r s s' hw hs h _ => ?_)
    fun _ => lob_stable _ (hF.and (framed_hollow c)).stable
  refine ⟨(hs.house.enter c).keep (a := .newTracker c P.chMaxFd) rfl h, ?_,
    hF.keep (a := .newTracker c P.chMaxFd) trivial hw (hpre s hs) h hs.frame, ?_⟩
  · rw [site_exec h]
    exact ⟨by simp [After.worker], by simp [After.runner], hs.here⟩
  · refine ⟨?_, ?_, ?_⟩
    · rw [exec_clients h]; simp [After.clients]
    · rw [exec_joinPool h]; simp [After.joinPool]
    · rw [exec_joining h]; simp [After.joining]

theorem lobby_serverBase (hF : Framed P Manage F) : (discipline P).Triple .lobby
    (Lob none c (fun v => c ∉ v.ids) F) (serverBase c P.chMaxFd)
    (fun _ => Lob (some c) c (fun v => Making (c ∉ ·) [] v ∨ Making (c ∉ ·) baseTasks v)
      fun s => F s ∧ Hollow c s) E := by
  have hG := hF.and (framed_hollow (P := P) c)
  refine .bind (lobby_newTracker hF) fun _ => ?_
  refine .handle (E := fun _ => Lob (some c) c (Making (c ∉ ·) []) fun s => F s ∧ Hollow c s) ?_
    fun _ => Lob.ret hG.stable fun _ h => .inl h
  have hrest : (discipline P).Triple .lobby
      (Lob (some c) c (Making (c ∉ ·) []) fun s => F s ∧ Hollow c s)
      (do
        trackerInit c
        call (.newSession c tsCount)
        pushb c tsPre .clearDeletion
        pushb c tsPoll .polling
        pushb c tsPoll .handleEvents
        pushb c tsLogic .resolveDeletion)
      (fun _ => Lob (some c) c (fun v => Making (c ∉ ·) [] v ∨ Making (c ∉ ·) baseTasks v)
        fun s => F s ∧ Hollow c s)
      (fun _ => Lob (some c) c (Making (c ∉ ·) []) fun s => F s ∧ Hollow c s) := by
    refine .bind (lobby_trackerInit hG) fun _ => ?_
    refine .bind (Q := fun _ => Lob (some c) c (Making (c ∉ ·) [[], [], []])
      fun s => F s ∧ Hollow c s) ?_ fun _ => ?_
    · refine Lob.act hG trivial rfl (fun s _ hs => hs.here.worker) fun r s s' hs h => ?_
      have hl : (s.base (.chan c)).runner = [] := hs.here.runner
      rw [site_exec h]
      exact ⟨hs.here.absent, by simp [After.runner, hl, tsCount, List.replicate], hs.here.ids⟩
    refine .bind (lobby_pushb_ok hG _ (by decide)) fun _ =>
      .bind (lobby_pushb_ok hG _ (by decide)) fun _ =>
      .bind (lobby_pushb_ok hG _ (by decide)) fun _ => ?_
    exact .post (lobby_pushb_ok (E := fun _ _ => False) hG _ (by decide))
      (fun _ _ _ hs => hs.mono (fun _ h => .inr h) id) fun _ _ _ h => h.elim
  refine .bind (Q := fun r => Lob (some c) c (fun v => Making (c ∉ ·) [] v ∧ r = v.listenFd)
    fun s => F s ∧ Hollow c s) ?_ fun n => ?_
  · refine Lob.act hG trivial trivial (fun _ _ _ => trivial) fun r s s' hs h => ?_
    obtain ⟨hr, rfl⟩ := need_eq_some.mp h
    exact ⟨hs.here, hr⟩
  split
  · rename_i hn
    refine .bind (.pre (lobby_setNetwork hG) fun s _ hs => ?_) fun _ => hrest
    exact hs.mono (fun v hv => ⟨hv.1, hv.2.symm.trans hn⟩) id
  · exact .pre hrest fun s _ hs => hs.mono (fun v hv => hv.1) id

/-! ## Destruction -/

/-- The channel has no thread. -/
structure Closing (I : List ChId → Prop) (v : Site) : Prop where
  absent : v.absent = true
  ids : I v.ids

theorem Closing.worker (hv : Closing I (site c s)) : (s.chan c).worker = .absent :=
  of_decide_eq_true hv.absent

/-- The epoll instance `e` of the channel is about to be closed. -/
structure Scrapping (c : ChId) (I : List ChId → Prop) (e : Fd) (v : Site) : Prop where
  closing : Closing I v
  efd : e = v.efd
  scrapped : v.scrapped = some (c, false)

theorem lobby_destroyServerBase (hF : Framed P Manage F) : (discipline P).Triple .lobby
    (Lob (some c) c (Closing I) fun s => F s ∧ Hollow c s) (destroyServerBase c)
    (fun _ => Lob (some c) c (Closing I) fun s => F s ∧ Hollow c s) E := by
  have hG := hF.and (framed_hollow (P := P) c)
  have hend : (discipline P).Triple .lobby (Lob (some c) c (Closing I) fun s => F s ∧ Hollow c s)
      (do
        if (← call .getListenFd) ≠ fdErr then call .closeListener
        call (.dropTracker c))
      (fun _ => Lob (some c) c (Closing I) fun s => F s ∧ Hollow c s) E := by
    have hdrop : (discipline P).Triple .lobby
        (Lob (some c) c (Closing I) fun s => F s ∧ Hollow c s) (call (.dropTracker c))
        (fun _ => Lob (some c) c (Closing I) fun s => F s ∧ Hollow c s) E := by
      refine Lob.act hG trivial rfl (fun s _ hs => ⟨hs.here.worker, hs.frame.2⟩) ?_
      intro r s s' hs h
      rw [site_exec h]
      exact ⟨by simp [After.worker], hs.here.ids⟩
    refine .bind (Q := fun _ => Lob (some c) c (Closing I) fun s => F s ∧ Hollow c s) ?_ fun n => ?_
    · refine Lob.act hG trivial trivial (fun _ _ _ => trivial) fun r s s' hs h => ?_
      obtain ⟨-, rfl⟩ := need_eq_some.mp h
      exact hs.here
    split
    · refine .bind (Q := fun _ => Lob (some c) c (Closing I) fun s => F s ∧ Hollow c s) ?_
        fun _ => hdrop
      refine Lob.act hG trivial trivial (fun _ _ _ => trivial) fun r s s' hs h => ?_
      rw [site_exec h]
      exact ⟨hs.here.absent, hs.here.ids⟩
    · exact hdrop
  refine .bind (Q := fun e => Lob (some c) c (Scrapping c I e) fun s => F s ∧ Hollow c s) ?_
    fun e => ?_
  · refine Lob.act hG trivial trivial (fun _ _ _ => trivial) fun r s s' hs h => ?_
    have hr : r = (s.base (.chan c)).efd := (need_eq_some.mp h).1
    rw [site_exec h]
    exact ⟨⟨hs.here.absent, hs.here.ids⟩, hr, by simp [After.scrapped]⟩
  refine .bind (Q := fun l => Lob (some c) c (fun v => l = [] ∧ Scrapping c I e v)
    fun s => F s ∧ Hollow c s) ?_ fun l => ?_
  · refine Lob.act hG trivial trivial (fun _ _ _ => trivial) fun l s s' hs h => ?_
    obtain ⟨⟨-, hl⟩, rfl⟩ := need_eq_some.mp h
    rw [hs.frame.2.clients] at hl
    exact ⟨(List.toFinset_eq_empty_iff l).mp hl, hs.here⟩
  -- the tracker has no clients, so both loops are empty
  refine .pre (A := fun s => l = [] ∧ Lob (some c) c (Scrapping c I e)
    (fun s => F s ∧ Hollow c s) s) (.pure ?_) fun s _ hs => ⟨hs.here.1, hs.mono (fun _ h => h.2) id⟩
  rintro rfl
  split
  · rename_i he
    refine .bind (Q := fun _ => Lob (some c) c (Scrapping c I e) fun s => F s ∧ Hollow c s)
      (Lob.ret hG.stable fun _ h => h) fun _ => ?_
    refine .bind (Q := fun _ => Lob (some c) c (Closing I) fun s => F s ∧ Hollow c s) ?_
      fun _ => hend
    refine Lob.act hG trivial trivial (fun s _ hs => ?_) fun r s s' hs h => ?_
    · exact .inr ⟨hs.house.cursor, c, hs.here.efd, he, hs.here.closing.worker, hs.here.scrapped,
        hs.frame.2⟩
    · rw [site_exec h]
      exact ⟨hs.here.closing.absent, hs.here.closing.ids⟩
  · refine .bind (Q := fun _ => Lob (some c) c (Closing I) fun s => F s ∧ Hollow c s)
      (Lob.ret hG.stable fun _ h => h.closing) fun _ => hend

/-- `Channel::Channel` leaves a channel with a running thread and all its tasks, or nothing. -/
theorem lobby_newChannel (hF : Framed P Manage F) : (discipline P).Triple .lobby
    (Lob none c (fun v => c ∉ v.ids) F) (newChannel c P.chMaxFd)
    (fun _ => Lob (some c) c (fun v => c ∉ v.ids ∧ v.runner = channelTasks)
      fun s => F s ∧ Hollow c s)
    (fun _ => Lob none c (fun v => c ∉ v.ids) fun s => F s ∧ Hollow c s) := by
  have hG := hF.and (framed_hollow (P := P) c)
  refine .bind (lobby_serverBase hF) fun _ => ?_
  refine .handle (E := fun _ => Lob (some c) c (Closing (c ∉ ·)) fun s => F s ∧ Hollow c s) ?_
    fun e => ?_
  swap
  · refine .bind (lobby_destroyServerBase hF) fun _ => ?_
    refine .raise (lob_stable _ hG.stable) fun s _ hs => ⟨?_, hs.here.ids, hs.frame⟩
    exact hs.house.leave hs.here.ids hs.here.worker
  have hclose : ∀ {l : List (List Task)} {v : Site}, Making (c ∉ ·) l v → Closing (c ∉ ·) v :=
    fun hv => ⟨hv.absent, hv.ids⟩
  -- either there are no sessions and the first push throws, or all pushes succeed
  refine .bind (Q := fun _ => Lob (some c) c (Making (c ∉ ·)
    [[.clearDeletion, .clearCurMsgs], [.polling, .handleEvents], [.resolveDeletion]])
    fun s => F s ∧ Hollow c s) ?_ fun _ => ?_
  · refine .pre (A := fun s => ∃ l, (l = [] ∨ l = baseTasks) ∧
      Lob (some c) c (Making (c ∉ ·) l) (fun s => F s ∧ Hollow c s) s) ?_ fun s _ hs => ?_
    · refine .exists fun l => .pure fun hl => ?_
      rcases hl with rfl | rfl
      · exact .post (lobby_pushb hG _ _) (fun _ _ _ hs => absurd hs.here.1 (by simp))
          fun _ _ _ hs => hs.mono (fun _ h => hclose h.2) id
      · exact lobby_pushb_ok hG _ (by decide)
    · rcases hs.here with hv | hv
      · exact ⟨[], .inl rfl, hs.house, hv, hs.frame⟩
      · exact ⟨baseTasks, .inr rfl, hs.house, hv, hs.frame⟩
  refine .bind (Q := fun _ => Lob (some c) c (Making (c ∉ ·) bootTasks)
    fun s => F s ∧ Hollow c s) (lobby_pushf_ok hG _ (by decide)) fun _ => ?_
  refine .bind (Q := fun _ => Lob (some c) c (Making (c ∉ ·) bootTasks)
    fun s => F s ∧ Hollow c s) ?_ fun _ => ?_
  · refine Lob.act hG trivial trivial (fun s _ hs => fun hb => absurd hb (by simp)) ?_
    intro r s s' hs h
    rw [site_exec h]
    exact ⟨hs.here.absent, hs.here.runner, hs.here.ids⟩
  refine .bind (Q := fun r => Lob (some c) c (fun v => c ∉ v.ids ∧ v.runner = bootTasks ∧
    (r = false → v.absent = true)) fun s => F s ∧ Hollow c s) ?_ fun b => ?_
  · refine Lob.act hG trivial rfl (fun s _ hs => ⟨hs.here.worker, .inl hs.here.runner⟩) ?_
    intro r s s' hs h
    rw [site_exec h]
    cases r with
    | true => exact ⟨hs.here.ids, hs.here.runner, by simp⟩
    | false => exact ⟨hs.here.ids, hs.here.runner, fun _ => hs.here.absent⟩
  cases b with
  | false => exact Lob.raise hG.stable fun v hv => ⟨hv.2.2 rfl, hv.1⟩
  | true =>
    -- the worker runs already while `resolve_pool` is pushed
    refine .bind (Q := fun r => Lob (some c) c (fun v => r = true ∧ c ∉ v.ids ∧
      v.runner = channelTasks) fun s => F s ∧ Hollow c s) ?_ fun b => ?_
    · refine Lob.act hG trivial rfl (fun s _ hs => .inr ⟨rfl, rfl, hs.here.2.1⟩) ?_
      intro r s s' hs h
      have hl : (s.base (.chan c)).runner = bootTasks := hs.here.2.1
      have hr : r = true := by
        have := (need_eq_some.mp h).1.2
        rw [hl] at this
        exact this
      rw [site_exec h]
      exact ⟨hr, hs.here.1, by simp [After.runner, hl, pushTask_bootTasks]⟩
    · cases b
      · exact Lob.raise hG.stable fun v hv => absurd hv.1 (by simp)
      · exact Lob.ret hG.stable fun v hv => hv.2

/-- `Channel::~Channel` of a channel whose flag is set. -/
theorem lobby_deleteChannel (hF : Framed P Manage F) : (discipline P).Triple .lobby
    (Lob none c (fun v => I v.ids) fun s => F s ∧ Hollow c s) (deleteChannel c)
    (fun _ => Lob (some c) c (Closing I) fun s => F s ∧ Hollow c s) E := by
  have hG := hF.and (framed_hollow (P := P) c)
  refine .bind (Q := fun _ => Lob (some c) c (fun v => I v.ids) fun s => F s ∧ Hollow c s) ?_
    fun _ => ?_
  · refine .pre (A := Lob (some c) c (fun v => I v.ids) fun s => F s ∧ Hollow c s) ?_
      fun s _ hs => ⟨hs.house.enter c, hs.here, hs.frame⟩
    refine Lob.act hG trivial trivial (fun s _ hs _ => hs.frame.2) fun r s s' hs h => ?_
    rw [site_exec h]
    exact hs.here
  refine .bind (Q := fun r => Lob (some c) c (fun v => I v.ids ∧ (r = false → v.absent = true))
    fun s => F s ∧ Hollow c s) ?_ fun b => ?_
  · refine Lob.act hG trivial trivial (fun _ _ _ => trivial) fun r s s' hs h => ?_
    obtain ⟨hr, rfl⟩ := need_eq_some.mp h
    refine ⟨hs.here, fun hf => ?_⟩
    rw [hf] at hr
    exact decide_eq_true (not_not.mp (of_decide_eq_false hr.symm))
  cases b with
  | true =>
    refine .bind (Q := fun _ => Lob (some c) c (Closing I) fun s => F s ∧ Hollow c s) ?_
      fun _ => lobby_destroyServerBase hF
    refine Lob.act hG trivial rfl (fun _ _ _ => trivial) fun r s s' hs h => ?_
    rw [site_exec h]
    exact ⟨by simp [After.worker], hs.here.1⟩
  | false =>
    exact .pre (lobby_destroyServerBase hF) fun s _ hs => hs.mono (fun v hv => ⟨hv.2 rfl, hv.1⟩) id

/-! ## The map -/

/-- The lobby between two operations on the map. -/
def At (F : St → Prop) (s : St) : Prop := House none s ∧ F s

theorem at_stable (hF : (discipline P).Stable .lobby F) : (discipline P).Stable .lobby (At F) :=
  Outline.Stable.and (house_stable none) hF

theorem Lob.at {G : St → Prop} (hs : Lob none c φ F s) (h : F s → G s) : At G s :=
  ⟨hs.house, h hs.frame⟩

/-- A new channel is empty. -/
theorem lobby_makeChannel (hF : Framed P Manage F) : (discipline P).Triple .lobby
    (Lob none c (fun v => c ∉ v.ids) F)
    (do
      newChannel c P.chMaxFd
      call (.insertChannel c))
    (fun _ => Lob none c (fun v => c ∈ v.ids) fun s => F s ∧ Hollow c s) fun _ => At F := by
  have hG := hF.and (framed_hollow (P := P) c)
  refine .bind (.post (lobby_newChannel hF) (fun _ _ _ h => h) fun _ _ _ hs => hs.at And.left)
    fun _ => ?_
  refine .perform (lob_stable _ hG.stable) (fun _ _ _ => trivial) (fun r s s' hw hs h _ => ?_)
    fun _ => lob_stable _ hG.stable
  have hids : s'.lobby.ids = s.lobby.ids ++ [c] := by
    rw [exec_lobby h]
    rfl
  have hwork : ∀ d, (s'.chan d).worker = (s.chan d).worker := fun d => exec_worker h d
  have hrun : ∀ v, (s'.base v).runner = (s.base v).runner := fun v => exec_runner h v
  have hcur : (s'.base .lobby).aux.cursor = (s.base .lobby).aux.cursor := exec_cursor h .lobby
  have hhouse : House (some c) s' := by
    refine ⟨⟨?_, fun d hd hb => ?_, fun d hd hb => ?_⟩, hcur.trans hs.house.cursor⟩
    · rw [hids]
      have hnew : c ∉ s.lobby.ids := hs.here.1
      exact List.nodup_append.mpr ⟨hs.house.nodup, List.nodup_singleton c, fun x hx y hy => by
        rw [List.mem_singleton.mp hy]
        rintro rfl
        exact hnew hx⟩
    · rw [hwork]
      exact hs.house.absent d (fun hd' => hd (by rw [hids]; exact List.mem_append_left _ hd')) hb
    · rw [hrun]
      have hdc : d ≠ c := fun h => hb (by rw [h])
      rw [hids] at hd
      exact hs.house.tasks d (by simpa [hdc] using hd) hb
  have hmem : c ∈ s'.lobby.ids := by
    rw [hids]
    simp
  exact ⟨hhouse.settle hmem ((hrun _).trans hs.here.2), hmem,
    hG.keep (a := .insertChannel c) trivial hw trivial h hs.frame⟩

theorem lobby_findChannel (hF : Framed P Manage F) : (discipline P).Triple .lobby (At F)
    (call (.findChannel c))
    (fun r => Lob none c (fun v => (r = true → c ∈ v.ids) ∧ (r = false → c ∉ v.ids)) F) E := by
  refine .pre (A := Lob none c (fun _ => True) F) ?_ fun s _ hs => ⟨hs.1, trivial, hs.2⟩
  refine Lob.act hF trivial trivial (fun _ _ _ => trivial) fun r s s' hs h => ?_
  obtain ⟨rfl, rfl⟩ := need_eq_some.mp h
  exact ⟨fun hr => of_decide_eq_true hr, fun hr => of_decide_eq_false hr⟩

theorem lobby_getChannel (hF : Framed P Manage F) : (discipline P).Triple .lobby (At F)
    (getChannel P c) (fun _ => Lob none c (fun v => c ∈ v.ids) F) fun _ => At F := by
  have hG := hF.and (framed_hollow (P := P) c)
  refine .bind (lobby_findChannel hF) fun b => ?_
  cases b with
  | true => exact Lob.ret hF.stable fun v hv => hv.1 rfl
  | false =>
    exact .conseq (lobby_makeChannel hF) (fun s _ hs => hs.mono (fun v hv => hv.2 rfl) id)
      (fun _ _ _ hs => hs.mono (fun _ h => h) And.left) fun _ _ _ h => h

/-- The same for a channel that is not in the map. -/
theorem lobby_getChannel_new (hF : Framed P Manage F) : (discipline P).Triple .lobby
    (Lob none c (fun v => c ∉ v.ids) F) (getChannel P c)
    (fun _ => Lob none c (fun v => c ∈ v.ids) fun s => F s ∧ Hollow c s) fun _ => At F := by
  refine .bind (Q := fun r => Lob none c (fun v => c ∉ v.ids ∧ r = false) F) ?_ fun b => ?_
  · refine Lob.act hF trivial trivial (fun _ _ _ => trivial) fun r s s' hs h => ?_
    obtain ⟨rfl, rfl⟩ := need_eq_some.mp h
    exact ⟨hs.here, decide_eq_false hs.here⟩
  cases b with
  | true =>
    exact .pre (A := fun _ => False) .false fun s _ hs => absurd hs.here.2 (by simp)
  | false => exact .pre (lobby_makeChannel hF) fun s _ hs => hs.mono (fun v hv => hv.1) id

theorem lobby_freshId (hF : Framed P Manage F) : ∀ (fuel : Nat) (c : ChId),
    (discipline P).Triple .lobby (At F) (freshId fuel c)
      (fun d => Lob none d (fun v => d ∉ v.ids) F) fun _ => At F
  | 0, c => by
    refine .bind (Q := fun _ _ => False) ?_ fun _ => .false
    exact .perform (at_stable hF.stable) (fun _ _ _ => trivial) (fun _ _ _ _ _ h _ => by cases h)
      fun _ => Outline.Stable.const
  | fuel + 1, c => by
    refine .bind (lobby_findChannel hF) fun b => ?_
    cases b with
    | true => exact .pre (lobby_freshId hF fuel (c + 1)) fun s _ hs => hs.at id
    | false =>
      exact .ret (lob_stable _ hF.stable) fun s _ hs => hs.mono (fun v hv => hv.2 rfl) id

/-! ## A channel with room -/

/-- The lobby has just taken the lock of a channel of the map. -/
structure Locked (c : ChId) (v : Site) : Prop where
  mem : c ∈ v.ids
  held : v.held = true
  placed : v.placed = none
  unpublished : v.unpublished = ∅

/-- The lobby holds the lock, and the channel has room for one more. -/
def Reserved (c : ChId) (s : St) : Prop :=
  (s.chan c).mtx = some .lobby ∧ (Room c s ∨ Hollow c s)

theorem reserved_stable (c : ChId) : (discipline P).Stable .lobby (Reserved c) := by
  intro u a r s s' hu _ hp h _ ⟨hm, hs⟩
  obtain ⟨hm', -, hpool, -, hcl⟩ := locked_other hu hp h hm
  refine ⟨hm', hs.imp (fun hr => ?_) (hollow_other hu hp h)⟩
  obtain ⟨d, rfl⟩ : ∃ d, u = .chan d := by
    cases u with
    | lobby => exact absurd rfl hu
    | chan d => exact ⟨d, rfl⟩
  have hmax : (s'.base (.chan c)).maxFd = (s.base (.chan c)).maxFd := by
    rw [exec_maxFd h]
    cases a <;> first | rfl | exact hp.2.elim
  unfold Room at hr ⊢
  rw [hpool, hmax]
  have := Finset.card_le_card hcl
  omega

theorem lobby_lock (hF : Framed P Manage F) : (discipline P).Triple .lobby
    (Lob none c (fun v => c ∈ v.ids) F) (waitStopPooling c)
    (fun _ => Lob none c (Locked c) F) E := by
  refine Lob.act hF trivial trivial (fun _ _ _ => trivial) fun r s s' hs h => ?_
  rw [site_exec h]
  exact ⟨hs.here, by simp [After.mtx], by simp [After.placed],
    by simp [After.mtx, After.unpublished]⟩

theorem lobby_ping (hF : Framed P Manage F) : (discipline P).Triple .lobby
    (Lob none c (Locked c) F) (pingPool c)
    (fun b => Lob none c (Locked c) fun s => F s ∧ (b = true → Reserved c s)) E := by
  have hstable : ∀ b : Bool, (discipline P).Stable .lobby
      fun s => F s ∧ (b = true → Reserved c s) :=
    fun b => Outline.Stable.and hF.stable (Outline.Stable.imp (reserved_stable c))
  refine .perform (lob_stable _ hF.stable) (fun _ _ _ => trivial) (fun b s s' hw hs h _ => ?_)
    fun b => lob_stable _ (hstable b)
  obtain ⟨hroom, rfl⟩ := need_eq_some.mp h
  refine ⟨hs.house, hs.here, hs.frame, fun hb => ?_⟩
  have hr : Room c s := by simpa [hb, Room] using hroom
  exact ⟨lobbyHolds_eq_true.mp hs.here.held, .inl hr⟩

theorem Locked.unlockable (hh : House none s) (hv : Locked c (site c s)) :
    LobbyPre P s (.unlockPool c) := by
  have hm := lobbyHolds_eq_true.mp hv.held
  have hun : (s.chan c).unpublished = ∅ := by simpa [site, hm] using hv.unpublished
  exact ⟨hm, hh.cursor, by simp [hun]⟩

theorem lobby_unlock (hF : Framed P Manage F) : (discipline P).Triple .lobby
    (Lob none c (Locked c) F) (startPooling c) (fun _ => At F) E := by
  refine .post (B := fun _ => Lob none c (fun _ => True) F) (D := E) ?_
    (fun _ _ _ hs => hs.at id) fun _ _ _ h => h
  exact Lob.act hF trivial trivial (fun s _ hs => hs.here.unlockable hs.house) fun _ _ _ _ _ => trivial

theorem lobby_tryChannel (hF : Framed P Manage F) (preferred c : ChId) :
    (discipline P).Triple .lobby (At F) (tryChannel P preferred c)
      (fun o s => match o with
        | some d => Lob none d (Locked d) (fun s => F s ∧ Reserved d s) s
        | none => At F s) fun _ => At F := by
  unfold tryChannel
  split
  · exact .ret (at_stable hF.stable) fun _ _ hs => hs
  refine .bind (lobby_getChannel hF) fun _ => .bind (lobby_lock hF) fun _ =>
    .bind (lobby_ping hF) fun b => ?_
  cases b with
  | true =>
    refine .pre (A := Lob none c (Locked c) fun s => F s ∧ Reserved c s) ?_
      fun s _ hs => hs.mono (fun _ h => h) fun h => ⟨h.1, h.2 rfl⟩
    exact .ret (lob_stable _ (Outline.Stable.and hF.stable (reserved_stable c))) fun _ _ hs => hs
  | false =>
    refine .bind (Q := fun _ => At F) (.pre (lobby_unlock hF) fun s _ hs =>
      hs.mono (fun _ h => h) And.left) fun _ => ?_
    exact .ret (at_stable hF.stable) fun _ _ hs => hs

theorem lobby_findOrCreate (hF : Framed P Manage F) (preferred : ChId) :
    (discipline P).Triple .lobby (At F) (findOrCreateChannel P preferred)
      (fun d => Lob none d (Locked d) fun s => F s ∧ Reserved d s) fun _ => At F := by
  have hstable : ∀ d, (discipline P).Stable .lobby
      (Lob none d (Locked d) fun s => F s ∧ Reserved d s) :=
    fun d => lob_stable _ (Outline.Stable.and hF.stable (reserved_stable d))
  refine .bind (lobby_getChannel hF) fun _ => .bind (lobby_lock hF) fun _ =>
    .bind (lobby_ping hF) fun b => ?_
  cases b with
  | true =>
    refine .pre (A := Lob none preferred (Locked preferred)
      fun s => F s ∧ Reserved preferred s) ?_
      fun s _ hs => hs.mono (fun _ h => h) fun h => ⟨h.1, h.2 rfl⟩
    exact .ret (hstable preferred) fun _ _ hs => hs
  | false =>
    refine .bind (Q := fun _ => At F) (.pre (lobby_unlock hF) fun s _ hs =>
      hs.mono (fun _ h => h) And.left) fun _ => ?_
    refine .bind (Q := fun _ => At F) ?_ fun ids => ?_
    · refine .perform (at_stable hF.stable) (fun _ _ _ => trivial) (fun r s s' _ hs h _ => ?_)
        fun _ => at_stable hF.stable
      obtain ⟨-, rfl⟩ := need_eq_some.mp h
      exact hs
    refine .bind (.firstSome (I := fun _ => At F)
      (Q := fun o s => match o with
        | some d => Lob none d (Locked d) (fun s => F s ∧ Reserved d s) s
        | none => At F s)
      (at_stable hF.stable) (fun d => hstable d) (fun _ _ hs => hs)
      (fun d _ => .post (lobby_tryChannel hF preferred d)
        (fun o _ _ hs => by cases o <;> exact hs) fun _ _ _ h => h) ids) fun o => ?_
    cases o with
    | some d => exact .ret (hstable d) fun _ _ hs => hs
    | none =>
      refine .bind (lobby_freshId hF _ _) fun d => .bind (lobby_getChannel_new hF) fun _ => ?_
      refine .bind (lobby_lock (hF.and (framed_hollow d))) fun _ => ?_
      refine .ret (lob_stable _ (hF.and (framed_hollow d)).stable) fun s _ hs => ?_
      exact hs.mono (fun _ h => h) fun h =>
        ⟨h.1, lobbyHolds_eq_true.mp hs.here.held, .inr h.2⟩

/-! ## Reaping -/

/-- One channel of `check_channels`. -/
theorem lobby_reap (hF : Framed P Manage F) (now : Msec64) : (discipline P).Triple .lobby
    (At F)
    (do
      if ← call (.loadStop c) then
        let emptyTime ← call (.loadEmptySince c)
        if 0 < emptyTime ∧ 300000 < now - emptyTime then
          deleteChannel c
          call (.eraseChannel c)) (fun _ => At F) E := by
  have hG := hF.and (framed_hollow (P := P) c)
  refine .pre (A := Lob none c (fun _ => True) F) ?_ fun s _ hs => ⟨hs.1, trivial, hs.2⟩
  have hstable : ∀ b : Bool, (discipline P).Stable .lobby
      fun s => F s ∧ (b = true → Hollow c s) :=
    fun b => Outline.Stable.and hF.stable (Outline.Stable.imp (framed_hollow c).stable)
  refine .bind (Q := fun b => Lob none c (fun _ => True)
    fun s => F s ∧ (b = true → Hollow c s)) ?_ fun b => ?_
  · refine .perform (lob_stable _ hF.stable) (fun _ _ _ => trivial) (fun b s s' hw hs h _ => ?_)
      fun b => lob_stable _ (hstable b)
    obtain ⟨⟨rfl, -⟩, rfl⟩ := need_eq_some.mp h
    exact ⟨hs.house, hs.here, hs.frame, hw.stopped c⟩
  cases b with
  | false => exact .ret (lob_stable _ (hstable false)) fun s _ hs => hs.at And.left
  | true =>
    refine .pre (A := Lob none c (fun _ => True) fun s => F s ∧ Hollow c s) ?_
      fun s _ hs => hs.mono (fun _ h => h) fun h => ⟨h.1, h.2 rfl⟩
    refine .bind (Q := fun _ => Lob none c (fun _ => True) fun s => F s ∧ Hollow c s) ?_
      fun e => ?_
    · refine Lob.act hG trivial trivial (fun _ _ _ => trivial) fun r s s' hs h => ?_
      obtain ⟨-, rfl⟩ := need_eq_some.mp h
      exact hs.here
    split
    swap
    · exact .ret (lob_stable _ hG.stable) fun s _ hs => hs.at And.left
    refine .bind (lobby_deleteChannel (I := fun _ => True) hF) fun _ => ?_
    refine .perform (lob_stable _ hG.stable) (fun _ _ hs => hs.frame.2)
      (fun r s s' hw hs h _ => ?_) fun _ => at_stable hF.stable
    have hids : s'.lobby.ids = s.lobby.ids.erase c := by
      rw [exec_lobby h]
      rfl
    have hwork : ∀ d, (s'.chan d).worker = (s.chan d).worker := fun d => exec_worker h d
    have hrun : ∀ v, (s'.base v).runner = (s.base v).runner := fun v => exec_runner h v
    have hcur : (s'.base .lobby).aux.cursor = (s.base .lobby).aux.cursor := exec_cursor h .lobby
    refine ⟨?_, hF.keep (a := .eraseChannel c) trivial hw hs.frame.2 h hs.frame.1⟩
    refine ⟨⟨?_, fun d hd _ => ?_, fun d hd _ => ?_⟩, hcur.trans hs.house.cursor⟩
    · rw [hids]
      exact hs.house.nodup.erase c
    · rw [hwork]
      by_cases hdc : d = c
      · rw [hdc]
        exact hs.here.worker
      · refine hs.house.absent d (fun hm => hd ?_) fun hb => hdc (Option.some.inj hb).symm
        rw [hids]
        exact (List.mem_erase_of_ne hdc).mpr hm
    · rw [hrun]
      rw [hids] at hd
      obtain ⟨hdc, hm⟩ := hs.house.nodup.mem_erase_iff.mp hd
      exact hs.house.tasks d hm fun hb => hdc (Option.some.inj hb).symm

end

end ChatChannel
